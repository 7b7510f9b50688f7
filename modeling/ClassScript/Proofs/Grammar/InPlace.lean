import ClassScript.Proofs.Grammar.Totality
import ClassScript.Tree.Reader

set_option autoImplicit false

/-!
# Reading in place finds the same

A reader in a list of tokens stands where a cursor does whose rest is what the list has between the
reader and the first closing token.  `Follows` says that a step in place does what a step of the
parser does from there; as every step is followed by one that does, a whole program is read in place
with the same result, and no token is ever asked for that the list does not have.
-/

open ClassScript.Parser (Level constant? expressionFuel programFuel startsStatement dropToBoundary)

namespace ClassScript

/-! ## Reader and cursor -/

/-- Tokens up to the first closing one, and others after it. -/
structure Closed where
  before : List Token
  closing : Token
  after : List Token
  inside : ∀ t ∈ before, t.kind ≠ .endOfSource
  closes : closing.kind = .endOfSource

/-- All the tokens. -/
def Closed.tokens (l : Closed) : List Token :=
  l.before ++ l.closing :: l.after

/-- The reader stands where the cursor does, and it got there one by one from the first token. -/
structure Stands (l : Closed) (r : TokenReader) (c : Cursor) : Prop where
  tokens : r.tokens = l.tokens
  inside : r.current ≤ l.before.length
  trail : r.trail.reverse = List.range (r.current + 1)
  rest : c.rest = l.before.drop r.current
  closing : c.closing = l.closing
  nextId : r.nextId = c.nextId
  faults : r.faults = c.faults

namespace Stands

variable {l : Closed} {r : TokenReader} {c : Cursor}

/-- The next token of the list is the next one of the cursor, or the closing one. -/
theorem next (h : Stands l r c) : r.tokens[r.current]? = some (c.rest.head?.getD c.closing) := by
  rw [h.tokens, h.rest, h.closing, List.head?_drop, Closed.tokens]
  rcases h.inside.lt_or_eq with before | ended
  · rw [List.getElem?_append_left before, List.getElem?_eq_getElem before]
    rfl
  · rw [ended, List.getElem?_append_right (Nat.le_refl _), List.getElem?_eq_none (Nat.le_refl _),
      Nat.sub_self]
    rfl

/-- The next token closes the list if and only if nothing is left. -/
theorem ended_iff (h : Stands l r c) :
    (c.rest.head?.getD c.closing).kind = .endOfSource ↔ c.rest = [] := by
  cases rest : c.rest with
  | nil => simpa [h.closing] using l.closes
  | cons t ts =>
    have among : t ∈ l.before.drop r.current := by
      rw [← h.rest, rest]
      exact List.mem_cons_self
    simpa using l.inside t (List.mem_of_mem_drop among)

/-- Behind the next token the reader stands where the cursor does without it. -/
theorem step (h : Stands l r c) {t : Token} {rest : List Token} (same : c.rest = t :: rest) :
    Stands l (r.moveTo (r.current + 1)) { c with rest } ∧ l.tokens[r.current]? = some t := by
  have drops : l.before.drop r.current = t :: rest := h.rest.symm.trans same
  have before : r.current < l.before.length := by
    by_contra not
    rw [List.drop_eq_nil_of_le (Nat.le_of_not_lt not)] at drops
    cases drops
  refine ⟨⟨h.tokens, before, ?_, ?_, h.closing, h.nextId, h.faults⟩, ?_⟩
  · change (_ :: r.trail).reverse = List.range (r.current + 1 + 1)
    rw [List.reverse_cons, h.trail, ← List.range_succ]
  · change rest = l.before.drop (r.current + 1)
    rw [← List.tail_drop, drops, List.tail_cons]
  · rw [← h.tokens, h.next, same]
    rfl

theorem remaining (h : Stands l r c) :
    ((r.tokens.drop r.current).takeWhile fun t => t.kind ≠ .endOfSource).length =
      c.rest.length := by
  have parts : r.tokens.drop r.current = c.rest ++ l.closing :: l.after := by
    rw [h.tokens, h.rest, Closed.tokens, List.drop_append_of_le_length h.inside]
  have others : ∀ t ∈ c.rest, decide (t.kind ≠ .endOfSource) = true := by
    intro t ht
    rw [h.rest] at ht
    exact decide_eq_true (l.inside t (List.mem_of_mem_drop ht))
  rw [parts, List.takeWhile_append_of_pos others,
    List.takeWhile_cons_of_neg (by simpa using l.closes), List.append_nil]

theorem start (l : Closed) (firstId : Nat) :
    Stands l (.start l.tokens firstId) (.start l.tokens firstId) := by
  have first : l.tokens.takeWhile (fun t => t.kind ≠ .endOfSource) = l.before := by
    rw [Closed.tokens, List.takeWhile_append_of_pos fun t ht => decide_eq_true (l.inside t ht),
      List.takeWhile_cons_of_neg (by simpa using l.closes), List.append_nil]
  have closing : (l.tokens.find? fun t => t.kind = .endOfSource) = some l.closing := by
    rw [Closed.tokens, List.find?_append,
      List.find?_eq_none.2 fun t ht => by simpa using l.inside t ht, Option.none_or,
      List.find?_cons_of_pos (by simpa using l.closes)]
  refine ⟨rfl, Nat.zero_le _, rfl, first, ?_, rfl, rfl⟩
  change Option.getD _ _ = _
  rw [closing, Option.getD_some]

end Stands

namespace InPlace

/-! ## Steps that do the same -/

/-- What two steps come to is the same, and they leave off at the same place. -/
inductive Same (l : Closed) {α : Type} :
    EStateM.Result TokenReader.Stop TokenReader α → EStateM.Result Halt Cursor α → Prop where
  | ok {r : TokenReader} {c : Cursor} (a : α) (h : Stands l r c) : Same l (.ok a r) (.ok a c)
  | fault {r : TokenReader} {c : Cursor} (d : Diagnostic) (h : Stands l r c) :
      Same l (.error (.fault d) r) (.error (.fault d) c)
  | exhausted (r : TokenReader) (c : Cursor) : Same l (.error .exhausted r) (.error .exhausted c)

/-- From a reader that stands where the cursor does, the step in place does what the other does. -/
structure Follows (l : Closed) {α : Type} (w : InPlace α) (p : Parser α) : Prop where
  same : ∀ (r : TokenReader) (c : Cursor), Stands l r c → Same l (w r) (p c)

section

variable {l : Closed} {α β : Type}

theorem bind_of_ok {w : InPlace α} {f : α → InPlace β} {r r₁ : TokenReader} {a : α}
    (h : w r = .ok a r₁) : (w >>= f) r = f a r₁ := by
  change EStateM.bind w f r = _
  rw [EStateM.bind, h]

namespace Follows

protected theorem pure (a : α) : Follows l (pure a) (pure a) :=
  ⟨fun _ _ h => .ok a h⟩

theorem exhausted : Follows l (InPlace.exhausted : InPlace α) Parser.exhausted :=
  ⟨fun _ _ _ => .exhausted _ _⟩

/-- Steps in sequence. -/
protected theorem bind {w : InPlace α} {p : Parser α} {f : α → InPlace β} {g : α → Parser β}
    (first : Follows l w p) (rest : ∀ a, Follows l (f a) (g a)) :
    Follows l (w >>= f) (p >>= g) := by
  refine ⟨fun r c h => ?_⟩
  have same := first.same r c h
  change Same l (EStateM.bind w f r) (EStateM.bind p g c)
  unfold EStateM.bind
  cases runs : w r <;> cases reads : p c <;> rw [runs, reads] at same <;> cases same
  case ok.ok.ok stands => exact (rest _).same _ _ stands
  case error.error.fault stands => exact .fault _ stands
  case error.error.exhausted => exact .exhausted _ _

theorem map {w : InPlace α} {p : Parser α} (f : α → β) (same : Follows l w p) :
    Follows l (f <$> w) (f <$> p) := by
  rw [map_eq_pure_bind, map_eq_pure_bind]
  exact same.bind fun a => Follows.pure (f a)

end Follows

/-! ## Looking and moving -/

variable {r : TokenReader} {c : Cursor}

theorem peek_eq (h : Stands l r c) : peek r = .ok (c.rest.head?.getD c.closing) r := by
  change token r.current r = _
  unfold token
  simp only [bind, EStateM.bind, get, getThe, MonadStateOf.get, EStateM.get, h.next]
  rfl

theorem atEnd_eq (h : Stands l r c) : atEnd r = .ok c.rest.isEmpty r := by
  rw [atEnd, bind_of_ok (peek_eq h)]
  change EStateM.Result.ok (decide _) r = _
  rw [Bool.eq_iff_iff.2 (decide_eq_true_iff.trans (h.ended_iff.trans List.isEmpty_iff.symm))]

theorem check_eq (h : Stands l r c) (kind : TokenKind) :
    check kind r = .ok (c.rest.head?.any fun t => t.kind = kind) r := by
  rw [check, bind_of_ok (atEnd_eq h)]
  cases rest : c.rest with
  | nil => rfl
  | cons t ts =>
    change (peek >>= fun t => pure (decide (t.kind = kind))) r = _
    rw [bind_of_ok (peek_eq h), rest]
    rfl

/-- Behind a token the reader has it before it. -/
theorem previous_eq (h : Stands l r c) {t : Token} {rest : List Token} (same : c.rest = t :: rest) :
    previous (r.moveTo (r.current + 1)) = .ok t (r.moveTo (r.current + 1)) := by
  change token r.current (r.moveTo (r.current + 1)) = _
  unfold token
  simp only [bind, EStateM.bind, get, getThe, MonadStateOf.get, EStateM.get]
  rw [show (r.moveTo (r.current + 1)).tokens = l.tokens from h.tokens, (h.step same).2]
  rfl

/-- Before the end, moving on takes the next token. -/
theorem advance_eq (h : Stands l r c) {t : Token} {rest : List Token} (same : c.rest = t :: rest) :
    advance r = .ok t (r.moveTo (r.current + 1)) := by
  rw [advance, bind_of_ok (atEnd_eq h), same]
  exact previous_eq h same

/-- The two ways in which a look for some kinds can go. -/
theorem matchAny?_cases (h : Stands l r c) (kinds : List TokenKind) :
    (∃ t rest, c.rest = t :: rest ∧ t.kind ∈ kinds ∧
      matchAny? kinds r = .ok true (r.moveTo (r.current + 1))) ∨
    (Parser.Stops kinds c.rest ∧ matchAny? kinds r = .ok false r) := by
  induction kinds with
  | nil => exact .inr ⟨fun t _ => List.not_mem_nil, rfl⟩
  | cons kind kinds ih =>
    rw [matchAny?, bind_of_ok (check_eq h kind)]
    cases rest : c.rest with
    | nil =>
      rcases ih with ⟨t, ts, same, -, -⟩ | ⟨-, skips⟩
      · cases rest.symm.trans same
      · exact .inr ⟨fun t among => (nomatch among), skips⟩
    | cons t ts =>
      by_cases found : t.kind = kind
      · refine .inl ⟨t, ts, rfl, found ▸ List.mem_cons_self, ?_⟩
        simp only [List.head?_cons, Option.any_some, found, decide_true, if_true]
        rw [bind_of_ok (advance_eq h rest)]
        rfl
      · simp only [List.head?_cons, Option.any_some, found, decide_false]
        rcases ih with ⟨t', ts', same, among, taken⟩ | ⟨stops, skips⟩
        · cases rest.symm.trans same
          exact .inl ⟨t, ts, rfl, List.mem_cons_of_mem _ among, taken⟩
        · refine .inr ⟨fun t' first => ?_, skips⟩
          cases first
          have other : t.kind ∉ kinds := stops t (by rw [rest]; rfl)
          simp [found, other]

namespace Follows

theorem atEnd : Follows l atEnd Parser.atEnd := by
  refine ⟨fun r c h => ?_⟩
  rw [atEnd_eq h]
  exact .ok _ h

theorem check (kind : TokenKind) : Follows l (check kind) (Parser.check kind) := by
  refine ⟨fun r c h => ?_⟩
  rw [check_eq h]
  exact .ok _ h

theorem peek : Follows l peek Parser.peek := by
  refine ⟨fun r c h => ?_⟩
  rw [peek_eq h]
  exact .ok _ h

theorem report (t : Token) (fault : GrammarFault) :
    Follows l (report t fault) (Parser.report t fault) := by
  refine ⟨fun r c h => .ok _ ?_⟩
  exact ⟨h.tokens, h.inside, h.trail, h.rest, h.closing, h.nextId,
    congrArg (fun faults => Array.push faults _) h.faults⟩

theorem freshId : Follows l freshId Parser.freshId := by
  refine ⟨fun r c h => ?_⟩
  change Same l (.ok r.nextId _) (.ok c.nextId _)
  rw [h.nextId]
  exact .ok _ ⟨h.tokens, h.inside, h.trail, h.rest, h.closing, rfl, h.faults⟩

/-- A look for some kinds, and what was found before the reader. -/
theorem take_bind {kinds : List TokenKind} {f : Token → InPlace β} {none : InPlace β}
    {g : Option Token → Parser β} (yes : ∀ t, Follows l (f t) (g (some t)))
    (no : Follows l none (g .none)) :
    Follows l (matchAny? kinds >>= fun found => if found = true then previous >>= f else none)
      (Parser.acceptAny? kinds >>= g) := by
  refine ⟨fun r c h => ?_⟩
  rcases matchAny?_cases h kinds with ⟨t, rest, same, among, taken⟩ | ⟨stops, skips⟩
  · rw [bind_of_ok taken, if_pos rfl, bind_of_ok (previous_eq h same),
      Parser.bind_of_ok (Parser.acceptAny?_of_mem same among)]
    exact (yes t).same _ _ (h.step same).1
  · rw [bind_of_ok skips, if_neg Bool.false_ne_true,
      Parser.bind_of_ok (Parser.acceptAny?_of_stops stops)]
    exact no.same r c h

theorem match? (kind : TokenKind) : Follows l (match? kind) (Parser.accept kind) := by
  refine ⟨fun r c h => ?_⟩
  change Same l (matchAny? [kind] r) ((Parser.acceptAny? [kind] >>= fun a => pure a.isSome) c)
  rcases matchAny?_cases h [kind] with ⟨t, rest, same, among, taken⟩ | ⟨stops, skips⟩
  · rw [taken, Parser.bind_of_ok (Parser.acceptAny?_of_mem same among)]
    exact .ok true (h.step same).1
  · rw [skips, Parser.bind_of_ok (Parser.acceptAny?_of_stops stops)]
    exact .ok false h

/-- A look for a kind, on which it depends how reading goes on. -/
theorem match?_bind {kind : TokenKind} {f : Bool → InPlace β} {g : Bool → Parser β}
    (yes : Follows l (f true) (g true)) (no : Follows l (f false) (g false)) :
    Follows l (InPlace.match? kind >>= f) (Parser.accept kind >>= g) := by
  refine (match? kind).bind fun found => ?_
  cases found with
  | true => exact yes
  | false => exact no

theorem check_bind {kind : TokenKind} {f : Bool → InPlace β} {g : Bool → Parser β}
    (yes : Follows l (f true) (g true)) (no : Follows l (f false) (g false)) :
    Follows l (InPlace.check kind >>= f) (Parser.check kind >>= g) := by
  refine (check kind).bind fun found => ?_
  cases found with
  | true => exact yes
  | false => exact no

theorem consume (kind : TokenKind) (what : Expected) :
    Follows l (consume kind what) (Parser.expect kind what) := by
  refine ⟨fun r c h => ?_⟩
  rw [InPlace.consume, bind_of_ok (check_eq h kind), Parser.expect, Parser.accept?]
  rcases Parser.acceptAny?_cases [kind] c with ⟨t, rest, same, among, taken⟩ | ⟨stops, skips⟩
  · have next : (c.rest.head?.any fun t => t.kind = kind) = true := by
      simpa [same] using among
    rw [Parser.bind_of_ok taken, if_pos next, advance_eq h same]
    exact .ok t (h.step same).1
  · have other : (c.rest.head?.any fun t => t.kind = kind) = false := by
      rw [Option.any_eq_false]
      intro t first
      simpa using stops t first
    rw [Parser.bind_of_ok skips, if_neg (by simp [other]), bind_of_ok (peek_eq h)]
    exact .fault _ h

end Follows

/-- The next token is taken, if there is one. -/
theorem Same.next_bind (h : Stands l r c) {t : Token} {rest : List Token} (same : c.rest = t :: rest)
    {f : Token → InPlace β} {g : Bool → Parser β} (more : ∀ u, Follows l (f u) (g true)) :
    Same l ((advance >>= f) r) ((Parser.accept t.kind >>= g) c) := by
  rw [bind_of_ok (advance_eq h same), Parser.accept, bind_assoc, Parser.accept?,
    Parser.bind_of_ok (Parser.acceptAny?_of_mem same (List.mem_singleton_self _))]
  exact (more t).same _ _ (h.step same).1

/-- The next token is taken if it has a kind that no closing one has. -/
theorem Same.if_bind (h : Stands l r c) {kind : TokenKind} (inside : kind ≠ .endOfSource)
    {f : Token → InPlace β} {other : InPlace β} {g : Option Token → Parser β}
    (yes : ∀ u, Follows l (f u) (g (some u))) (no : Same l (other r) (g none c)) :
    Same l ((if (c.rest.head?.getD c.closing).kind = kind then advance >>= f else other) r)
      ((Parser.accept? kind >>= g) c) := by
  rcases Parser.acceptAny?_cases [kind] c with ⟨t, rest, same, among, taken⟩ | ⟨stops, skips⟩
  · have next : (c.rest.head?.getD c.closing).kind = kind := by
      simpa [same] using among
    rw [if_pos next, bind_of_ok (advance_eq h same), Parser.accept?, Parser.bind_of_ok taken]
    exact (yes t).same _ _ (h.step same).1
  · have next : (c.rest.head?.getD c.closing).kind ≠ kind := by
      cases rest : c.rest with
      | nil =>
        rw [List.head?_nil, Option.getD_none, h.closing, l.closes]
        exact inside.symm
      | cons t ts => simpa using stops t (by rw [rest]; rfl)
    rwa [if_neg next, Parser.accept?, Parser.bind_of_ok skips]

/-! ## Recovery -/

/-- From any place but the first, skipping drops what the cursor would drop there. -/
theorem skip_eq {fuel : Nat} {last : Token} (h : Stands l r c) (before : previous r = .ok last r)
    (enough : c.rest.length < fuel) :
    ∃ r', skip fuel r = .ok () r' ∧ Stands l r' { c with rest := dropToBoundary last c.rest } := by
  induction fuel generalizing r c last with
  | zero => omega
  | succ fuel ih =>
    rw [skip, bind_of_ok (atEnd_eq h)]
    cases rest : c.rest with
    | nil =>
      refine ⟨r, rfl, ?_⟩
      rw [dropToBoundary, ← rest]
      exact h
    | cons t ts =>
      have next : peek r = .ok t r := by
        rw [peek_eq h, rest]
        rfl
      rw [if_neg (by simp), bind_of_ok before, dropToBoundary]
      by_cases semicolon : last.kind = .semicolon
      · rw [if_pos semicolon, if_pos (by simp [semicolon]), ← rest]
        exact ⟨r, rfl, h⟩
      rw [if_neg semicolon, bind_of_ok next]
      by_cases starts : startsStatement t.kind = true
      · rw [if_pos starts, if_pos (by simp [starts]), ← rest]
        exact ⟨r, rfl, h⟩
      rw [if_neg starts, if_neg (by simp [semicolon, starts]), bind_of_ok (advance_eq h rest)]
      rw [rest, List.length_cons] at enough
      exact ih (h.step rest).1 (previous_eq h rest) (by dsimp only; omega)

/-- Even at the end there is a token before the reader, unless there is none at all. -/
theorem synchronize_eq (h : Stands l r c) (some : l.before ≠ []) :
    ∃ r', synchronize r = .ok () r' ∧
      Stands l r' { c with rest := Parser.synchronize c.rest } := by
  have goes : ∀ {r' : TokenReader} {c' : Cursor}, Stands l r' c' →
      (remaining >>= fun n => skip (n + 1)) r' = skip (c'.rest.length + 1) r' := by
    intro r' c' h'
    exact congrArg (fun n => skip (n + 1) r') h'.remaining
  cases rest : c.rest with
  | nil =>
    have length : r.current = l.before.length := by
      have dropped := List.drop_eq_nil_iff.1 (h.rest.symm.trans rest)
      exact Nat.le_antisymm h.inside dropped
    obtain ⟨i, place⟩ : ∃ i, r.current = i + 1 :=
      Nat.exists_eq_succ_of_ne_zero (length ▸ mt List.length_eq_zero_iff.1 some)
    have inside : i < l.before.length := by omega
    have last : previous r = .ok l.before[i] r := by
      unfold previous
      simp only [bind, EStateM.bind, get, getThe, MonadStateOf.get, EStateM.get, place]
      unfold token
      simp only [bind, EStateM.bind, get, getThe, MonadStateOf.get, EStateM.get]
      rw [h.tokens, Closed.tokens, List.getElem?_append_left inside,
        List.getElem?_eq_getElem inside]
      rfl
    have advanced : advance r = .ok l.before[i] r := by
      rw [advance, bind_of_ok (atEnd_eq h), rest]
      exact last
    rw [synchronize, bind_of_ok advanced, goes h]
    obtain ⟨r', skips, stands⟩ := skip_eq h last (Nat.lt_succ_self _)
    rw [rest] at stands
    exact ⟨r', skips, stands⟩
  | cons t ts =>
    rw [synchronize, bind_of_ok (advance_eq h rest), goes (h.step rest).1]
    exact skip_eq (h.step rest).1 (previous_eq h rest) (Nat.lt_succ_self _)

theorem Follows.recovering {w : InPlace α} {p : Parser α} (some : l.before ≠ [])
    (same : Follows l w p) : Follows l (recovering w) (Parser.recovering p) := by
  refine ⟨fun r c h => ?_⟩
  have outcome := same.same r c h
  unfold InPlace.recovering Parser.recovering
  cases runs : w r <;> cases reads : p c <;> rw [runs, reads] at outcome <;> cases outcome
  case ok.ok.ok stands => exact .ok _ stands
  case error.error.fault r' c' d stands =>
    have reported : Stands l { r' with faults := r'.faults.push d }
        { c' with faults := c'.faults.push d } :=
      ⟨stands.tokens, stands.inside, stands.trail, stands.rest, stands.closing, stands.nextId,
        congrArg (fun faults => Array.push faults _) stands.faults⟩
    obtain ⟨r'', ran, stands'⟩ := synchronize_eq reported some
    change Same l ((synchronize >>= fun _ => pure none) _) _
    rw [bind_of_ok ran]
    exact .ok none stands'
  case error.error.exhausted => exact .exhausted _ _

/-! ## Expressions -/

/-- Under some fuel, the functions for expressions do in place what those of the parser do. -/
structure ExpressionsFollow (l : Closed) (fuel : Nat) : Prop where
  assignment : Follows l (assignment fuel) (Parser.assignment fuel)
  binary : ∀ level, Follows l (binary fuel level) (Parser.binary fuel level)
  binaryRest : ∀ level left,
    Follows l (binaryRest fuel level left) (Parser.binaryRest fuel level left)
  operand : ∀ level, Follows l (operand fuel level) (Parser.operand fuel level)
  unary : Follows l (unary fuel) (Parser.unary fuel)
  callRest : ∀ head, Follows l (callRest fuel head) (Parser.callRest fuel head)
  arguments : ∀ count, Follows l (arguments fuel count) (Parser.arguments fuel count)
  primary : Follows l (primary fuel) (Parser.primary fuel)

end

section Expressions

variable {l : Closed} {fuel : Nat} (ih : ExpressionsFollow l fuel)
include ih

theorem assignment_follows : Follows l (assignment (fuel + 1)) (Parser.assignment (fuel + 1)) := by
  rw [InPlace.assignment, Parser.assignment]
  refine (ih.binary .or).bind fun target => Follows.take_bind (fun equals => ?_) (.pure target)
  refine ih.assignment.bind fun value => ?_
  cases target with
  | name id token => exact Follows.freshId.bind fun n => .pure _
  | get object property => exact .pure _
  | _ => exact (Follows.report ..).bind fun _ => .pure _

theorem binary_follows (level : Level) :
    Follows l (binary (fuel + 1) level) (Parser.binary (fuel + 1) level) := by
  rw [InPlace.binary, Parser.binary]
  exact (ih.operand level).bind fun left => ih.binaryRest level left

theorem binaryRest_follows (level : Level) (left : Expr) :
    Follows l (binaryRest (fuel + 1) level left) (Parser.binaryRest (fuel + 1) level left) := by
  rw [InPlace.binaryRest, Parser.binaryRest]
  refine Follows.take_bind (fun operator => ?_) (.pure left)
  exact (ih.operand level).bind fun right => ih.binaryRest level _

theorem operand_follows (level : Level) :
    Follows l (operand (fuel + 1) level) (Parser.operand (fuel + 1) level) := by
  rw [InPlace.operand, Parser.operand]
  cases level.tighter? with
  | some tighter => exact ih.binary tighter
  | none => exact ih.unary

theorem unary_follows : Follows l (unary (fuel + 1)) (Parser.unary (fuel + 1)) := by
  rw [InPlace.unary, Parser.unary]
  refine Follows.take_bind (fun operator => ?_) ?_
  · exact ih.unary.bind fun operand => .pure _
  · exact ih.primary.bind fun head => ih.callRest head

theorem callRest_follows (head : Expr) :
    Follows l (callRest (fuel + 1) head) (Parser.callRest (fuel + 1) head) := by
  have closing : ∀ values, Follows l
      (consume .rightParen .argumentsEnd >>= fun t => callRest fuel (.call head t values))
      (Parser.expect .rightParen .argumentsEnd >>= fun t =>
        Parser.callRest fuel (.call head t values)) :=
    fun values => (Follows.consume ..).bind fun t => ih.callRest _
  rw [InPlace.callRest, Parser.callRest]
  refine Follows.match?_bind ?_ (Follows.match?_bind ?_ (.pure head))
  · refine Follows.check_bind (closing []) ?_
    exact (ih.arguments 0).bind fun values => closing values
  · exact (Follows.consume ..).bind fun property => ih.callRest _

theorem arguments_follows (count : Nat) :
    Follows l (arguments (fuel + 1) count) (Parser.arguments (fuel + 1) count) := by
  rw [InPlace.arguments, Parser.arguments]
  have after : Follows l (do
        let first ← assignment fuel
        if ← match? .comma then return first :: (← arguments fuel (count + 1))
        else return [first])
      (do
        let first ← Parser.assignment fuel
        if ← Parser.accept .comma then return first :: (← Parser.arguments fuel (count + 1))
        else return [first]) := by
    refine ih.assignment.bind fun first => Follows.match?_bind ?_ (.pure [first])
    exact (ih.arguments (count + 1)).bind fun others => .pure _
  split
  · exact Follows.peek.bind fun t => (Follows.report ..).bind fun _ => after
  · exact after

theorem primary_follows : Follows l (primary (fuel + 1)) (Parser.primary (fuel + 1)) := by
  refine ⟨fun r c h => ?_⟩
  rw [InPlace.primary, Parser.primary, bind_of_ok (peek_eq h),
    Parser.bind_of_ok (show Parser.peek c = .ok (c.rest.head?.getD c.closing) c from rfl)]
  cases constant : constant? (c.rest.head?.getD c.closing) with
  | some value =>
    cases value with
    | error fault => exact .fault _ h
    | ok value =>
      cases rest : c.rest with
      | nil =>
        have closes : c.closing.kind = .endOfSource := h.closing ▸ l.closes
        simp [rest, constant?, closes] at constant
      | cons t ts =>
        exact Same.next_bind (f := fun _ => pure (Expr.constant value))
          (g := fun _ => pure (Expr.constant value)) h rest fun u => .pure _
  | none =>
    refine Same.if_bind h (by decide) (fun u => Follows.freshId.bind fun n => .pure _) ?_
    refine Same.if_bind h (by decide) (fun u => Follows.freshId.bind fun n => .pure _) ?_
    refine Same.if_bind h (by decide) (fun u => ?_) ?_
    · refine (Follows.consume ..).bind fun dot => (Follows.consume ..).bind fun method => ?_
      exact Follows.freshId.bind fun n => .pure _
    · rw [Parser.accept, bind_assoc]
      refine Same.if_bind h (by decide) (fun u => ?_) (.fault _ h)
      refine ih.assignment.bind fun inner => (Follows.consume ..).bind fun r => .pure _

end Expressions

theorem expressionsFollow (l : Closed) (fuel : Nat) : ExpressionsFollow l fuel := by
  induction fuel with
  | zero =>
    exact ⟨.exhausted, fun _ => .exhausted, fun _ _ => .exhausted, fun _ => .exhausted, .exhausted,
      fun _ => .exhausted, fun _ => .exhausted, .exhausted⟩
  | succ fuel ih =>
    exact ⟨assignment_follows ih, binary_follows ih, binaryRest_follows ih, operand_follows ih,
      unary_follows ih, callRest_follows ih, arguments_follows ih, primary_follows ih⟩

section

variable {l : Closed}

/-- As much fuel is given as there are tokens left. -/
theorem Follows.fueled {α : Type} {w : Nat → InPlace α} {p : Nat → Parser α}
    (same : ∀ n, Follows l (w n) (p n)) :
    Follows l (InPlace.remaining >>= w) (get >>= fun c => p c.rest.length) := by
  refine ⟨fun r c h => ?_⟩
  rw [bind_of_ok (show InPlace.remaining r = .ok _ r from rfl), h.remaining]
  exact (same c.rest.length).same r c h

theorem expression_follows : Follows l expression Parser.expression :=
  Follows.fueled fun _ => (expressionsFollow l _).assignment

theorem expressionBefore?_follows (closing : TokenKind) :
    Follows l (expressionBefore? closing) (Parser.expressionBefore? closing) :=
  Follows.check_bind (.pure none) (expression_follows.bind fun _ => .pure _)

/-! ## Declarations and statements -/

theorem parametersFrom_follows (fuel count : Nat) :
    Follows l (parametersFrom fuel count) (Parser.parametersFrom fuel count) := by
  induction fuel generalizing count with
  | zero => exact .exhausted
  | succ fuel ih =>
    have after : Follows l (do
          let first ← consume .identifier .parameterName
          if ← match? .comma then return first :: (← parametersFrom fuel (count + 1))
          else return [first])
        (do
          let first ← Parser.expect .identifier .parameterName
          if ← Parser.accept .comma then return first :: (← Parser.parametersFrom fuel (count + 1))
          else return [first]) := by
      refine (Follows.consume ..).bind fun first => Follows.match?_bind ?_ (.pure [first])
      exact (ih (count + 1)).bind fun others => .pure _
    rw [parametersFrom, Parser.parametersFrom]
    split
    · exact Follows.peek.bind fun t => (Follows.report ..).bind fun _ => after
    · exact after

theorem parameters_follows : Follows l parameters Parser.parameters :=
  Follows.check_bind (.pure []) (Follows.fueled fun n => parametersFrom_follows (n + 1) 0)

theorem variableDeclaration_follows :
    Follows l variableDeclaration Parser.variableDeclaration := by
  have closed : ∀ name value, Follows l
      (consume .semicolon .variableEnd >>= fun _ => pure (Stmt.varDecl name value))
      (Parser.expect .semicolon .variableEnd >>= fun _ => pure (Stmt.varDecl name value)) :=
    fun name value => (Follows.consume ..).bind fun semicolon => .pure _
  refine (Follows.consume ..).bind fun name => Follows.match?_bind ?_ (closed name none)
  exact (expression_follows.map some).bind fun value => closed name value

theorem expressionStatement_follows :
    Follows l expressionStatement Parser.expressionStatement :=
  expression_follows.bind fun _ => (Follows.consume ..).bind fun _ => .pure _

theorem printStatement_follows : Follows l printStatement Parser.printStatement :=
  expression_follows.bind fun _ => (Follows.consume ..).bind fun _ => .pure _

/-- A repetition up to a brace or to the end. -/
theorem until_brace_follows {α : Type} {done more : InPlace α} {done' more' : Parser α}
    (closed : Follows l done done') (goes : Follows l more more') :
    Follows l (do if (← check .rightBrace) || (← atEnd) then done else more)
      (do if (← Parser.check .rightBrace) || (← Parser.atEnd) then done' else more') := by
  refine (Follows.check _).bind fun brace => Follows.atEnd.bind fun ended => ?_
  cases brace || ended with
  | true => exact closed
  | false => exact goes

theorem forInitializer_follows : Follows l forInitializer Parser.forInitializer := by
  refine Follows.match?_bind (.pure none) (Follows.match?_bind ?_ ?_)
  · exact variableDeclaration_follows.bind fun s => .pure _
  · exact expressionStatement_follows.bind fun s => .pure _

end

/-- Under some fuel, the functions for declarations do in place what those of the parser do. -/
structure StatementsFollow (l : Closed) (fuel : Nat) : Prop where
  declaration : Follows l (declaration fuel) (Parser.declaration fuel)
  classDeclaration : Follows l (classDeclaration fuel) (Parser.classDeclaration fuel)
  methods : Follows l (methods fuel) (Parser.methods fuel)
  function : ∀ role, Follows l (function fuel role) (Parser.function fuel role)
  block : Follows l (block fuel) (Parser.block fuel)
  declarations : Follows l (declarations fuel) (Parser.declarations fuel)
  statement : Follows l (statement fuel) (Parser.statement fuel)

section Statements

variable {l : Closed} {fuel : Nat} (ih : StatementsFollow l fuel)
include ih

theorem declaration_follows (some : l.before ≠ []) :
    Follows l (declaration (fuel + 1)) (Parser.declaration (fuel + 1)) := by
  rw [InPlace.declaration, Parser.declaration]
  refine Follows.recovering some (Follows.match?_bind ih.classDeclaration ?_)
  refine Follows.match?_bind ?_ (Follows.match?_bind variableDeclaration_follows ih.statement)
  exact (ih.function .function).bind fun f => .pure _

theorem classDeclaration_follows :
    Follows l (classDeclaration (fuel + 1)) (Parser.classDeclaration (fuel + 1)) := by
  rw [InPlace.classDeclaration, Parser.classDeclaration]
  have body : ∀ name superclass, Follows l (do
        let _ ← consume .leftBrace .classBodyStart
        let members ← methods fuel
        let _ ← consume .rightBrace .classBodyEnd
        return Stmt.classDecl name superclass members)
      (do
        let _ ← Parser.expect .leftBrace .classBodyStart
        let members ← Parser.methods fuel
        let _ ← Parser.expect .rightBrace .classBodyEnd
        return Stmt.classDecl name superclass members) := by
    intro name superclass
    refine (Follows.consume ..).bind fun l => ih.methods.bind fun members => ?_
    exact (Follows.consume ..).bind fun r => .pure _
  refine (Follows.consume ..).bind fun name => Follows.match?_bind ?_ (body name none)
  refine (Follows.consume ..).bind fun parent => Follows.freshId.bind fun n => ?_
  exact body name (Expr.name n parent)

theorem methods_follows : Follows l (methods (fuel + 1)) (Parser.methods (fuel + 1)) := by
  rw [InPlace.methods, Parser.methods]
  refine until_brace_follows (.pure []) ?_
  exact (ih.function .method).bind fun first => ih.methods.bind fun others => .pure _

theorem function_follows (role : FunctionRole) :
    Follows l (function (fuel + 1) role) (Parser.function (fuel + 1) role) := by
  rw [InPlace.function, Parser.function]
  refine (Follows.consume ..).bind fun name => (Follows.consume ..).bind fun paren => ?_
  refine parameters_follows.bind fun params => (Follows.consume ..).bind fun r => ?_
  exact (Follows.consume ..).bind fun brace => ih.block.bind fun body => .pure _

theorem block_follows : Follows l (block (fuel + 1)) (Parser.block (fuel + 1)) := by
  rw [InPlace.block, Parser.block]
  exact ih.declarations.bind fun body => (Follows.consume ..).bind fun r => .pure _

theorem declarations_follows :
    Follows l (declarations (fuel + 1)) (Parser.declarations (fuel + 1)) := by
  rw [InPlace.declarations, Parser.declarations]
  refine until_brace_follows (.pure []) ?_
  exact ih.declaration.bind fun first => ih.declarations.bind fun others => .pure _

theorem statement_follows : Follows l (statement (fuel + 1)) (Parser.statement (fuel + 1)) := by
  rw [InPlace.statement, Parser.statement]
  refine Follows.match?_bind ?ofFor (Follows.match?_bind ?ofIf ?_)
  case ofFor =>
    refine (Follows.consume ..).bind fun paren => forInitializer_follows.bind fun first => ?_
    refine (expressionBefore?_follows _).bind fun condition => (Follows.consume ..).bind fun _ => ?_
    refine (expressionBefore?_follows _).bind fun increment => (Follows.consume ..).bind fun _ => ?_
    exact ih.statement.bind fun body => .pure _
  case ofIf =>
    refine (Follows.consume ..).bind fun paren => expression_follows.bind fun condition => ?_
    refine (Follows.consume ..).bind fun r => ih.statement.bind fun thenBranch => ?_
    refine Follows.match?_bind ?_ (.pure _)
    exact ih.statement.bind fun elseBranch => .pure _
  refine Follows.match?_bind printStatement_follows (Follows.take_bind (fun keyword => ?_) ?_)
  · exact (expressionBefore?_follows _).bind fun value => (Follows.consume ..).bind fun _ => .pure _
  refine Follows.match?_bind ?ofWhile (Follows.match?_bind ?_ expressionStatement_follows)
  case ofWhile =>
    refine (Follows.consume ..).bind fun paren => expression_follows.bind fun condition => ?_
    exact (Follows.consume ..).bind fun r => ih.statement.bind fun body => .pure _
  exact ih.block.bind fun body => .pure _

end Statements

theorem statementsFollow {l : Closed} (some : l.before ≠ []) (fuel : Nat) :
    StatementsFollow l fuel := by
  induction fuel with
  | zero =>
    exact ⟨.exhausted, .exhausted, .exhausted, fun _ => .exhausted, .exhausted, .exhausted,
      .exhausted⟩
  | succ fuel ih =>
    exact ⟨declaration_follows ih some, classDeclaration_follows ih, methods_follows ih,
      function_follows ih, block_follows ih, declarations_follows ih, statement_follows ih⟩

/-! ## Programs -/

theorem declarationsToEnd_follows (l : Closed) (fuel : Nat) :
    Follows l (declarationsToEnd fuel) (Parser.program fuel) := by
  induction fuel with
  | zero => exact .exhausted
  | succ fuel ih =>
    rw [declarationsToEnd, Parser.program]
    by_cases some : l.before = []
    · -- nothing is left from the start on, so that no declaration is looked for
      refine ⟨fun r c h => ?_⟩
      have ended : c.rest = [] := by rw [h.rest, some, List.drop_nil]
      rw [bind_of_ok (atEnd_eq h),
        Parser.bind_of_ok (show Parser.atEnd c = .ok c.rest.isEmpty c from rfl), ended]
      exact .ok [] h
    · refine Follows.atEnd.bind fun ended => ?_
      cases ended with
      | true => exact .pure []
      | false =>
        refine (statementsFollow some fuel).declaration.bind fun first => ?_
        exact ih.bind fun others => .pure _

end InPlace

theorem Stands.current_of_ended {l : Closed} {r : TokenReader} {c : Cursor} (h : Stands l r c)
    (ended : c.rest.length ≤ 0) : r.current = l.before.length := by
  have dropped : l.before.drop r.current = [] :=
    h.rest.symm.trans (List.length_eq_zero_iff.1 (Nat.le_zero.1 ended))
  exact Nat.le_antisymm h.inside (List.drop_eq_nil_iff.1 dropped)

/-- A closed list is read to its first closing token, with the result that `parse` has. -/
theorem Closed.program_eq (l : Closed) (firstId : Nat) : ∃ outcome r,
    InPlace.program (.start l.tokens firstId) = .ok outcome r ∧
      r.current = l.before.length ∧ r.trail.reverse = List.range (r.current + 1) ∧
      parse l.tokens firstId = ⟨outcome, r.nextId⟩ ∧
      ((∃ program, outcome = .program program) ∨ ∃ faults ≠ [], outcome = .rejected faults) := by
  obtain ⟨statements, c, read, ends, parsed⟩ := exists_parse l.tokens firstId
  have start := Stands.start l firstId
  have same := (InPlace.declarationsToEnd_follows l
    (programFuel (Cursor.start l.tokens firstId).rest.length)).same _ _ start
  rw [read] at same
  cases runs : InPlace.declarationsToEnd
      (programFuel (Cursor.start l.tokens firstId).rest.length) (.start l.tokens firstId) with
  | error stop r =>
    rw [runs] at same
    cases same
  | ok ss r =>
    rw [runs] at same
    cases same with
    | ok _ stands =>
      have ran : InPlace.program (.start l.tokens firstId) =
          .ok (if r.faults.isEmpty then .program statements else .rejected r.faults.toList) r := by
        unfold InPlace.program
        rw [InPlace.bind_of_ok (show InPlace.remaining _ = .ok _ _ from rfl), start.remaining,
          InPlace.bind_of_ok runs]
        rfl
      rw [← stands.faults, ← stands.nextId] at parsed
      refine ⟨_, r, ran, stands.current_of_ended ends, stands.trail, parsed, ?_⟩
      split
      · exact .inl ⟨statements, rfl⟩
      · rename_i some
        refine .inr ⟨r.faults.toList, fun none => some ?_, rfl⟩
        simpa using none

/-! ## Lists with a closing token -/

/-- The index of the first closing token. -/
def closingIndex (tokens : List Token) : Nat :=
  tokens.findIdx fun t => t.kind = .endOfSource

/-- A list with a closing token is cut at the first one. -/
theorem exists_closed {tokens : List Token} (closed : ∃ t ∈ tokens, t.kind = .endOfSource) :
    ∃ l : Closed, l.tokens = tokens ∧ l.before.length = closingIndex tokens := by
  have inside : closingIndex tokens < tokens.length := by
    rw [closingIndex, List.findIdx_lt_length]
    simpa using closed
  have others : ∀ t ∈ tokens.take (closingIndex tokens), t.kind ≠ .endOfSource := by
    intro t among
    obtain ⟨i, before, rfl⟩ := List.mem_take_iff_getElem.1 among
    have other := List.not_of_lt_findIdx (Nat.lt_of_lt_of_le before (Nat.min_le_left _ _))
    simpa using other
  have closes : tokens[closingIndex tokens].kind = .endOfSource :=
    of_decide_eq_true (List.findIdx_getElem (w := inside))
  refine ⟨⟨_, _, tokens.drop (closingIndex tokens + 1), others, closes⟩, ?_, ?_⟩
  · change tokens.take _ ++ tokens[closingIndex tokens] :: tokens.drop _ = tokens
    rw [← List.drop_eq_getElem_cons inside, List.take_append_drop]
  · exact List.length_take_of_le inside.le

/-- The same list with other tokens behind the first closing one. -/
theorem Closed.tokens_eq_of_take {l : Closed} {tokens : List Token}
    (same : tokens.take (l.before.length + 1) = l.tokens.take (l.before.length + 1)) :
    ({ l with after := tokens.drop (l.before.length + 1) } : Closed).tokens = tokens := by
  have first : tokens.take (l.before.length + 1) = l.before ++ [l.closing] := by
    rw [same, Closed.tokens, List.take_length_add_append]
    rfl
  rw [← List.take_append_drop (l.before.length + 1) tokens, first]
  simp [Closed.tokens]

theorem Closed.start_eq (l : Closed) (firstId : Nat) :
    Cursor.start l.tokens firstId = ⟨l.before, l.closing, firstId, #[]⟩ := by
  have h := Stands.start l firstId
  have rest : (Cursor.start l.tokens firstId).rest = l.before := h.rest
  rw [← rest, ← h.closing]
  rfl

/-- What is read depends on nothing behind the first closing token. -/
theorem Closed.parse_eq (l : Closed) (after : List Token) (firstId : Nat) :
    parse ({ l with after } : Closed).tokens firstId = parse l.tokens firstId := by
  unfold parse
  rw [Closed.start_eq, Closed.start_eq]

/-- **Reading in place is total.**  If a list has a closing token, whatever else it has, reading it
in place comes to an end with a program or with some faults, which are those of `parse`.  No token
is ever asked for that the list does not have, before the first one neither.  The reader is at every
index up to the first closing token once, in their order, and ends there; and any list with the same
tokens up to that one is read in the same way. -/
theorem reads_in_place (tokens : List Token) (firstId : Nat)
    (closed : ∃ t ∈ tokens, t.kind = .endOfSource) :
    ∃ outcome r, InPlace.program (.start tokens firstId) = .ok outcome r ∧
      ((∃ program, outcome = .program program) ∨ ∃ faults ≠ [], outcome = .rejected faults) ∧
      parse tokens firstId = ⟨outcome, r.nextId⟩ ∧
      r.current = closingIndex tokens ∧ r.trail.reverse = List.range (r.current + 1) ∧
      ∀ tokens', tokens'.take (closingIndex tokens + 1) = tokens.take (closingIndex tokens + 1) →
        ∃ r', InPlace.program (.start tokens' firstId) = .ok outcome r' ∧
          parse tokens' firstId = ⟨outcome, r.nextId⟩ ∧ r'.trail = r.trail := by
  obtain ⟨l, rfl, length⟩ := exists_closed closed
  obtain ⟨outcome, r, ran, place, trail, parsed, kind⟩ := l.program_eq firstId
  refine ⟨outcome, r, ran, kind, parsed, place.trans length, trail, fun tokens' same => ?_⟩
  rw [← length] at same
  have parsed' := l.parse_eq (tokens'.drop (l.before.length + 1)) firstId
  obtain ⟨outcome', r', ran', place', trail', read', -⟩ :=
    Closed.program_eq { l with after := tokens'.drop (l.before.length + 1) } firstId
  rw [Closed.tokens_eq_of_take same] at parsed' ran' read'
  obtain rfl : outcome' = outcome := by
    have outcomes := congrArg Parse.outcome (read'.symm.trans (parsed'.trans parsed))
    exact outcomes
  refine ⟨r', ran', parsed'.trans parsed, ?_⟩
  rw [← List.reverse_inj, trail', trail, place', place]

/-- Something is left behind the closing token, and the fault is found at the very first one. -/
def strayBrace : List Token :=
  [⟨.rightBrace, "\x7d", none, 1⟩, .closing 1, ⟨.kwPrint, "print", none, 2⟩]

theorem reads_in_place_strayBrace :
    (∃ t ∈ strayBrace, t.kind = .endOfSource) ∧
      ∃ outcome r, InPlace.program (.start strayBrace 0) = .ok outcome r ∧
        parse strayBrace 0 = ⟨outcome, r.nextId⟩ ∧ r.current = 1 ∧ r.trail.reverse = [0, 1] := by
  have closed : ∃ t ∈ strayBrace, t.kind = .endOfSource := ⟨.closing 1, by simp [strayBrace], rfl⟩
  obtain ⟨outcome, r, ran, -, parsed, place, trail, -⟩ := reads_in_place strayBrace 0 closed
  have first : r.current = 1 := place
  rw [first] at trail
  exact ⟨closed, outcome, r, ran, parsed, first, trail⟩

end ClassScript
