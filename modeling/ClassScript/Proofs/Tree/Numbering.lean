import ClassScript.Proofs.Grammar.Loops
import ClassScript.Proofs.Grammar.Reading
import ClassScript.Proofs.Tree.WellFormed

set_option autoImplicit false

/-!
# The trees that the parser makes

One more walk along the parser, this time for what it puts into its trees.  A step starts at some
node number and ends at one that is not lower; the references it makes are numbered in between, also
where it makes no tree in the end.  What is known of the tokens is known of the names and the
references that are made from them.
-/

namespace ClassScript

/-- All tokens that are left are as `S` says. -/
def Cursor.All (S : Token → Prop) (c : Cursor) : Prop :=
  ∀ t ∈ c.rest, S t

/-- What is known of tokens is enough for the names and the references that are made from them. -/
structure Token.Grounds (S N : Token → Prop) (P : Reference → Prop) : Prop where
  name : ∀ {t}, S t → t.kind = .identifier → N t
  reads : ∀ {t}, S t → t.kind = .identifier → ∀ id, P ⟨.name, id, t⟩
  assigns : ∀ {t id}, P ⟨.name, id, t⟩ → ∀ id', P ⟨.assign, id', t⟩
  this : ∀ {t}, S t → t.kind = .kwThis → ∀ id, P ⟨.this, id, t⟩
  super : ∀ {t}, S t → t.kind = .kwSuper → ∀ id, P ⟨.super, id, t⟩

/-- Of spelled tokens come names and spelled references. -/
theorem Token.grounds_spelled :
    Token.Grounds Token.Spelled (fun t => IsName t.lexeme) Reference.Spelled where
  name spelled kind := spelled.name kind
  reads spelled kind _ := spelled.name kind
  assigns spelled _ := spelled
  this spelled kind _ := spelled.this kind
  super spelled kind _ := spelled.super kind

/-- Of any tokens come some names and some references. -/
theorem Token.grounds_any : Token.Grounds (fun _ => True) (fun _ => True) (fun _ => True) :=
  ⟨fun _ _ => trivial, fun _ _ _ => trivial, fun _ _ => trivial, fun _ _ _ => trivial,
    fun _ _ _ => trivial⟩

namespace Parser

variable {S N : Token → Prop} {P : Reference → Prop}

/-! ## What a step makes -/

/-- From one state to the other only tokens were dropped and node numbers used up. -/
structure Advances (S : Token → Prop) (c c' : Cursor) : Prop where
  spelled : c'.All S
  ids : c.nextId ≤ c'.nextId

/-- What the step yields is related by `Q` to the node numbers before and after it. -/
structure Makes {α : Type} (S : Token → Prop) (Q : Nat → Nat → α → Prop) (p : Parser α) : Prop where
  ok : ∀ {c c' : Cursor} {a : α}, c.All S → p c = .ok a c' →
    Advances S c c' ∧ Q c.nextId c'.nextId a
  error : ∀ {c c' : Cursor} {x : Halt}, c.All S → p c = .error x c' → Advances S c c'

namespace Makes

variable {α β : Type} {Q : Nat → Nat → α → Prop} {R : Nat → Nat → β → Prop}

theorem mono {Q' : Nat → Nat → α → Prop} {p : Parser α} (h : Makes S Q p)
    (imp : ∀ lo hi a, lo ≤ hi → Q lo hi a → Q' lo hi a) : Makes S Q' p where
  ok hc hp := by
    obtain ⟨advances, made⟩ := h.ok hc hp
    exact ⟨advances, imp _ _ _ advances.ids made⟩
  error := h.error

protected theorem pure {a : α} (h : ∀ n, Q n n a) : Makes S Q (pure a) where
  ok := by
    rintro c c' b hc hp
    obtain ⟨rfl, rfl⟩ : a = b ∧ c = c' := by simpa [pure, EStateM.pure] using hp
    exact ⟨⟨hc, Nat.le_refl _⟩, h _⟩
  error := by
    rintro c c' x - hp
    simp [pure, EStateM.pure] at hp

/-- Two steps, the second of which starts at the node number `lo` and knows what the first one made
from `start` on. -/
protected theorem bind {p : Parser α} {f : α → Parser β} (hp : Makes S Q p)
    (hf : ∀ a, Makes S (fun lo hi b => ∀ start, start ≤ lo → lo ≤ hi → Q start lo a → R start hi b)
      (f a)) : Makes S R (p >>= f) where
  ok := by
    intro c c' b hc h
    obtain ⟨a, c₁, h₁, h₂⟩ := bind_eq_ok.1 h
    obtain ⟨first, made⟩ := hp.ok hc h₁
    obtain ⟨second, makes⟩ := (hf a).ok first.spelled h₂
    exact ⟨⟨second.spelled, Nat.le_trans first.ids second.ids⟩,
      makes _ first.ids second.ids made⟩
  error := by
    intro c c' x hc h
    rcases bind_eq_error.1 h with h | ⟨a, c₁, h₁, h₂⟩
    · exact hp.error hc h
    · obtain ⟨first, -⟩ := hp.ok hc h₁
      have second := (hf a).error first.spelled h₂
      exact ⟨second.spelled, Nat.le_trans first.ids second.ids⟩

theorem bind_pure {p : Parser α} {f : α → β} (hp : Makes S Q p)
    (hf : ∀ lo hi a, Q lo hi a → R lo hi (f a)) : Makes S R (p >>= fun a => Pure.pure (f a)) :=
  hp.bind fun a => Makes.pure fun n start _ _ ha => hf start n a ha

theorem map {p : Parser α} {f : α → β} (hp : Makes S Q p)
    (hf : ∀ lo hi a, Q lo hi a → R lo hi (f a)) : Makes S R (f <$> p) := by
  rw [map_eq_pure_bind]
  exact hp.bind_pure hf

/-- A step that uses up no node number. -/
theorem still_bind {p : Parser α} {f : α → Parser β}
    (still : ∀ c, ∃ a c₁, p c = .ok a c₁ ∧ c₁.rest = c.rest ∧ c₁.nextId = c.nextId)
    (hf : ∀ a, Makes S R (f a)) : Makes S R (p >>= f) where
  ok := by
    intro c c' b hc h
    obtain ⟨a, c₁, h₁, h₂⟩ := bind_eq_ok.1 h
    obtain ⟨a', c₁', h', hrest, hid⟩ := still c
    obtain ⟨rfl, rfl⟩ : a = a' ∧ c₁ = c₁' := by simpa [h₁] using h'
    obtain ⟨advances, made⟩ := (hf a).ok (by rwa [Cursor.All, hrest]) h₂
    rw [hid] at made
    exact ⟨⟨advances.spelled, hid ▸ advances.ids⟩, made⟩
  error := by
    intro c c' x hc h
    obtain ⟨a', c₁', h', hrest, hid⟩ := still c
    rcases bind_eq_error.1 h with h | ⟨a, c₁, h₁, h₂⟩
    · simp [h'] at h
    · obtain ⟨rfl, rfl⟩ : a = a' ∧ c₁ = c₁' := by simpa [h₁] using h'
      have advances := (hf a).error (by rwa [Cursor.All, hrest]) h₂
      exact ⟨advances.spelled, hid ▸ advances.ids⟩

theorem check_bind {kind : TokenKind} {f : Bool → Parser β} (hf : ∀ b, Makes S R (f b)) :
    Makes S R (check kind >>= f) :=
  still_bind (fun c => ⟨_, c, rfl, rfl, rfl⟩) hf

theorem atEnd_bind {f : Bool → Parser β} (hf : ∀ b, Makes S R (f b)) : Makes S R (atEnd >>= f) :=
  still_bind (fun c => ⟨_, c, rfl, rfl, rfl⟩) hf

theorem peek_bind {f : Token → Parser β} (hf : ∀ t, Makes S R (f t)) : Makes S R (peek >>= f) :=
  still_bind (fun c => ⟨_, c, rfl, rfl, rfl⟩) hf

theorem get_bind {f : Cursor → Parser β} (hf : ∀ c, Makes S R (f c)) : Makes S R (get >>= f) :=
  still_bind (fun c => ⟨_, c, rfl, rfl, rfl⟩) hf

theorem report_bind {t : Token} {fault : GrammarFault} {f : Unit → Parser β}
    (hf : Makes S R (f ())) : Makes S R (report t fault >>= f) :=
  still_bind (fun c => ⟨(), { c with faults := c.faults.push (.grammar t fault) }, rfl, rfl, rfl⟩)
    fun _ => hf

theorem freshId_bind {f : Nat → Parser β}
    (hf : ∀ n, Makes S (fun lo hi b => lo = n + 1 → lo ≤ hi → R n hi b) (f n)) :
    Makes S R (freshId >>= f) := by
  have fresh : Makes S (fun lo hi n => n = lo ∧ hi = lo + 1) freshId := by
    constructor
    · rintro c c' n hc h
      cases h
      exact ⟨⟨hc, Nat.le_succ _⟩, rfl, rfl⟩
    · rintro c c' x - h
      cases h
  refine fresh.bind fun n => (hf n).mono ?_
  rintro lo hi b hle h start - - ⟨rfl, rfl⟩
  exact h rfl hle

theorem acceptAny?_bind {kinds : List TokenKind} {f : Option Token → Parser β}
    (yes : ∀ t, t.kind ∈ kinds → S t → Makes S R (f (some t))) (no : Makes S R (f none)) :
    Makes S R (acceptAny? kinds >>= f) where
  ok := by
    intro c c' b hc h
    obtain ⟨a, c₁, h₁, h₂⟩ := bind_eq_ok.1 h
    rcases acceptAny?_cases kinds c with ⟨t, rest, e, mem, h'⟩ | ⟨-, h'⟩
    · obtain ⟨rfl, rfl⟩ : a = some t ∧ c₁ = { c with rest } := by simpa [h₁] using h'
      have spelled : ∀ u ∈ t :: rest, S u := e ▸ hc
      obtain ⟨advances, made⟩ := (yes t mem (spelled t List.mem_cons_self)).ok
        (c := { c with rest }) (fun u hu => spelled u (List.mem_cons_of_mem t hu)) h₂
      exact ⟨⟨advances.spelled, advances.ids⟩, made⟩
    · obtain ⟨rfl, rfl⟩ : a = none ∧ c₁ = c := by simpa [h₁] using h'
      exact no.ok hc h₂
  error := by
    intro c c' x hc h
    rcases acceptAny?_cases kinds c with ⟨t, rest, e, mem, h'⟩ | ⟨-, h'⟩
    · rcases bind_eq_error.1 h with h | ⟨a, c₁, h₁, h₂⟩
      · simp [h'] at h
      obtain ⟨rfl, rfl⟩ : a = some t ∧ c₁ = { c with rest } := by simpa [h₁] using h'
      have spelled : ∀ u ∈ t :: rest, S u := e ▸ hc
      have advances := (yes t mem (spelled t List.mem_cons_self)).error
        (c := { c with rest }) (fun u hu => spelled u (List.mem_cons_of_mem t hu)) h₂
      exact ⟨advances.spelled, advances.ids⟩
    · rcases bind_eq_error.1 h with h | ⟨a, c₁, h₁, h₂⟩
      · simp [h'] at h
      obtain ⟨rfl, rfl⟩ : a = none ∧ c₁ = c := by simpa [h₁] using h'
      exact no.error hc h₂

theorem accept?_bind {kind : TokenKind} {f : Option Token → Parser β}
    (yes : ∀ t, t.kind = kind → S t → Makes S R (f (some t))) (no : Makes S R (f none)) :
    Makes S R (accept? kind >>= f) :=
  acceptAny?_bind (fun t ht => yes t (by simpa using ht)) no

theorem accept_bind {kind : TokenKind} {f : Bool → Parser β} (hf : ∀ b, Makes S R (f b)) :
    Makes S R (accept kind >>= f) := by
  rw [accept, bind_assoc]
  refine accept?_bind (fun t _ _ => ?_) ?_
  · simpa using hf true
  · simpa using hf false

theorem exhausted : Makes S Q (exhausted : Parser α) where
  ok := by
    rintro c c' a - h
    cases h
  error := by
    rintro c c' x hc h
    cases h
    exact ⟨hc, Nat.le_refl _⟩

theorem fail {fault : GrammarFault} : Makes S Q (fail fault : Parser α) where
  ok := by
    rintro c c' a - h
    cases h
  error := by
    rintro c c' x hc h
    cases h
    exact ⟨hc, Nat.le_refl _⟩

theorem expect_bind {kind : TokenKind} {what : Expected} {f : Token → Parser β}
    (yes : ∀ t, t.kind = kind → S t → Makes S R (f t)) :
    Makes S R (expect kind what >>= f) := by
  rw [expect, bind_assoc]
  refine accept?_bind (fun t ht spelled => by simpa using yes t ht spelled) ?_
  exact Makes.fail

/-- What is made before a fault is lost, but not its node numbers. -/
protected theorem recovering {p : Parser α} (h : Makes S Q p) :
    Makes S (fun lo hi a => ∀ b ∈ a, Q lo hi b) (recovering p) where
  ok := by
    intro c c' a hc hp
    unfold Parser.recovering at hp
    split at hp
    · rename_i b c₁ hstep
      cases hp
      obtain ⟨advances, made⟩ := h.ok hc hstep
      exact ⟨advances, by simpa using made⟩
    · rename_i x c₁ hstep
      cases hp
      have advances := h.error hc hstep
      obtain ⟨dropped, hdropped⟩ := synchronize_suffix c₁.rest
      refine ⟨⟨fun t ht => advances.spelled t ?_, advances.ids⟩, by simp⟩
      rw [hdropped]
      exact List.mem_append_right _ ht
    · cases hp
  error := by
    intro c c' x hc hp
    unfold Parser.recovering at hp
    split at hp
    · cases hp
    · cases hp
    · rename_i c₁ hstep
      cases hp
      exact h.error hc hstep

end Makes

/-! ## Expressions -/

theorem Level.references_join (level : Level) (l r : Expr) (op : Token) :
    (level.join l op r).references = l.references ++ r.references := by
  cases level <;> simp [Level.join]

/-- The step makes an expression. -/
abbrev MakesExpr (S : Token → Prop) (P : Reference → Prop) (p : Parser Expr) : Prop :=
  Makes S (fun lo hi e => NumberedBy P lo hi e.references) p

/-- The step goes on with an expression that is there already. -/
abbrev MakesFrom (S : Token → Prop) (P : Reference → Prop) (left : Expr) (p : Parser Expr) : Prop :=
  Makes S (fun lo hi e => ∀ start, start ≤ lo → NumberedBy P start lo left.references →
    NumberedBy P start hi e.references) p

theorem MakesFrom.done (left : Expr) : MakesFrom S P left (pure left) :=
  Makes.pure fun _ _ _ h => h

/-- The functions for expressions, under some fuel. -/
structure ExpressionsMade (S : Token → Prop) (P : Reference → Prop) (fuel : Nat) : Prop where
  assignment : MakesExpr S P (assignment fuel)
  binary : ∀ level, MakesExpr S P (binary fuel level)
  binaryRest : ∀ level left, MakesFrom S P left (binaryRest fuel level left)
  operand : ∀ level, MakesExpr S P (operand fuel level)
  unary : MakesExpr S P (unary fuel)
  callRest : ∀ head, MakesFrom S P head (callRest fuel head)
  arguments : ∀ count,
    Makes S (fun lo hi es => NumberedBy P lo hi (Expr.referencesAll es)) (arguments fuel count)
  primary : MakesExpr S P (primary fuel)

theorem assignment_made (g : Token.Grounds S N P) {fuel : Nat} (ih : ExpressionsMade S P fuel) :
    MakesExpr S P (assignment (fuel + 1)) := by
  rw [Parser.assignment]
  refine (ih.binary .or).bind fun target => ?_
  refine Makes.accept?_bind (fun equal _ _ => ?_) ?_
  · refine ih.assignment.bind fun value => ?_
    cases target with
    | name id token =>
      refine Makes.freshId_bind fun n => Makes.pure ?_
      rintro m rfl - mid hmid - hvalue start hstart hle htarget
      have spelled := htarget.spelled ⟨.name, id, token⟩ (by simp)
      have target : NumberedBy P n (n + 1) [⟨.assign, n, token⟩] :=
        .single (Nat.le_refl n) (Nat.lt_succ_self n) (g.assigns spelled n)
      have both := hvalue.append target (by omega) (by omega) (by omega)
      have whole := both.perm List.perm_append_comm
      exact whole.mono hstart (Nat.le_refl _)
    | get object property =>
      refine Makes.pure fun m mid hmid _ hvalue start hstart hle htarget => ?_
      rw [Expr.references_set]
      exact htarget.append hvalue hstart (Nat.le_refl _) hmid
    | _ =>
      refine Makes.report_bind (Makes.pure fun m mid hmid _ _ start hstart hle htarget => ?_)
      exact htarget.mono (Nat.le_refl _) hmid
  · exact Makes.pure fun m start _ _ htarget => htarget

theorem binary_made {fuel : Nat} (ih : ExpressionsMade S P fuel) (level : Level) :
    MakesExpr S P (binary (fuel + 1) level) := by
  rw [Parser.binary]
  refine (ih.operand level).bind fun left => (ih.binaryRest level left).mono ?_
  intro lo hi e hle h start hstart _ hleft
  exact h start hstart hleft

theorem binaryRest_made {fuel : Nat} (ih : ExpressionsMade S P fuel) (level : Level) (left : Expr) :
    MakesFrom S P left (binaryRest (fuel + 1) level left) := by
  rw [Parser.binaryRest]
  refine Makes.acceptAny?_bind (fun op _ _ => ?_) (MakesFrom.done left)
  refine (ih.operand level).bind fun right => (ih.binaryRest level _).mono ?_
  intro lo hi e hle h mid hmid _ hright start hstart hleft
  refine h start (by omega) ?_
  rw [Level.references_join]
  exact hleft.append hright hstart (Nat.le_refl _) hmid

theorem operand_made {fuel : Nat} (ih : ExpressionsMade S P fuel) (level : Level) :
    MakesExpr S P (operand (fuel + 1) level) := by
  rw [Parser.operand]
  cases level.tighter? with
  | some tighter => exact ih.binary tighter
  | none => exact ih.unary

theorem unary_made {fuel : Nat} (ih : ExpressionsMade S P fuel) :
    MakesExpr S P (unary (fuel + 1)) := by
  rw [Parser.unary]
  refine Makes.acceptAny?_bind (fun op _ _ => ?_) ?_
  · exact ih.unary.bind_pure fun lo hi e h => by simpa using h
  · refine ih.primary.bind fun head => (ih.callRest head).mono ?_
    intro lo hi e hle h start hstart _ hhead
    exact h start hstart hhead

theorem callRest_made {fuel : Nat} (ih : ExpressionsMade S P fuel) (head : Expr) :
    MakesFrom S P head (callRest (fuel + 1) head) := by
  rw [Parser.callRest]
  refine Makes.accept_bind fun parenthesis => ?_
  cases parenthesis with
  | true =>
    refine Makes.check_bind fun empty => ?_
    cases empty with
    | true =>
      refine Makes.expect_bind fun r _ _ => (ih.callRest _).mono ?_
      intro lo hi e hle h start hstart hhead
      exact h start hstart (by simpa using hhead)
    | false =>
      refine (ih.arguments 0).bind fun values => Makes.expect_bind fun r _ _ => ?_
      refine (ih.callRest _).mono ?_
      intro lo hi e hle h mid hmid _ hvalues start hstart hhead
      refine h start (by omega) ?_
      rw [Expr.references_call]
      exact hhead.append hvalues hstart (Nat.le_refl _) hmid
  | false =>
    refine Makes.accept_bind fun dot => ?_
    cases dot with
    | true =>
      refine Makes.expect_bind fun name _ _ => (ih.callRest _).mono ?_
      intro lo hi e hle h start hstart hhead
      exact h start hstart (by simpa using hhead)
    | false => exact MakesFrom.done head

theorem arguments_made {fuel : Nat} (ih : ExpressionsMade S P fuel) (count : Nat) :
    Makes S (fun lo hi es => NumberedBy P lo hi (Expr.referencesAll es))
      (arguments (fuel + 1) count) := by
  have after : Makes S (fun lo hi es => NumberedBy P lo hi (Expr.referencesAll es))
      (do
        let first ← assignment fuel
        if ← accept .comma then
          return first :: (← arguments fuel (count + 1))
        else
          return [first]) := by
    refine ih.assignment.bind fun first => Makes.accept_bind fun comma => ?_
    cases comma with
    | true =>
      refine (ih.arguments (count + 1)).bind fun others => Makes.pure ?_
      intro hi mid hmid _ hothers start hstart _ hfirst
      rw [Expr.referencesAll_cons]
      exact hfirst.append hothers hstart (Nat.le_refl _) hmid
    | false => exact Makes.pure fun m start _ _ hfirst => by simpa using hfirst
  rw [Parser.arguments]
  split
  · exact Makes.peek_bind fun t => Makes.report_bind after
  · exact after

theorem primary_made (g : Token.Grounds S N P) {fuel : Nat} (ih : ExpressionsMade S P fuel) :
    MakesExpr S P (primary (fuel + 1)) := by
  rw [Parser.primary]
  refine Makes.peek_bind fun t => ?_
  split
  · exact Makes.accept_bind fun _ => Makes.pure fun m => .nil
  · exact Makes.fail
  · refine Makes.accept?_bind (fun t ht spelled => ?_) (Makes.accept?_bind
      (fun t ht spelled => ?_) (Makes.accept?_bind (fun keyword hkeyword spelled => ?_)
        (Makes.accept_bind fun parenthesis => ?_)))
    · refine Makes.freshId_bind fun n => Makes.pure ?_
      rintro m rfl -
      exact .single (Nat.le_refl n) (Nat.lt_succ_self n) (g.this spelled ht n)
    · refine Makes.freshId_bind fun n => Makes.pure ?_
      rintro m rfl -
      exact .single (Nat.le_refl n) (Nat.lt_succ_self n) (g.reads spelled ht n)
    · refine Makes.expect_bind fun dot _ _ => Makes.expect_bind fun method _ _ => ?_
      refine Makes.freshId_bind fun n => Makes.pure ?_
      rintro m rfl -
      exact .single (Nat.le_refl n) (Nat.lt_succ_self n) (g.super spelled hkeyword n)
    · cases parenthesis with
      | true =>
        refine ih.assignment.bind fun inner => Makes.expect_bind fun r _ _ => ?_
        exact Makes.pure fun m start _ _ hinner => by simpa using hinner
      | false => exact Makes.fail

theorem expressionsMade (g : Token.Grounds S N P) (fuel : Nat) : ExpressionsMade S P fuel := by
  induction fuel with
  | zero =>
    exact ⟨.exhausted, fun _ => .exhausted, fun _ _ => .exhausted, fun _ => .exhausted,
      .exhausted, fun _ => .exhausted, fun _ => .exhausted, .exhausted⟩
  | succ fuel ih =>
    exact ⟨assignment_made g ih, binary_made ih, binaryRest_made ih, operand_made ih,
      unary_made ih, callRest_made ih, arguments_made ih, primary_made g ih⟩

theorem expression_made (g : Token.Grounds S N P) : MakesExpr S P expression :=
  Makes.get_bind fun _ => (expressionsMade g _).assignment

theorem expressionBefore?_made (g : Token.Grounds S N P) {closing : TokenKind} :
    Makes S (fun lo hi e => NumberedBy P lo hi (Expr.referencesOption e))
      (expressionBefore? closing) := by
  refine Makes.check_bind fun closed => ?_
  cases closed with
  | true => exact Makes.pure fun _ => .nil
  | false => exact (expression_made g).bind_pure fun lo hi e h => h

/-! ## Statements -/

/-- The step makes a statement. -/
abbrev MakesStmt (S N : Token → Prop) (P : Reference → Prop) (p : Parser Stmt) : Prop :=
  Makes S (fun lo hi s => NumberedBy P lo hi s.references ∧ s.FormedBy N) p

/-- The step makes a statement that declares nothing. -/
abbrev MakesPlain (S N : Token → Prop) (P : Reference → Prop) (p : Parser Stmt) : Prop :=
  Makes S (fun lo hi s => NumberedBy P lo hi s.references ∧ s.FormedBy N ∧ s.declares? = none) p

theorem parametersFrom_made (g : Token.Grounds S N P) (fuel count : Nat) :
    Makes S (fun _ _ params => ∀ p ∈ params, N p) (parametersFrom fuel count) := by
  induction fuel generalizing count with
  | zero => exact .exhausted
  | succ fuel ih =>
    have after : Makes S (fun _ _ (params : List Token) => ∀ p ∈ params, N p)
        (do
          let first ← expect .identifier .parameterName
          if ← accept .comma then
            return first :: (← parametersFrom fuel (count + 1))
          else
            return [first]) := by
      refine Makes.expect_bind fun first hfirst spelled => Makes.accept_bind fun comma => ?_
      cases comma with
      | true =>
        refine (ih (count + 1)).bind_pure fun lo hi params h => ?_
        exact List.forall_mem_cons.2 ⟨g.name spelled hfirst, h⟩
      | false => exact Makes.pure fun _ => by simpa using g.name spelled hfirst
    rw [parametersFrom]
    split
    · exact Makes.peek_bind fun t => Makes.report_bind after
    · exact after

theorem parameters_made (g : Token.Grounds S N P) :
    Makes S (fun _ _ params => ∀ p ∈ params, N p) parameters := by
  refine Makes.check_bind fun empty => ?_
  cases empty with
  | true => exact Makes.pure fun _ => by simp
  | false => exact Makes.get_bind fun _ => parametersFrom_made g _ 0

theorem variableDeclaration_made (g : Token.Grounds S N P) : MakesStmt S N P variableDeclaration := by
  refine Makes.expect_bind fun name hname spelled => Makes.accept_bind fun equal => ?_
  cases equal with
  | true =>
    have value : Makes S (fun lo hi e => NumberedBy P lo hi (Expr.referencesOption e))
        (some <$> expression) := (expression_made g).map fun lo hi e h => h
    refine value.bind fun e => Makes.expect_bind fun semicolon _ _ => ?_
    refine Makes.pure fun m start _ _ he => ⟨?_, g.name spelled hname⟩
    rwa [Stmt.references_varDecl]
  | false =>
    refine Makes.expect_bind fun semicolon _ _ => Makes.pure fun m => ?_
    exact ⟨.nil, g.name spelled hname⟩

theorem expressionStatement_made (g : Token.Grounds S N P) : MakesPlain S N P expressionStatement := by
  refine (expression_made g).bind fun e => Makes.expect_bind fun semicolon _ _ => ?_
  exact Makes.pure fun m start _ _ he => ⟨he, trivial, rfl⟩

theorem printStatement_made (g : Token.Grounds S N P) : MakesPlain S N P printStatement := by
  refine (expression_made g).bind fun e => Makes.expect_bind fun semicolon _ _ => ?_
  exact Makes.pure fun m start _ _ he => ⟨he, trivial, rfl⟩

theorem returnStatement_made (g : Token.Grounds S N P) (keyword : Token) :
    MakesPlain S N P (returnStatement keyword) := by
  refine (expressionBefore?_made g).bind fun e => Makes.expect_bind fun semicolon _ _ => ?_
  exact Makes.pure fun m start _ _ he => ⟨he, trivial, rfl⟩

theorem forInitializer_made (g : Token.Grounds S N P) :
    Makes S (fun lo hi (s : Option Stmt) => NumberedBy P lo hi ((s.map Stmt.references).getD []) ∧
      ∀ u ∈ s, u.FormedBy N) forInitializer := by
  refine Makes.accept_bind fun semicolon => ?_
  cases semicolon with
  | true => exact Makes.pure fun _ => ⟨.nil, by simp⟩
  | false =>
    refine Makes.accept_bind fun keyword => ?_
    cases keyword with
    | true =>
      refine (variableDeclaration_made g).bind_pure fun lo hi s h => ⟨h.1, ?_⟩
      rintro u ⟨⟩
      exact h.2
    | false =>
      refine (expressionStatement_made g).bind_pure fun lo hi s h => ⟨h.1, ?_⟩
      rintro u ⟨⟩
      exact h.2.1

/-- The functions for declarations and statements, under some fuel. -/
structure StatementsMade (S N : Token → Prop) (P : Reference → Prop) (fuel : Nat) : Prop where
  declaration : Makes S (fun lo hi a => ∀ s ∈ a, NumberedBy P lo hi s.references ∧ s.FormedBy N)
    (declaration fuel)
  classDeclaration : MakesStmt S N P (classDeclaration fuel)
  methods : Makes S (fun lo hi fs => NumberedBy P lo hi (FunctionDecl.referencesAll fs) ∧
    FunctionDecl.FormedByAll N fs) (methods fuel)
  function : ∀ role, Makes S (fun lo hi f => NumberedBy P lo hi f.references ∧ f.FormedBy N)
    (function fuel role)
  block : Makes S (fun lo hi ss => NumberedBy P lo hi (references ss) ∧ Stmt.FormedByAll N ss)
    (block fuel)
  declarations : Makes S (fun lo hi ss => NumberedBy P lo hi (references ss) ∧ Stmt.FormedByAll N ss)
    (declarations fuel)
  statement : MakesPlain S N P (statement fuel)

theorem declaration_made (g : Token.Grounds S N P) {fuel : Nat} (ih : StatementsMade S N P fuel) :
    Makes S (fun lo hi a => ∀ s ∈ a, NumberedBy P lo hi s.references ∧ s.FormedBy N)
      (declaration (fuel + 1)) := by
  rw [Parser.declaration]
  refine Makes.recovering (Makes.accept_bind fun ofClass => ?_)
  cases ofClass with
  | true => exact ih.classDeclaration
  | false =>
    refine Makes.accept_bind fun ofFunction => ?_
    cases ofFunction with
    | true => exact (ih.function _).bind_pure fun lo hi f h => h
    | false =>
      refine Makes.accept_bind fun ofVariable => ?_
      cases ofVariable with
      | true => exact variableDeclaration_made g
      | false => exact ih.statement.mono fun lo hi s _ h => ⟨h.1, h.2.1⟩

theorem classDeclaration_made (g : Token.Grounds S N P) {fuel : Nat} (ih : StatementsMade S N P fuel) :
    MakesStmt S N P (classDeclaration (fuel + 1)) := by
  rw [Parser.classDeclaration]
  refine Makes.expect_bind fun name hname spelled => Makes.accept_bind fun less => ?_
  cases less with
  | true =>
    refine Makes.expect_bind fun parent hparent named => Makes.freshId_bind fun n => ?_
    refine Makes.expect_bind fun l _ _ => ih.methods.bind fun members => ?_
    refine Makes.expect_bind fun r _ _ => Makes.pure ?_
    rintro m lo hle - ⟨hmembers, formed⟩ rfl -
    have superclass : NumberedBy P n (n + 1) (Expr.referencesOption (some (.name n parent))) :=
      .single (Nat.le_refl n) (Nat.lt_succ_self n) (g.reads named hparent n)
    refine ⟨?_, g.name spelled hname, ?_, formed⟩
    · rw [Stmt.references_classDecl]
      exact superclass.append hmembers (Nat.le_succ n) (Nat.le_refl _) hle
    · rintro e ⟨⟩
      exact ⟨n, parent, rfl⟩
  | false =>
    refine Makes.expect_bind fun l _ _ => ih.methods.bind fun members => ?_
    refine Makes.expect_bind fun r _ _ => Makes.pure ?_
    rintro m lo - - ⟨hmembers, formed⟩
    exact ⟨by simpa using hmembers, g.name spelled hname, by simp, formed⟩

theorem methods_made {fuel : Nat} (ih : StatementsMade S N P fuel) :
    Makes S (fun lo hi fs => NumberedBy P lo hi (FunctionDecl.referencesAll fs) ∧
      FunctionDecl.FormedByAll N fs) (methods (fuel + 1)) := by
  rw [Parser.methods]
  refine Makes.check_bind fun closed => Makes.atEnd_bind fun ended => ?_
  split
  · exact Makes.pure fun _ => ⟨.nil, trivial⟩
  · refine (ih.function _).bind fun first => ih.methods.bind_pure ?_
    rintro lo hi fs ⟨hfs, formed⟩ start hstart hle ⟨hfirst, formed'⟩
    refine ⟨?_, formed', formed⟩
    rw [FunctionDecl.referencesAll_cons]
    exact hfirst.append hfs hstart (Nat.le_refl _) hle

theorem function_made (g : Token.Grounds S N P) {fuel : Nat} (ih : StatementsMade S N P fuel)
    (role : FunctionRole) :
    Makes S (fun lo hi f => NumberedBy P lo hi f.references ∧ f.FormedBy N)
      (function (fuel + 1) role) := by
  rw [Parser.function]
  refine Makes.expect_bind fun name hname spelled => Makes.expect_bind fun l _ _ => ?_
  refine (parameters_made g).bind fun params => Makes.expect_bind fun r _ _ => ?_
  refine Makes.expect_bind fun brace _ _ => ih.block.bind_pure ?_
  rintro lo hi body ⟨hbody, formed⟩ start hstart hle hparams
  exact ⟨hbody.mono hstart (Nat.le_refl _), g.name spelled hname, hparams, formed⟩

theorem block_made {fuel : Nat} (ih : StatementsMade S N P fuel) :
    Makes S (fun lo hi ss => NumberedBy P lo hi (references ss) ∧ Stmt.FormedByAll N ss)
      (block (fuel + 1)) := by
  rw [Parser.block]
  refine ih.declarations.bind fun body => Makes.expect_bind fun r _ _ => ?_
  exact Makes.pure fun m start _ _ h => h

/-- A declaration, if there is one, in front of others. -/
theorem declarations_step {lo mid mid' hi : Nat} {first : Option Stmt} {ss : List Stmt}
    (hfirst : ∀ s ∈ first, NumberedBy P lo mid s.references ∧ s.FormedBy N)
    (hss : NumberedBy P mid' hi (references ss) ∧ Stmt.FormedByAll N ss) (hlo : lo ≤ mid')
    (hmid : mid ≤ mid') (hle : mid' ≤ hi) :
    NumberedBy P lo hi (references (first.toList ++ ss)) ∧
      Stmt.FormedByAll N (first.toList ++ ss) := by
  cases first with
  | none => exact ⟨hss.1.mono hlo (Nat.le_refl _), hss.2⟩
  | some s =>
    obtain ⟨numbered, formed⟩ := hfirst s rfl
    refine ⟨?_, formed, hss.2⟩
    simpa using numbered.append hss.1 hlo hmid (by omega)

theorem declarations_made {fuel : Nat} (ih : StatementsMade S N P fuel) :
    Makes S (fun lo hi ss => NumberedBy P lo hi (references ss) ∧ Stmt.FormedByAll N ss)
      (declarations (fuel + 1)) := by
  rw [Parser.declarations]
  refine Makes.check_bind fun closed => Makes.atEnd_bind fun ended => ?_
  split
  · exact Makes.pure fun _ => ⟨.nil, trivial⟩
  · refine ih.declaration.bind fun first => ih.declarations.bind fun ss => Makes.pure ?_
    intro m mid hmid _ hss start hstart _ hfirst
    exact declarations_step hfirst hss hstart (Nat.le_refl _) hmid

/-- The body of a loop is a statement, which declares nothing. -/
theorem forLoop_made (g : Token.Grounds S N P) {fuel : Nat} (ih : StatementsMade S N P fuel) :
    Makes S (fun lo hi (l : ForLoop) => NumberedBy P lo hi l.statement.references ∧
      l.statement.FormedBy N ∧ l.statement.declares? = none ∧ l.body.declares? = none)
      (forLoop fuel) := by
  refine Makes.expect_bind fun l _ _ => (forInitializer_made g).bind fun first => ?_
  refine (expressionBefore?_made g).bind fun condition => Makes.expect_bind fun semicolon _ _ => ?_
  refine (expressionBefore?_made g).bind fun increment => Makes.expect_bind fun r _ _ => ?_
  refine ih.statement.bind fun body => Makes.pure ?_
  rintro n₄ n₃ h₃ - ⟨hbody, formed, plain⟩ n₂ h₂ - hincrement n₁ h₁ - hcondition n₀ h₀ -
    ⟨hfirst, formed'⟩
  have tail := hincrement.append hbody h₂ (Nat.le_refl _) h₃
  have clauses := hcondition.append tail h₁ (Nat.le_refl _) (by omega)
  have whole := hfirst.append clauses h₀ (Nat.le_refl _) (by omega)
  obtain ⟨forms, declares⟩ := Stmt.formedBy_forLoop formed' formed plain
  exact ⟨whole.perm (Stmt.references_forLoop first condition increment body), forms, declares, plain⟩

theorem statement_made (g : Token.Grounds S N P) {fuel : Nat} (ih : StatementsMade S N P fuel) :
    MakesPlain S N P (statement (fuel + 1)) := by
  rw [Parser.statement]
  refine Makes.accept_bind fun ofFor => ?_
  split
  · rw [← map_forLoop]
    refine (forLoop_made g ih).map ?_
    rintro lo hi l ⟨numbered, formed, declares, -⟩
    exact ⟨numbered, formed, declares⟩
  refine Makes.accept_bind fun ofIf => ?_
  split
  · refine Makes.expect_bind fun l _ _ => (expression_made g).bind fun condition => ?_
    refine Makes.expect_bind fun r _ _ => ih.statement.bind fun thenBranch => ?_
    refine Makes.accept_bind fun ofElse => ?_
    split
    · refine ih.statement.bind fun elseBranch => Makes.pure ?_
      rintro n₃ n₂ h₂ - ⟨helse, formed', plain'⟩ n₁ h₁ - ⟨hthen, formed, plain⟩ n₀ h₀ - hcondition
      have first := hcondition.append hthen h₀ (Nat.le_refl _) h₁
      have both := first.append helse (by omega) (Nat.le_refl _) h₂
      refine ⟨by simpa using both, ⟨⟨formed, plain⟩, formed', plain'⟩, rfl⟩
    · refine Makes.pure ?_
      rintro n₂ n₁ h₁ - ⟨hthen, formed, plain⟩ n₀ h₀ - hcondition
      have both := hcondition.append hthen h₀ (Nat.le_refl _) h₁
      exact ⟨by simpa using both, ⟨formed, plain⟩, rfl⟩
  refine Makes.accept_bind fun ofPrint => ?_
  split
  · exact printStatement_made g
  refine Makes.accept?_bind (fun keyword _ _ => returnStatement_made g keyword) ?_
  refine Makes.accept_bind fun ofWhile => ?_
  split
  · refine Makes.expect_bind fun l _ _ => (expression_made g).bind fun condition => ?_
    refine Makes.expect_bind fun r _ _ => ih.statement.bind fun body => Makes.pure ?_
    rintro n₂ n₁ h₁ - ⟨hbody, formed, plain⟩ n₀ h₀ - hcondition
    have both := hcondition.append hbody h₀ (Nat.le_refl _) h₁
    exact ⟨by simpa using both, ⟨formed, plain⟩, rfl⟩
  refine Makes.accept_bind fun ofBlock => ?_
  split
  · exact ih.block.bind_pure fun lo hi ss h => ⟨by simpa using h.1, h.2, rfl⟩
  · exact expressionStatement_made g

theorem statementsMade (g : Token.Grounds S N P) (fuel : Nat) : StatementsMade S N P fuel := by
  induction fuel with
  | zero =>
    exact ⟨.exhausted, .exhausted, .exhausted, fun _ => .exhausted, .exhausted, .exhausted,
      .exhausted⟩
  | succ fuel ih =>
    exact ⟨declaration_made g ih, classDeclaration_made g ih, methods_made ih, function_made g ih,
      block_made ih, declarations_made ih, statement_made g ih⟩

theorem program_made (g : Token.Grounds S N P) (fuel : Nat) :
    Makes S (fun lo hi ss => NumberedBy P lo hi (references ss) ∧ Stmt.FormedByAll N ss)
      (program fuel) := by
  induction fuel with
  | zero => exact .exhausted
  | succ fuel ih =>
    rw [Parser.program]
    refine Makes.atEnd_bind fun ended => ?_
    split
    · exact Makes.pure fun _ => ⟨.nil, trivial⟩
    · refine (statementsMade g fuel).declaration.bind fun first => ih.bind fun ss => Makes.pure ?_
      intro m mid hmid _ hss start hstart _ hfirst
      exact declarations_step hfirst hss hstart (Nat.le_refl _) hmid

end Parser

/-! ## Programs -/

/-- Reading uses up node numbers, whatever comes of it, and what it returns is numbered with those that
it used up; its names and references are made from the tokens. -/
theorem parse_grounded {S N : Token → Prop} {P : Reference → Prop} (g : Token.Grounds S N P)
    {tokens : List Token} (all : ∀ t ∈ tokens, S t) (firstId : Nat) :
    firstId ≤ (parse tokens firstId).nextId ∧
    ∀ statements, (parse tokens firstId).outcome = .program statements →
      NumberedBy P firstId (parse tokens firstId).nextId (references statements) ∧
      Stmt.FormedByAll N statements := by
  have start : (Cursor.start tokens firstId).All S := fun t ht =>
    all t ((List.takeWhile_prefix _).subset ht)
  have made := Parser.program_made g (Parser.programFuel (Cursor.start tokens firstId).rest.length)
  unfold parse
  dsimp only
  split
  · rename_i ss c run
    obtain ⟨advances, h⟩ := made.ok start run
    refine ⟨advances.ids, fun statements returned => ?_⟩
    split at returned
    · cases returned
      exact h
    · cases returned
  · rename_i x c run
    exact ⟨(made.error start run).ids, nofun⟩
  · rename_i c run
    exact ⟨(made.error start run).ids, nofun⟩

/-- What is read from the tokens of a source is well formed. -/
theorem parse_made {tokens : List Token} (spelled : ∀ t ∈ tokens, t.Spelled) (firstId : Nat) :
    firstId ≤ (parse tokens firstId).nextId ∧
    ∀ statements, (parse tokens firstId).outcome = .program statements →
      Numbered firstId (parse tokens firstId).nextId (references statements) ∧
      Stmt.WellFormedAll statements :=
  parse_grounded Token.grounds_spelled spelled firstId

end ClassScript
