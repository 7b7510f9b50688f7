import ClassScript.Proofs.Grammar.Reading

set_option autoImplicit false

/-!
# Reading always comes to an end

The fuel that reading starts with is never used up, whatever the tokens are.  Between two tokens the
functions call each other only a bounded number of times, and whatever goes on after a fault has
dropped a token.  So for every function there is an amount of fuel, linear in the number of tokens
that are left, with which it ends.
-/

namespace ClassScript.Parser

variable {α β : Type}

/-! ## Steps that end -/

/-- Started in `c`, the step ends with no more than `left` tokens left, or with a fault. -/
def Ends (p : Parser α) (c : Cursor) (left : Nat) : Prop :=
  match p c with
  | .ok _ c' => c'.rest.length ≤ left
  | .error (.fault _) c' => c'.rest.length ≤ c.rest.length
  | .error .exhausted _ => False

namespace Ends

variable {c : Cursor} {left few : Nat}

protected theorem pure {a : α} (h : c.rest.length ≤ left) : Ends (pure a) c left := h

theorem fail {fault : GrammarFault} : Ends (fail fault : Parser α) c left :=
  Nat.le_refl c.rest.length

/-- A step that ends is followed by one that ends with the tokens that it left. -/
protected theorem bind {p : Parser α} {f : α → Parser β} (hp : Ends p c few)
    (fewer : few ≤ c.rest.length)
    (hf : ∀ a c', c'.rest.length ≤ few → Ends (f a) c' left) : Ends (p >>= f) c left := by
  unfold Ends at hp
  split at hp
  · rename_i a c₁ first
    have second := hf a c₁ hp
    unfold Ends at second ⊢
    rw [bind_of_ok first]
    split
    · rename_i b c₂ ran
      rwa [ran] at second
    · rename_i x c₂ ran
      rw [ran] at second
      exact Nat.le_trans second (Nat.le_trans hp fewer)
    · rename_i c₂ ran
      rwa [ran] at second
  · rename_i x c₁ first
    unfold Ends
    rw [bind_eq_error.2 (.inl first)]
    exact hp
  · exact hp.elim

theorem bind_pure {p : Parser α} {f : α → β} (hp : Ends p c left)
    (fewer : left ≤ c.rest.length) : Ends (p >>= fun a => Pure.pure (f a)) c left :=
  hp.bind fewer fun _ _ h => Ends.pure h

theorem map {p : Parser α} {f : α → β} (hp : Ends p c left) (fewer : left ≤ c.rest.length) :
    Ends (f <$> p) c left := by
  rw [map_eq_pure_bind]
  exact hp.bind_pure fewer

theorem mono {p : Parser α} (hp : Ends p c few) (more : few ≤ left) : Ends p c left := by
  unfold Ends at hp ⊢
  split at hp
  · exact Nat.le_trans hp more
  · exact hp
  · exact hp

/-- A step that leaves the tokens alone. -/
theorem still_bind {p : Parser α} {f : α → Parser β} {a : α} {d : Cursor} (still : p c = .ok a d)
    (same : d.rest = c.rest) (hf : Ends (f a) d left) : Ends (p >>= f) c left := by
  unfold Ends at hf ⊢
  rw [bind_of_ok still]
  rwa [same] at hf

theorem check_bind {kind : TokenKind} {f : Bool → Parser β} (hf : ∀ b, Ends (f b) c left) :
    Ends (check kind >>= f) c left :=
  still_bind rfl rfl (hf _)

theorem peek_bind {f : Token → Parser β} (hf : Ends (f (c.rest.head?.getD c.closing)) c left) :
    Ends (peek >>= f) c left :=
  still_bind rfl rfl hf

theorem get_bind {f : Cursor → Parser β} (hf : Ends (f c) c left) : Ends (get >>= f) c left :=
  still_bind rfl rfl hf

/-- At the end there is nothing left, and before it there is something. -/
theorem atEnd_bind {f : Bool → Parser β} (ended : c.rest.length = 0 → Ends (f true) c left)
    (more : 0 < c.rest.length → Ends (f false) c left) : Ends (atEnd >>= f) c left := by
  refine still_bind (a := c.rest.isEmpty) rfl rfl ?_
  cases rest : c.rest with
  | nil => exact ended (congrArg List.length rest)
  | cons t ts => exact more (rest ▸ Nat.succ_pos _)

theorem report_bind {t : Token} {fault : GrammarFault} {f : Unit → Parser β}
    (hf : ∀ c', c'.rest = c.rest → Ends (f ()) c' left) : Ends (report t fault >>= f) c left :=
  still_bind (d := { c with faults := c.faults.push (.grammar t fault) }) rfl rfl (hf _ rfl)

theorem freshId_bind {f : Nat → Parser β} (hf : ∀ n c', c'.rest = c.rest → Ends (f n) c' left) :
    Ends (freshId >>= f) c left :=
  still_bind (d := { c with nextId := c.nextId + 1 }) rfl rfl (hf _ _ rfl)

/-- If a token is taken, there is one fewer. -/
theorem acceptAny?_bind_of_stops {kinds : List TokenKind} {f : Option Token → Parser β}
    (yes : ∀ t c', c'.rest.length + 1 = c.rest.length → Ends (f (some t)) c' left)
    (no : Stops kinds c.rest → Ends (f none) c left) : Ends (acceptAny? kinds >>= f) c left := by
  rcases acceptAny?_cases kinds c with ⟨t, rest, same, -, taken⟩ | ⟨stops, skipped⟩
  · have fewer : rest.length + 1 = c.rest.length := by rw [same, List.length_cons]
    have second := yes t { c with rest } fewer
    unfold Ends at second ⊢
    rw [bind_of_ok taken]
    split
    · rename_i ran
      rwa [ran] at second
    · rename_i ran
      rw [ran] at second
      dsimp only at second
      omega
    · rename_i ran
      rwa [ran] at second
  · exact still_bind skipped rfl (no stops)

theorem acceptAny?_bind {kinds : List TokenKind} {f : Option Token → Parser β}
    (yes : ∀ t c', c'.rest.length + 1 = c.rest.length → Ends (f (some t)) c' left)
    (no : Ends (f none) c left) : Ends (acceptAny? kinds >>= f) c left :=
  acceptAny?_bind_of_stops yes fun _ => no

theorem accept?_bind {kind : TokenKind} {f : Option Token → Parser β}
    (yes : ∀ t c', c'.rest.length + 1 = c.rest.length → Ends (f (some t)) c' left)
    (no : Ends (f none) c left) : Ends (accept? kind >>= f) c left :=
  acceptAny?_bind yes no

theorem accept_bind {kind : TokenKind} {f : Bool → Parser β}
    (yes : ∀ c', c'.rest.length + 1 = c.rest.length → Ends (f true) c' left)
    (no : Ends (f false) c left) : Ends (accept kind >>= f) c left := by
  rw [accept, bind_assoc]
  refine accept?_bind (fun t c' fewer => ?_) ?_
  · simpa using yes c' fewer
  · simpa using no

/-- The token that was looked at can be taken, and without one there is none to be left. -/
theorem accept_next_bind {f : Bool → Parser β}
    (yes : ∀ b c', c'.rest.length ≤ c.rest.length - 1 → Ends (f b) c' left) :
    Ends (accept (c.rest.head?.getD c.closing).kind >>= f) c left := by
  rw [accept, accept?, bind_assoc]
  refine acceptAny?_bind_of_stops (fun t c' fewer => ?_) fun stops => ?_
  · simpa using yes true c' (by omega)
  · have none : c.rest = [] := by
      cases rest : c.rest with
      | nil => rfl
      | cons t ts => exact absurd (stops t (by rw [rest]; rfl)) (by simp [rest])
    simpa using yes false c (by simp [none])

theorem expect_bind {kind : TokenKind} {what : Expected} {f : Token → Parser β}
    (yes : ∀ t c', c'.rest.length + 1 = c.rest.length → Ends (f t) c' left) :
    Ends (expect kind what >>= f) c left := by
  rw [expect, bind_assoc]
  exact accept?_bind (fun t c' fewer => by simpa using yes t c' fewer) Ends.fail

/-- What goes on after a fault has dropped a token, unless there was none left. -/
protected theorem recovering {p : Parser α} (h : Ends p c (c.rest.length - 1)) :
    Ends (recovering p) c (c.rest.length - 1) := by
  unfold Ends at h ⊢
  unfold Parser.recovering
  cases ran : p c with
  | ok a c' =>
    rw [ran] at h
    exact h
  | error halt c' =>
    rw [ran] at h
    cases halt with
    | exhausted => exact h.elim
    | fault d =>
      change (synchronize c'.rest).length ≤ _
      cases rest : c'.rest with
      | nil => exact Nat.zero_le _
      | cons t ts =>
        obtain ⟨dropped, parts⟩ := dropToBoundary_suffix t ts
        have whole := congrArg List.length parts
        rw [List.length_append] at whole
        change c'.rest.length ≤ c.rest.length at h
        rw [rest, List.length_cons] at h
        change (dropToBoundary t ts).length ≤ _
        omega

end Ends

/-! ## Expressions -/

/-- How many levels there are below this one. -/
def Level.height : Level → Nat
  | .or => 5
  | .and => 4
  | .equality => 3
  | .comparison => 2
  | .term => 1
  | .factor => 0

theorem Level.height_tighter {level tighter : Level} (h : level.tighter? = some tighter) :
    tighter.height + 1 = level.height := by
  cases level <;> cases h <;> rfl

/-- The functions for expressions end under some fuel, if it is enough for the tokens left.  Each
needs sixteen calls for a token, and some more for the calls before it takes one. -/
structure ExpressionsEnd (fuel : Nat) : Prop where
  assignment : ∀ c : Cursor, 16 * c.rest.length + 16 ≤ fuel →
    Ends (assignment fuel) c (c.rest.length - 1)
  binary : ∀ level (c : Cursor), 16 * c.rest.length + 2 * level.height + 5 ≤ fuel →
    Ends (binary fuel level) c (c.rest.length - 1)
  binaryRest : ∀ level left (c : Cursor), 16 * c.rest.length + 1 ≤ fuel →
    Ends (binaryRest fuel level left) c c.rest.length
  operand : ∀ level (c : Cursor), 16 * c.rest.length + 2 * level.height + 4 ≤ fuel →
    Ends (operand fuel level) c (c.rest.length - 1)
  unary : ∀ c : Cursor, 16 * c.rest.length + 3 ≤ fuel → Ends (unary fuel) c (c.rest.length - 1)
  callRest : ∀ head (c : Cursor), 16 * c.rest.length + 2 ≤ fuel →
    Ends (callRest fuel head) c c.rest.length
  arguments : ∀ count (c : Cursor), 16 * c.rest.length + 17 ≤ fuel →
    Ends (arguments fuel count) c (c.rest.length - 1)
  primary : ∀ c : Cursor, 16 * c.rest.length + 1 ≤ fuel → Ends (primary fuel) c (c.rest.length - 1)

section Expressions

variable {fuel : Nat} (ih : ExpressionsEnd fuel) {c : Cursor}
include ih

theorem assignment_ends (enough : 16 * c.rest.length + 16 ≤ fuel + 1) :
    Ends (assignment (fuel + 1)) c (c.rest.length - 1) := by
  rw [Parser.assignment]
  refine (ih.binary .or c (by simp only [Level.height]; omega)).bind (Nat.sub_le ..) ?_
  intro target c₁ h₁
  refine Ends.accept?_bind (fun equal c₂ h₂ => ?_) (Ends.pure h₁)
  refine (ih.assignment c₂ (by omega)).bind (Nat.sub_le ..) fun value c₃ h₃ => ?_
  cases target with
  | name id token =>
    refine Ends.freshId_bind fun n c₄ h₄ => Ends.pure ?_
    rw [h₄]
    omega
  | get object property => exact Ends.pure (by omega)
  | _ =>
    refine Ends.report_bind fun c₄ h₄ => Ends.pure ?_
    rw [h₄]
    omega

theorem binary_ends (level : Level)
    (enough : 16 * c.rest.length + 2 * level.height + 5 ≤ fuel + 1) :
    Ends (binary (fuel + 1) level) c (c.rest.length - 1) := by
  rw [Parser.binary]
  refine (ih.operand level c (by omega)).bind (Nat.sub_le ..) fun left c₁ h₁ => ?_
  exact (ih.binaryRest level left c₁ (by omega)).mono h₁

theorem binaryRest_ends (level : Level) (left : Expr)
    (enough : 16 * c.rest.length + 1 ≤ fuel + 1) :
    Ends (binaryRest (fuel + 1) level left) c c.rest.length := by
  have height : level.height ≤ 5 := by cases level <;> decide
  rw [Parser.binaryRest]
  refine Ends.acceptAny?_bind (fun operator c₁ h₁ => ?_) (Ends.pure (Nat.le_refl _))
  refine (ih.operand level c₁ (by omega)).bind (Nat.sub_le ..) fun right c₂ h₂ => ?_
  exact (ih.binaryRest level _ c₂ (by omega)).mono (by omega)

theorem operand_ends (level : Level)
    (enough : 16 * c.rest.length + 2 * level.height + 4 ≤ fuel + 1) :
    Ends (operand (fuel + 1) level) c (c.rest.length - 1) := by
  rw [Parser.operand]
  cases next : level.tighter? with
  | some tighter =>
    have lower := Level.height_tighter next
    exact ih.binary tighter c (by omega)
  | none => exact ih.unary c (by omega)

theorem unary_ends (enough : 16 * c.rest.length + 3 ≤ fuel + 1) :
    Ends (unary (fuel + 1)) c (c.rest.length - 1) := by
  rw [Parser.unary]
  refine Ends.acceptAny?_bind (fun operator c₁ h₁ => ?_) ?_
  · exact ((ih.unary c₁ (by omega)).bind_pure (Nat.sub_le ..)).mono (by omega)
  · refine (ih.primary c (by omega)).bind (Nat.sub_le ..) fun head c₁ h₁ => ?_
    exact (ih.callRest head c₁ (by omega)).mono h₁

theorem callRest_ends (head : Expr) (enough : 16 * c.rest.length + 2 ≤ fuel + 1) :
    Ends (callRest (fuel + 1) head) c c.rest.length := by
  have closing : ∀ values (c₁ : Cursor), c₁.rest.length + 1 ≤ c.rest.length →
      Ends (expect .rightParen .argumentsEnd >>= fun t => callRest fuel (.call head t values)) c₁
        c.rest.length := by
    intro values c₁ h₁
    refine Ends.expect_bind fun t c₂ h₂ => ?_
    exact (ih.callRest _ c₂ (by omega)).mono (by omega)
  rw [Parser.callRest]
  refine Ends.accept_bind (fun c₁ h₁ => ?_) (Ends.accept_bind (fun c₁ h₁ => ?_) ?_)
  · refine Ends.check_bind fun empty => ?_
    cases empty with
    | true => exact closing [] c₁ (Nat.le_of_eq h₁)
    | false =>
      refine (ih.arguments 0 c₁ (by omega)).bind (Nat.sub_le ..) fun values c₂ h₂ => ?_
      exact closing values c₂ (by omega)
  · refine Ends.expect_bind fun property c₂ h₂ => ?_
    exact (ih.callRest _ c₂ (by omega)).mono (by omega)
  · exact Ends.pure (Nat.le_refl _)

theorem arguments_ends (count : Nat) (enough : 16 * c.rest.length + 17 ≤ fuel + 1) :
    Ends (arguments (fuel + 1) count) c (c.rest.length - 1) := by
  have after : ∀ c₁ : Cursor, c₁.rest = c.rest → Ends (do
      let first ← assignment fuel
      if ← accept .comma then
        return first :: (← arguments fuel (count + 1))
      else
        return [first]) c₁ (c.rest.length - 1) := by
    intro c₁ h₁
    rw [← h₁] at enough ⊢
    refine (ih.assignment c₁ (by omega)).bind (Nat.sub_le ..) fun first c₂ h₂ => ?_
    refine Ends.accept_bind (fun c₃ h₃ => ?_) (Ends.pure h₂)
    exact ((ih.arguments (count + 1) c₃ (by omega)).bind_pure (Nat.sub_le ..)).mono (by omega)
  rw [Parser.arguments]
  split
  · exact Ends.peek_bind (Ends.report_bind fun c₁ h₁ => after c₁ h₁)
  · exact after c rfl

theorem primary_ends (enough : 16 * c.rest.length + 1 ≤ fuel + 1) :
    Ends (primary (fuel + 1)) c (c.rest.length - 1) := by
  have numbered : ∀ (c₁ : Cursor) (node : Nat → Expr), c₁.rest.length ≤ c.rest.length - 1 →
      Ends (freshId >>= fun n => pure (node n)) c₁ (c.rest.length - 1) := by
    intro c₁ node h₁
    refine Ends.freshId_bind fun n c₂ h₂ => Ends.pure ?_
    rwa [h₂]
  rw [Parser.primary]
  refine Ends.peek_bind ?_
  split
  · exact Ends.accept_next_bind fun _ c₁ h₁ => Ends.pure h₁
  · exact Ends.fail
  · refine Ends.accept?_bind (fun keyword c₁ h₁ => numbered c₁ _ (by omega)) ?_
    refine Ends.accept?_bind (fun token c₁ h₁ => numbered c₁ _ (by omega)) ?_
    refine Ends.accept?_bind (fun keyword c₁ h₁ => ?_) ?_
    · refine Ends.expect_bind fun dot c₂ h₂ => Ends.expect_bind fun method c₃ h₃ => ?_
      exact numbered c₃ _ (by omega)
    refine Ends.accept_bind (fun c₁ h₁ => ?_) Ends.fail
    refine (ih.assignment c₁ (by omega)).bind (Nat.sub_le ..) fun inner c₂ h₂ => ?_
    exact Ends.expect_bind fun r c₃ h₃ => Ends.pure (by omega)

end Expressions

theorem expressionsEnd (fuel : Nat) : ExpressionsEnd fuel := by
  induction fuel with
  | zero =>
    constructor <;> intros <;> omega
  | succ fuel ih =>
    exact ⟨fun _ => assignment_ends ih, fun level _ => binary_ends ih level,
      fun level left _ => binaryRest_ends ih level left, fun level _ => operand_ends ih level,
      fun _ => unary_ends ih, fun head _ => callRest_ends ih head,
      fun count _ => arguments_ends ih count, fun _ => primary_ends ih⟩

theorem expression_ends {c : Cursor} : Ends expression c (c.rest.length - 1) := by
  refine Ends.get_bind ((expressionsEnd _).assignment c ?_)
  rw [expressionFuel]
  omega

theorem expressionBefore?_ends {closing : TokenKind} {c : Cursor} :
    Ends (expressionBefore? closing) c c.rest.length := by
  refine Ends.check_bind fun closed => ?_
  cases closed with
  | true => exact Ends.pure (Nat.le_refl _)
  | false => exact (expression_ends.bind_pure (Nat.sub_le ..)).mono (Nat.sub_le ..)

/-! ## Declarations and statements -/

theorem parametersFrom_ends (fuel count : Nat) (c : Cursor) (enough : c.rest.length + 1 ≤ fuel) :
    Ends (parametersFrom fuel count) c c.rest.length := by
  induction fuel generalizing count c with
  | zero => omega
  | succ fuel ih =>
    have after : ∀ c₁ : Cursor, c₁.rest = c.rest → Ends (do
        let first ← expect .identifier .parameterName
        if ← accept .comma then
          return first :: (← parametersFrom fuel (count + 1))
        else
          return [first]) c₁ c.rest.length := by
      intro c₁ h₁
      rw [← h₁] at enough ⊢
      refine Ends.expect_bind fun first c₂ h₂ => ?_
      refine Ends.accept_bind (fun c₃ h₃ => ?_) (Ends.pure (by omega))
      exact ((ih (count + 1) c₃ (by omega)).bind_pure (Nat.le_refl _)).mono (by omega)
    rw [parametersFrom]
    split
    · exact Ends.peek_bind (Ends.report_bind fun c₁ h₁ => after c₁ h₁)
    · exact after c rfl

theorem parameters_ends {c : Cursor} : Ends parameters c c.rest.length := by
  refine Ends.check_bind fun empty => ?_
  cases empty with
  | true => exact Ends.pure (Nat.le_refl _)
  | false => exact Ends.get_bind (parametersFrom_ends _ 0 c (Nat.le_refl _))

theorem variableDeclaration_ends {c : Cursor} :
    Ends variableDeclaration c (c.rest.length - 1) := by
  refine Ends.expect_bind fun name c₁ h₁ => Ends.accept_bind (fun c₂ h₂ => ?_) ?_
  · refine (expression_ends.map (Nat.sub_le ..)).bind (Nat.sub_le ..) fun value c₃ h₃ => ?_
    exact Ends.expect_bind fun semicolon c₄ h₄ => Ends.pure (by omega)
  · exact Ends.expect_bind fun semicolon c₂ h₂ => Ends.pure (by omega)

/-- An expression and the semicolon behind it. -/
theorem closedExpression_ends {what : Expected} {c : Cursor} (node : Expr → Stmt) :
    Ends (expression >>= fun e => expect .semicolon what >>= fun _ => pure (node e)) c
      (c.rest.length - 1) :=
  expression_ends.bind (Nat.sub_le ..) fun _ _ _ =>
    Ends.expect_bind fun _ _ _ => Ends.pure (by omega)

theorem expressionStatement_ends {c : Cursor} : Ends expressionStatement c (c.rest.length - 1) :=
  closedExpression_ends .expression

theorem printStatement_ends {c : Cursor} : Ends printStatement c (c.rest.length - 1) :=
  closedExpression_ends .print

theorem returnStatement_ends {keyword : Token} {c : Cursor} :
    Ends (returnStatement keyword) c (c.rest.length - 1) :=
  expressionBefore?_ends.bind (Nat.le_refl _) fun _ _ _ =>
    Ends.expect_bind fun _ _ _ => Ends.pure (by omega)

theorem forInitializer_ends {c : Cursor} : Ends forInitializer c (c.rest.length - 1) := by
  refine Ends.accept_bind (fun c₁ h₁ => Ends.pure (by omega)) ?_
  refine Ends.accept_bind (fun c₁ h₁ => ?_) ?_
  · exact (variableDeclaration_ends.bind_pure (Nat.sub_le ..)).mono (by omega)
  · exact expressionStatement_ends.bind_pure (Nat.sub_le ..)

/-- The functions for declarations and statements end under some fuel, if it is enough for the
tokens left. -/
structure StatementsEnd (fuel : Nat) : Prop where
  declaration : ∀ c : Cursor, 8 * c.rest.length + 2 ≤ fuel →
    Ends (declaration fuel) c (c.rest.length - 1)
  classDeclaration : ∀ c : Cursor, 8 * c.rest.length + 7 ≤ fuel →
    Ends (classDeclaration fuel) c c.rest.length
  methods : ∀ c : Cursor, 8 * c.rest.length + 6 ≤ fuel → Ends (methods fuel) c c.rest.length
  function : ∀ role (c : Cursor), 8 * c.rest.length + 5 ≤ fuel →
    Ends (function fuel role) c (c.rest.length - 1)
  block : ∀ c : Cursor, 8 * c.rest.length + 4 ≤ fuel → Ends (block fuel) c c.rest.length
  declarations : ∀ c : Cursor, 8 * c.rest.length + 3 ≤ fuel →
    Ends (declarations fuel) c c.rest.length
  statement : ∀ c : Cursor, 8 * c.rest.length + 1 ≤ fuel →
    Ends (statement fuel) c (c.rest.length - 1)

section Statements

variable {fuel : Nat} (ih : StatementsEnd fuel) {c : Cursor}
include ih

theorem declaration_ends (enough : 8 * c.rest.length + 2 ≤ fuel + 1) :
    Ends (declaration (fuel + 1)) c (c.rest.length - 1) := by
  rw [Parser.declaration]
  refine Ends.recovering (Ends.accept_bind (fun c₁ h₁ => ?_) ?_)
  · exact (ih.classDeclaration c₁ (by omega)).mono (by omega)
  refine Ends.accept_bind (fun c₁ h₁ => ?_) (Ends.accept_bind (fun c₁ h₁ => ?_) ?_)
  · exact ((ih.function .function c₁ (by omega)).bind_pure (Nat.sub_le ..)).mono (by omega)
  · exact variableDeclaration_ends.mono (by omega)
  · exact ih.statement c (by omega)

theorem classDeclaration_ends (enough : 8 * c.rest.length + 7 ≤ fuel + 1) :
    Ends (classDeclaration (fuel + 1)) c c.rest.length := by
  have body : ∀ (c₁ : Cursor) (node : List FunctionDecl → Stmt), c₁.rest.length ≤ c.rest.length →
      Ends (expect .leftBrace .classBodyStart >>= fun _ => methods fuel >>= fun members =>
        expect .rightBrace .classBodyEnd >>= fun _ => pure (node members)) c₁ c.rest.length := by
    intro c₁ node h₁
    refine Ends.expect_bind fun l c₂ h₂ => ?_
    refine (ih.methods c₂ (by omega)).bind (Nat.le_refl _) fun members c₃ h₃ => ?_
    exact Ends.expect_bind fun r c₄ h₄ => Ends.pure (by omega)
  rw [Parser.classDeclaration]
  refine Ends.expect_bind fun name c₁ h₁ => Ends.accept_bind (fun c₂ h₂ => ?_) ?_
  · refine Ends.expect_bind fun parent c₃ h₃ => Ends.freshId_bind fun n c₄ h₄ => ?_
    rw [← h₄] at h₃
    exact body c₄ _ (by omega)
  · exact body c₁ _ (by omega)

theorem methods_ends (enough : 8 * c.rest.length + 6 ≤ fuel + 1) :
    Ends (methods (fuel + 1)) c c.rest.length := by
  rw [Parser.methods]
  refine Ends.check_bind fun closed => Ends.atEnd_bind (fun _ => ?_) fun more => ?_
  · simpa using Ends.pure (Nat.le_refl _)
  split
  · exact Ends.pure (Nat.le_refl _)
  · refine (ih.function .method c (by omega)).bind (Nat.sub_le ..) fun first c₁ h₁ => ?_
    exact ((ih.methods c₁ (by omega)).bind_pure (Nat.le_refl _)).mono (by omega)

theorem function_ends (role : FunctionRole) (enough : 8 * c.rest.length + 5 ≤ fuel + 1) :
    Ends (function (fuel + 1) role) c (c.rest.length - 1) := by
  rw [Parser.function]
  refine Ends.expect_bind fun name c₁ h₁ => Ends.expect_bind fun l c₂ h₂ => ?_
  refine parameters_ends.bind (Nat.le_refl _) fun params c₃ h₃ => ?_
  refine Ends.expect_bind fun r c₄ h₄ => Ends.expect_bind fun brace c₅ h₅ => ?_
  exact ((ih.block c₅ (by omega)).bind_pure (Nat.le_refl _)).mono (by omega)

theorem block_ends (enough : 8 * c.rest.length + 4 ≤ fuel + 1) :
    Ends (block (fuel + 1)) c c.rest.length := by
  rw [Parser.block]
  refine (ih.declarations c (by omega)).bind (Nat.le_refl _) fun body c₁ h₁ => ?_
  exact Ends.expect_bind fun r c₂ h₂ => Ends.pure (by omega)

theorem declarations_ends (enough : 8 * c.rest.length + 3 ≤ fuel + 1) :
    Ends (declarations (fuel + 1)) c c.rest.length := by
  rw [Parser.declarations]
  refine Ends.check_bind fun closed => Ends.atEnd_bind (fun _ => ?_) fun more => ?_
  · simpa using Ends.pure (Nat.le_refl _)
  split
  · exact Ends.pure (Nat.le_refl _)
  · refine (ih.declaration c (by omega)).bind (Nat.sub_le ..) fun first c₁ h₁ => ?_
    exact ((ih.declarations c₁ (by omega)).bind_pure (Nat.le_refl _)).mono (by omega)

theorem statement_ends (enough : 8 * c.rest.length + 1 ≤ fuel + 1) :
    Ends (statement (fuel + 1)) c (c.rest.length - 1) := by
  have body : ∀ (c₁ : Cursor) (node : Stmt → Stmt), c₁.rest.length ≤ c.rest.length - 1 →
      c₁.rest.length + 1 ≤ c.rest.length →
      Ends (statement fuel >>= fun s => pure (node s)) c₁ (c.rest.length - 1) := by
    intro c₁ node h₁ h₁'
    exact ((ih.statement c₁ (by omega)).bind_pure (Nat.sub_le ..)).mono (by omega)
  rw [Parser.statement]
  refine Ends.accept_bind (fun c₁ h₁ => ?ofFor) (Ends.accept_bind (fun c₁ h₁ => ?ofIf) ?_)
  case ofFor =>
    refine Ends.expect_bind fun l c₂ h₂ => ?_
    refine forInitializer_ends.bind (Nat.sub_le ..) fun first c₃ h₃ => ?_
    refine expressionBefore?_ends.bind (Nat.le_refl _) fun condition c₄ h₄ => ?_
    refine Ends.expect_bind fun semicolon c₅ h₅ => ?_
    refine expressionBefore?_ends.bind (Nat.le_refl _) fun increment c₆ h₆ => ?_
    exact Ends.expect_bind fun r c₇ h₇ => body c₇ _ (by omega) (by omega)
  case ofIf =>
    refine Ends.expect_bind fun l c₂ h₂ => expression_ends.bind (Nat.sub_le ..) ?_
    intro condition c₃ h₃
    refine Ends.expect_bind fun r c₄ h₄ => ?_
    refine (ih.statement c₄ (by omega)).bind (Nat.sub_le ..) fun thenBranch c₅ h₅ => ?_
    refine Ends.accept_bind (fun c₆ h₆ => ?_) (Ends.pure (by omega))
    exact body c₆ _ (by omega) (by omega)
  refine Ends.accept_bind (fun c₁ h₁ => printStatement_ends.mono (by omega)) ?_
  refine Ends.accept?_bind (fun keyword c₁ h₁ => returnStatement_ends.mono (by omega)) ?_
  refine Ends.accept_bind (fun c₁ h₁ => ?ofWhile) (Ends.accept_bind (fun c₁ h₁ => ?ofBlock) ?_)
  case ofWhile =>
    refine Ends.expect_bind fun l c₂ h₂ => expression_ends.bind (Nat.sub_le ..) ?_
    intro condition c₃ h₃
    exact Ends.expect_bind fun r c₄ h₄ => body c₄ _ (by omega) (by omega)
  case ofBlock =>
    exact ((ih.block c₁ (by omega)).bind_pure (Nat.le_refl _)).mono (by omega)
  exact expressionStatement_ends

end Statements

theorem statementsEnd (fuel : Nat) : StatementsEnd fuel := by
  induction fuel with
  | zero =>
    constructor <;> intros <;> omega
  | succ fuel ih =>
    exact ⟨fun _ => declaration_ends ih, fun _ => classDeclaration_ends ih,
      fun _ => methods_ends ih, fun role _ => function_ends ih role, fun _ => block_ends ih,
      fun _ => declarations_ends ih, fun _ => statement_ends ih⟩

theorem program_ends (fuel : Nat) (c : Cursor) (enough : 8 * c.rest.length + 3 ≤ fuel) :
    Ends (program fuel) c 0 := by
  induction fuel generalizing c with
  | zero => omega
  | succ fuel ih =>
    rw [Parser.program]
    refine Ends.atEnd_bind (fun ended => ?_) fun more => ?_
    · exact Ends.pure (Nat.le_of_eq ended)
    · refine ((statementsEnd fuel).declaration c (by omega)).bind (Nat.sub_le ..) ?_
      intro first c₁ h₁
      exact (ih c₁ (by omega)).bind_pure (Nat.zero_le _)

/-- Every declaration reports its faults, so that none is left to stop a program. -/
theorem program_ne_fault (fuel : Nat) (c : Cursor) (d : Diagnostic) (c' : Cursor) :
    program fuel c ≠ .error (.fault d) c' := by
  induction fuel generalizing c with
  | zero => exact nofun
  | succ fuel ih =>
    intro stopped
    rw [Parser.program, bind_of_ok (show atEnd c = .ok c.rest.isEmpty c from rfl)] at stopped
    split at stopped
    · cases stopped
    rcases bind_eq_error.1 stopped with first | ⟨s, c₁, -, others⟩
    · cases fuel with
      | zero => cases first
      | succ fuel =>
        rw [declaration, recovering] at first
        split at first <;> cases first
    · rcases bind_eq_error.1 others with later | ⟨ss, c₂, -, impossible⟩
      · exact ih c₁ later
      · cases impossible

end ClassScript.Parser

namespace ClassScript

/-! ## Programs -/

/-- Whatever the tokens are, they are all read, and the faults on the way are what is reported. -/
theorem exists_parse (tokens : List Token) (firstId : Nat) : ∃ statements c,
    Parser.program (Parser.programFuel (Cursor.start tokens firstId).rest.length)
        (Cursor.start tokens firstId) = .ok statements c ∧ c.rest.length ≤ 0 ∧
      parse tokens firstId =
        ⟨if c.faults.isEmpty then .program statements else .rejected c.faults.toList, c.nextId⟩ := by
  have ends := Parser.program_ends (Parser.programFuel (Cursor.start tokens firstId).rest.length)
    (Cursor.start tokens firstId) (by rw [Parser.programFuel]; omega)
  unfold Parser.Ends at ends
  unfold parse
  cases read : Parser.program (Parser.programFuel (Cursor.start tokens firstId).rest.length)
      (Cursor.start tokens firstId) with
  | ok statements c =>
    rw [read] at ends
    exact ⟨statements, c, rfl, ends, by simp only [read]⟩
  | error halt c =>
    rw [read] at ends
    cases halt with
    | fault d => exact absurd read (Parser.program_ne_fault _ _ d c)
    | exhausted => exact ends.elim

/-- Whatever the tokens are, reading them ends with a program or with faults. -/
theorem parse_ends (tokens : List Token) (firstId : Nat) :
    (parse tokens firstId).outcome ≠ .exhausted := by
  obtain ⟨statements, c, -, -, parsed⟩ := exists_parse tokens firstId
  rw [parsed]
  dsimp only
  split <;> exact nofun

end ClassScript
