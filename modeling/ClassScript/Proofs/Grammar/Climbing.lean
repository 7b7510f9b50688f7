import ClassScript.Proofs.Grammar.InPlace

set_option autoImplicit false

/-!
# Reading in place only goes on

Whatever list is read in place and wherever reading stops, the list stays as it is, and the number for
the next node never goes down.  This holds of lists without a closing token as well, where a token is
asked for in the end that the list does not have; so such a list is no program.
-/

open ClassScript.Parser (Level)

namespace ClassScript

/-! ## Steps that go on -/

/-- From one reader to the other, the tokens are the same and node numbers were at most used up. -/
structure TokenReader.Onward (r r' : TokenReader) : Prop where
  tokens : r'.tokens = r.tokens
  ids : r.nextId ≤ r'.nextId

namespace TokenReader.Onward

variable {r r' r'' : TokenReader}

theorem refl (r : TokenReader) : r.Onward r :=
  ⟨rfl, Nat.le_refl _⟩

theorem trans (h : r.Onward r') (k : r'.Onward r'') : r.Onward r'' :=
  ⟨k.tokens.trans h.tokens, Nat.le_trans h.ids k.ids⟩

end TokenReader.Onward

namespace InPlace

/-- However the step ends, the reader goes on. -/
structure Climbs {α : Type} (w : InPlace α) : Prop where
  ok : ∀ {r r' : TokenReader} {a : α}, w r = .ok a r' → r.Onward r'
  error : ∀ {r r' : TokenReader} {stop : TokenReader.Stop}, w r = .error stop r' → r.Onward r'

namespace Climbs

variable {α β : Type}

protected theorem pure (a : α) : Climbs (pure a : InPlace α) where
  ok := by
    rintro r r' b ⟨⟩
    exact .refl r
  error := nofun

theorem throw (stop : TokenReader.Stop) : Climbs (throw stop : InPlace α) where
  ok := nofun
  error := by
    rintro r r' stop' ⟨⟩
    exact .refl r

protected theorem bind {w : InPlace α} {f : α → InPlace β} (first : Climbs w)
    (rest : ∀ a, Climbs (f a)) : Climbs (w >>= f) where
  ok {r r' b} ran := by
    change EStateM.bind w f r = _ at ran
    unfold EStateM.bind at ran
    split at ran
    · rename_i a r₁ before
      exact (first.ok before).trans ((rest a).ok ran)
    · cases ran
  error {r r' stop} ran := by
    change EStateM.bind w f r = _ at ran
    unfold EStateM.bind at ran
    split at ran
    · rename_i a r₁ before
      exact (first.ok before).trans ((rest a).error ran)
    · rename_i before
      cases ran
      exact first.error before

theorem ite {c : Prop} [Decidable c] {yes no : InPlace α} (hyes : Climbs yes) (hno : Climbs no) :
    Climbs (if c then yes else no) := by
  split
  · exact hyes
  · exact hno

/-- What only looks at the reader depends on nothing that goes down. -/
theorem read {f : TokenReader → InPlace α} (each : ∀ r, Climbs (f r)) : Climbs (get >>= f) where
  ok {r _ _} ran := (each r).ok ran
  error {r _ _} ran := (each r).error ran

theorem modifyGet {f : TokenReader → α × TokenReader} (onward : ∀ r : TokenReader, r.Onward (f r).2) :
    Climbs (MonadStateOf.modifyGet f : InPlace α) where
  ok := by
    rintro r r' a ⟨⟩
    exact onward r
  error := nofun

end Climbs

/-! ## Looking and moving -/

section

variable {α : Type}

theorem token_climbs (i : Nat) : Climbs (token i) := by
  refine .read fun r => ?_
  split
  · exact .pure _
  · exact .throw _

theorem peek_climbs : Climbs peek :=
  .read fun r => token_climbs r.current

theorem previous_climbs : Climbs previous := by
  refine .read fun r => ?_
  split
  · exact .throw _
  · exact token_climbs _

theorem atEnd_climbs : Climbs atEnd :=
  peek_climbs.bind fun _ => .pure _

theorem remaining_climbs : Climbs remaining :=
  .read fun _ => .pure _

theorem advance_climbs : Climbs advance := by
  refine atEnd_climbs.bind fun ended => ?_
  have moves : Climbs (modify fun r => r.moveTo (r.current + 1) : InPlace PUnit) :=
    .modifyGet fun r => ⟨rfl, Nat.le_refl _⟩
  cases ended with
  | true => exact previous_climbs
  | false => exact moves.bind fun _ => previous_climbs

theorem check_climbs (kind : TokenKind) : Climbs (check kind) :=
  atEnd_climbs.bind fun _ => .ite (.pure _) (peek_climbs.bind fun _ => .pure _)

theorem matchAny?_climbs (kinds : List TokenKind) : Climbs (matchAny? kinds) := by
  induction kinds with
  | nil => exact .pure _
  | cons kind kinds ih =>
    exact (check_climbs kind).bind fun _ => .ite (advance_climbs.bind fun _ => .pure _) ih

theorem match?_climbs (kind : TokenKind) : Climbs (match? kind) :=
  matchAny?_climbs [kind]

theorem fail_climbs (t : Token) (fault : GrammarFault) : Climbs (fail t fault : InPlace α) :=
  .throw _

theorem exhausted_climbs : Climbs (exhausted : InPlace α) :=
  .throw _

theorem report_climbs (t : Token) (fault : GrammarFault) : Climbs (report t fault) :=
  .modifyGet fun _ => ⟨rfl, Nat.le_refl _⟩

theorem consume_climbs (kind : TokenKind) (what : Expected) : Climbs (consume kind what) :=
  (check_climbs kind).bind fun _ =>
    .ite advance_climbs (peek_climbs.bind fun t => fail_climbs t _)

theorem freshId_climbs : Climbs freshId :=
  .modifyGet fun _ => ⟨rfl, Nat.le_succ _⟩

/-! ## Recovery -/

theorem skip_climbs (fuel : Nat) : Climbs (skip fuel) := by
  induction fuel with
  | zero => exact exhausted_climbs
  | succ fuel ih =>
    refine atEnd_climbs.bind fun _ => .ite (.pure _) (previous_climbs.bind fun _ => ?_)
    refine .ite (.pure _) (peek_climbs.bind fun _ => ?_)
    exact .ite (.pure _) (advance_climbs.bind fun _ => ih)

theorem synchronize_climbs : Climbs synchronize :=
  advance_climbs.bind fun _ => remaining_climbs.bind fun _ => skip_climbs _

theorem Climbs.recovering {step : InPlace α} (h : Climbs step) : Climbs (recovering step) := by
  have goesOn : Climbs (do synchronize; return none : InPlace (Option α)) :=
    synchronize_climbs.bind fun _ => .pure _
  -- a fault is reported before reading goes on, and a stop is passed on as it is
  have reported : ∀ (r : TokenReader) (d : Diagnostic),
      r.Onward { r with faults := r.faults.push d } := fun _ _ => ⟨rfl, Nat.le_refl _⟩
  constructor
  · intro r r' a ran
    unfold InPlace.recovering at ran
    split at ran
    · cases ran
      exact h.ok ‹_›
    · exact (h.error ‹_›).trans ((reported _ _).trans (goesOn.ok ran))
    · cases ran
  · intro r r' stop ran
    unfold InPlace.recovering at ran
    split at ran
    · cases ran
    · exact (h.error ‹_›).trans ((reported _ _).trans (goesOn.error ran))
    · cases ran
      exact h.error ‹_›

end

/-! ## Expressions -/

/-- Under some fuel, the functions for expressions go on. -/
structure ExpressionsClimb (fuel : Nat) : Prop where
  assignment : Climbs (assignment fuel)
  binary : ∀ level, Climbs (binary fuel level)
  binaryRest : ∀ level left, Climbs (binaryRest fuel level left)
  operand : ∀ level, Climbs (operand fuel level)
  unary : Climbs (unary fuel)
  callRest : ∀ head, Climbs (callRest fuel head)
  arguments : ∀ count, Climbs (arguments fuel count)
  primary : Climbs (primary fuel)

section Expressions

variable {fuel : Nat} (ih : ExpressionsClimb fuel)
include ih

theorem assignment_climbs : Climbs (assignment (fuel + 1)) := by
  rw [InPlace.assignment]
  refine (ih.binary .or).bind fun target => (match?_climbs _).bind fun _ => .ite ?_ (.pure _)
  refine previous_climbs.bind fun equals => ih.assignment.bind fun value => ?_
  cases target with
  -- the target gets a number of its own, and that of the name is not used again
  | name id token => exact freshId_climbs.bind fun _ => .pure _
  | get object property => exact .pure _
  | _ => exact (report_climbs ..).bind fun _ => .pure _

theorem binary_climbs (level : Level) : Climbs (binary (fuel + 1) level) := by
  rw [InPlace.binary]
  exact (ih.operand level).bind fun left => ih.binaryRest level left

theorem binaryRest_climbs (level : Level) (left : Expr) :
    Climbs (binaryRest (fuel + 1) level left) := by
  rw [InPlace.binaryRest]
  refine (matchAny?_climbs _).bind fun _ => .ite ?_ (.pure _)
  refine previous_climbs.bind fun operator => (ih.operand level).bind fun right => ?_
  exact ih.binaryRest level _

theorem operand_climbs (level : Level) : Climbs (operand (fuel + 1) level) := by
  rw [InPlace.operand]
  cases level.tighter? with
  | some tighter => exact ih.binary tighter
  | none => exact ih.unary

theorem unary_climbs : Climbs (unary (fuel + 1)) := by
  rw [InPlace.unary]
  refine (matchAny?_climbs _).bind fun _ => .ite ?_ (ih.primary.bind ih.callRest)
  exact previous_climbs.bind fun operator => ih.unary.bind fun operand => .pure _

theorem callRest_climbs (head : Expr) : Climbs (callRest (fuel + 1) head) := by
  have closing : ∀ values, Climbs
      (consume .rightParen .argumentsEnd >>= fun t => callRest fuel (.call head t values)) :=
    fun values => (consume_climbs ..).bind fun t => ih.callRest _
  rw [InPlace.callRest]
  refine (match?_climbs _).bind fun _ => .ite ?_ ((match?_climbs _).bind fun _ => .ite ?_ (.pure _))
  · refine (check_climbs _).bind fun _ => .ite (closing []) ?_
    exact (ih.arguments 0).bind closing
  · exact (consume_climbs ..).bind fun property => ih.callRest _

theorem arguments_climbs (count : Nat) : Climbs (arguments (fuel + 1) count) := by
  rw [InPlace.arguments]
  have after : Climbs (do
      let first ← assignment fuel
      if ← match? .comma then return first :: (← arguments fuel (count + 1))
      else return [first]) := by
    refine ih.assignment.bind fun first => (match?_climbs _).bind fun _ => .ite ?_ (.pure _)
    exact (ih.arguments (count + 1)).bind fun _ => .pure _
  exact .ite (peek_climbs.bind fun t => (report_climbs ..).bind fun _ => after) after

theorem primary_climbs : Climbs (primary (fuel + 1)) := by
  have method : Climbs (do
      let keyword ← advance
      let _ ← consume .dot .superDot
      let method ← consume .identifier .superclassMethodName
      return Expr.super (← freshId) keyword method) :=
    advance_climbs.bind fun _ => (consume_climbs ..).bind fun _ => (consume_climbs ..).bind fun _ =>
      freshId_climbs.bind fun _ => .pure _
  have group : Climbs (do
      let _ ← advance
      let inner ← assignment fuel
      let _ ← consume .rightParen .groupEnd
      return Expr.grouping inner) :=
    advance_climbs.bind fun _ => ih.assignment.bind fun _ => (consume_climbs ..).bind fun _ => .pure _
  rw [InPlace.primary]
  refine peek_climbs.bind fun t => ?_
  split
  · exact advance_climbs.bind fun _ => .pure _
  · exact fail_climbs ..
  · refine .ite (advance_climbs.bind fun _ => freshId_climbs.bind fun _ => .pure _) ?_
    refine .ite (advance_climbs.bind fun _ => freshId_climbs.bind fun _ => .pure _) ?_
    exact .ite method (.ite group (fail_climbs ..))

end Expressions

theorem expressionsClimb (fuel : Nat) : ExpressionsClimb fuel := by
  induction fuel with
  | zero =>
    exact ⟨exhausted_climbs, fun _ => exhausted_climbs, fun _ _ => exhausted_climbs,
      fun _ => exhausted_climbs, exhausted_climbs, fun _ => exhausted_climbs,
      fun _ => exhausted_climbs, exhausted_climbs⟩
  | succ fuel ih =>
    exact ⟨assignment_climbs ih, binary_climbs ih, binaryRest_climbs ih, operand_climbs ih,
      unary_climbs ih, callRest_climbs ih, arguments_climbs ih, primary_climbs ih⟩

theorem expression_climbs : Climbs expression :=
  remaining_climbs.bind fun _ => (expressionsClimb _).assignment

theorem expressionBefore?_climbs (closing : TokenKind) : Climbs (expressionBefore? closing) :=
  (check_climbs _).bind fun _ => .ite (.pure _) (expression_climbs.bind fun _ => .pure _)

/-! ## Declarations and statements -/

theorem parametersFrom_climbs (fuel count : Nat) : Climbs (parametersFrom fuel count) := by
  induction fuel generalizing count with
  | zero => exact exhausted_climbs
  | succ fuel ih =>
    have after : Climbs (do
        let first ← consume .identifier .parameterName
        if ← match? .comma then return first :: (← parametersFrom fuel (count + 1))
        else return [first]) := by
      refine (consume_climbs ..).bind fun first => (match?_climbs _).bind fun _ => .ite ?_ (.pure _)
      exact (ih (count + 1)).bind fun _ => .pure _
    rw [parametersFrom]
    exact .ite (peek_climbs.bind fun t => (report_climbs ..).bind fun _ => after) after

theorem parameters_climbs : Climbs parameters :=
  (check_climbs _).bind fun _ =>
    .ite (.pure _) (remaining_climbs.bind fun _ => parametersFrom_climbs _ _)

theorem variableDeclaration_climbs : Climbs variableDeclaration := by
  have closed : ∀ name value, Climbs
      (consume .semicolon .variableEnd >>= fun _ => pure (Stmt.varDecl name value)) :=
    fun name value => (consume_climbs ..).bind fun _ => .pure _
  refine (consume_climbs ..).bind fun name => (match?_climbs _).bind fun _ => .ite ?_ (closed name none)
  have initializer : Climbs (some <$> expression) := by
    rw [map_eq_pure_bind]
    exact expression_climbs.bind fun _ => .pure _
  exact initializer.bind fun value => closed name value

theorem expressionStatement_climbs : Climbs expressionStatement :=
  expression_climbs.bind fun _ => (consume_climbs ..).bind fun _ => .pure _

theorem printStatement_climbs : Climbs printStatement :=
  expression_climbs.bind fun _ => (consume_climbs ..).bind fun _ => .pure _

theorem returnStatement_climbs : Climbs returnStatement :=
  previous_climbs.bind fun _ => (expressionBefore?_climbs _).bind fun _ =>
    (consume_climbs ..).bind fun _ => .pure _

theorem forInitializer_climbs : Climbs forInitializer := by
  refine (match?_climbs _).bind fun _ => .ite (.pure _) ((match?_climbs _).bind fun _ => ?_)
  exact .ite (variableDeclaration_climbs.bind fun _ => .pure _)
    (expressionStatement_climbs.bind fun _ => .pure _)

/-- A repetition up to a brace or to the end. -/
theorem until_brace_climbs {α : Type} {done more : InPlace α} (hdone : Climbs done)
    (hmore : Climbs more) :
    Climbs (do if (← check .rightBrace) || (← atEnd) then done else more) :=
  (check_climbs _).bind fun _ => atEnd_climbs.bind fun _ => .ite hdone hmore

/-- Under some fuel, the functions for declarations go on. -/
structure StatementsClimb (fuel : Nat) : Prop where
  declaration : Climbs (declaration fuel)
  classDeclaration : Climbs (classDeclaration fuel)
  methods : Climbs (methods fuel)
  function : ∀ role, Climbs (function fuel role)
  block : Climbs (block fuel)
  declarations : Climbs (declarations fuel)
  statement : Climbs (statement fuel)

section Statements

variable {fuel : Nat} (ih : StatementsClimb fuel)
include ih

theorem declaration_climbs : Climbs (declaration (fuel + 1)) := by
  rw [InPlace.declaration]
  refine .recovering ((match?_climbs _).bind fun _ => .ite ih.classDeclaration ?_)
  refine (match?_climbs _).bind fun _ => .ite ((ih.function _).bind fun _ => .pure _) ?_
  exact (match?_climbs _).bind fun _ => .ite variableDeclaration_climbs ih.statement

theorem classDeclaration_climbs : Climbs (classDeclaration (fuel + 1)) := by
  rw [InPlace.classDeclaration]
  have body : ∀ name superclass, Climbs (do
      let _ ← consume .leftBrace .classBodyStart
      let members ← methods fuel
      let _ ← consume .rightBrace .classBodyEnd
      return Stmt.classDecl name superclass members) := by
    intro name superclass
    refine (consume_climbs ..).bind fun _ => ih.methods.bind fun members => ?_
    exact (consume_climbs ..).bind fun _ => .pure _
  refine (consume_climbs ..).bind fun name => (match?_climbs _).bind fun _ => .ite ?_ (body name none)
  refine (consume_climbs ..).bind fun parent => freshId_climbs.bind fun n => ?_
  exact body name (Expr.name n parent)

theorem methods_climbs : Climbs (methods (fuel + 1)) := by
  rw [InPlace.methods]
  refine until_brace_climbs (.pure _) ?_
  exact (ih.function .method).bind fun _ => ih.methods.bind fun _ => .pure _

theorem function_climbs (role : FunctionRole) : Climbs (function (fuel + 1) role) := by
  rw [InPlace.function]
  refine (consume_climbs ..).bind fun name => (consume_climbs ..).bind fun _ => ?_
  refine parameters_climbs.bind fun params => (consume_climbs ..).bind fun _ => ?_
  exact (consume_climbs ..).bind fun _ => ih.block.bind fun _ => .pure _

theorem block_climbs : Climbs (block (fuel + 1)) := by
  rw [InPlace.block]
  exact ih.declarations.bind fun _ => (consume_climbs ..).bind fun _ => .pure _

theorem declarations_climbs : Climbs (declarations (fuel + 1)) := by
  rw [InPlace.declarations]
  refine until_brace_climbs (.pure _) ?_
  exact ih.declaration.bind fun _ => ih.declarations.bind fun _ => .pure _

theorem statement_climbs : Climbs (statement (fuel + 1)) := by
  rw [InPlace.statement]
  refine (match?_climbs _).bind fun _ => .ite ?ofFor ((match?_climbs _).bind fun _ => .ite ?ofIf ?_)
  case ofFor =>
    refine (consume_climbs ..).bind fun _ => forInitializer_climbs.bind fun _ => ?_
    refine (expressionBefore?_climbs _).bind fun _ => (consume_climbs ..).bind fun _ => ?_
    refine (expressionBefore?_climbs _).bind fun _ => (consume_climbs ..).bind fun _ => ?_
    exact ih.statement.bind fun _ => .pure _
  case ofIf =>
    refine (consume_climbs ..).bind fun _ => expression_climbs.bind fun _ => ?_
    refine (consume_climbs ..).bind fun _ => ih.statement.bind fun _ => ?_
    refine (match?_climbs _).bind fun _ => .ite ?_ (.pure _)
    exact ih.statement.bind fun _ => .pure _
  refine (match?_climbs _).bind fun _ => .ite printStatement_climbs ?_
  refine (match?_climbs _).bind fun _ => .ite returnStatement_climbs ?_
  refine (match?_climbs _).bind fun _ => .ite ?ofWhile ?_
  case ofWhile =>
    refine (consume_climbs ..).bind fun _ => expression_climbs.bind fun _ => ?_
    exact (consume_climbs ..).bind fun _ => ih.statement.bind fun _ => .pure _
  refine (match?_climbs _).bind fun _ => .ite ?_ expressionStatement_climbs
  exact ih.block.bind fun _ => .pure _

end Statements

theorem statementsClimb (fuel : Nat) : StatementsClimb fuel := by
  induction fuel with
  | zero =>
    exact ⟨exhausted_climbs, exhausted_climbs, exhausted_climbs, fun _ => exhausted_climbs,
      exhausted_climbs, exhausted_climbs, exhausted_climbs⟩
  | succ fuel ih =>
    exact ⟨declaration_climbs ih, classDeclaration_climbs ih, methods_climbs ih, function_climbs ih,
      block_climbs ih, declarations_climbs ih, statement_climbs ih⟩

/-! ## Programs -/

theorem declarationsToEnd_climbs (fuel : Nat) : Climbs (declarationsToEnd fuel) := by
  induction fuel with
  | zero => exact exhausted_climbs
  | succ fuel ih =>
    refine atEnd_climbs.bind fun _ => .ite (.pure _) ?_
    exact (statementsClimb fuel).declaration.bind fun _ => ih.bind fun _ => .pure _

theorem program_climbs : Climbs program := by
  refine remaining_climbs.bind fun _ => (declarationsToEnd_climbs _).bind fun _ => ?_
  exact .read fun _ => .pure _

/-! ## Coming to an end -/

/-- What two steps in sequence come to, the first has come to something. -/
theorem ok_of_bind {α β : Type} {w : InPlace α} {f : α → InPlace β} {r r' : TokenReader} {b : β}
    (ran : (w >>= f) r = .ok b r') : ∃ a r₁, w r = .ok a r₁ ∧ f a r₁ = .ok b r' := by
  change EStateM.bind w f r = _ at ran
  unfold EStateM.bind at ran
  split at ran
  · exact ⟨_, _, ‹_›, ran⟩
  · cases ran

/-- A token that is found is one of the list. -/
theorem mem_of_token {i : Nat} {r r' : TokenReader} {t : Token} (found : token i r = .ok t r') :
    t ∈ r.tokens := by
  cases at_ : r.tokens[i]? with
  | none =>
    unfold token at found
    simp only [bind, EStateM.bind, get, getThe, MonadStateOf.get, EStateM.get, at_] at found
    cases found
  | some u =>
    unfold token at found
    simp only [bind, EStateM.bind, get, getThe, MonadStateOf.get, EStateM.get, at_] at found
    cases found
    exact List.mem_of_getElem? at_

/-- The end is found at a closing token only. -/
theorem closed_of_atEnd {r r' : TokenReader} (ended : atEnd r = .ok true r') :
    ∃ t ∈ r.tokens, t.kind = .endOfSource := by
  obtain ⟨t, r₁, found, closes⟩ := ok_of_bind ended
  refine ⟨t, mem_of_token (i := r.current) found, ?_⟩
  exact of_decide_eq_true (EStateM.Result.ok.inj closes).1

/-- Declarations are read to their end only if a token closes the list. -/
theorem closed_of_declarationsToEnd {fuel : Nat} {r r' : TokenReader} {ss : List Stmt}
    (read : declarationsToEnd fuel r = .ok ss r') : ∃ t ∈ r.tokens, t.kind = .endOfSource := by
  induction fuel generalizing r r' ss with
  | zero => cases read
  | succ fuel ih =>
    rw [declarationsToEnd] at read
    obtain ⟨ended, r₁, looked, read⟩ := ok_of_bind read
    cases ended with
    | true => exact closed_of_atEnd looked
    | false =>
      obtain ⟨first, r₂, declared, read⟩ := ok_of_bind read
      obtain ⟨others, r₃, rest, -⟩ := ok_of_bind read
      have onward := (atEnd_climbs.ok looked).trans ((statementsClimb fuel).declaration.ok declared)
      rw [← onward.tokens]
      exact ih rest

/-- A list that is read to its end has a closing token. -/
theorem closed_of_program {r r' : TokenReader} {outcome : ParseOutcome}
    (read : program r = .ok outcome r') : ∃ t ∈ r.tokens, t.kind = .endOfSource := by
  obtain ⟨n, r₁, counted, read⟩ := ok_of_bind read
  obtain ⟨ss, r₂, declared, -⟩ := ok_of_bind read
  rw [← (remaining_climbs.ok counted).tokens]
  exact closed_of_declarationsToEnd declared

end InPlace

end ClassScript
