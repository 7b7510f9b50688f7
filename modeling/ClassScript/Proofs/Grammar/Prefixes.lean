import ClassScript.Proofs.Grammar.Foresight

set_option autoImplicit false

/-!
# Correct prefixes

Every function of the parser finds its first hard fault at the first token with which what it took
is no beginning of its phrase.  The functions that count down a fuel are handled together, by
induction on the fuel; wherever one of them can stop, the phrase is completed from there.
-/

namespace ClassScript.Parser

open Grammar

/-! ## Phrases that complete others -/

theorem derives_bareNil : Derives .relaxed .expression [bare .kwNil] (.constant .nil) :=
  .expression (.assignNothing (.logicOrFirst (.logicAndFirst (.equalityFirst (.comparisonFirst
    (.termFirst (.factorFirst (.unaryCall (.callFirst (.nil rfl))))))))))

/-! ## Expressions -/

/-- Under some fuel, the functions for expressions stop where their phrases cannot be continued. -/
structure ExpressionsForesee (fuel : Nat) : Prop where
  assignment : Foresees (Begins (Derives .relaxed .assignment)) (assignment fuel) assignment
  binary : ∀ level, Foresees (Begins (level.Derives .relaxed)) (binary fuel level)
    fun n => binary n level
  binaryRest : ∀ level left, Foresees (fun us => ∀ ts, level.Derives .relaxed ts left.unnumbered →
    Begins (level.Derives .relaxed) (ts ++ us)) (binaryRest fuel level left)
      fun n => binaryRest n level left
  operand : ∀ level, Foresees (Begins (level.DerivesOperand .relaxed)) (operand fuel level)
    fun n => operand n level
  unary : Foresees (Begins (Derives .relaxed .unary)) (unary fuel) unary
  callRest : ∀ head, Foresees (fun us => ∀ ts, Derives .relaxed .call ts head.unnumbered →
    Begins (Derives .relaxed .call) (ts ++ us)) (callRest fuel head) fun n => callRest n head
  arguments : ∀ count, Foresees (Begins (Derives .relaxed .arguments)) (arguments fuel count)
    fun n => arguments n count
  primary : Foresees (Begins (Derives .relaxed .primary)) (primary fuel) primary

section Expressions

variable {fuel : Nat} (ih : ExpressionsForesee fuel)
include ih

theorem assignment_foresees :
    Foresees (Begins (Derives .relaxed .assignment)) (assignment (fuel + 1)) assignment := by
  refine Foresees.fueled ?_ rfl
  simp only [Parser.assignment]
  refine (ih.binary .or).bind ((expressionsSound _ fuel).binary .or) ?_ fun target => ?_
  · exact fun ts h => h.imp fun us e he => ⟨e, .assignNothing he⟩
  refine Foresees.accept?_bind (fun equal => ?_) (Foresees.pure target)
  refine ih.assignment.bind (expressionsSound _ fuel).assignment ?_ fun value => ?_
  · intro us h hequal ts _ hts
    refine h.within (ts ++ [equal]) [] (by simp) fun us e he => ?_
    simpa using derives_relaxed_assignment hts hequal he
  cases target with
  | name id token => exact Foresees.freshId_bind fun id => Foresees.pure _
  | get object property => exact Foresees.pure _
  | _ => exact Foresees.report_bind rfl (Foresees.pure _)

theorem binary_foresees (level : Level) :
    Foresees (Begins (level.Derives .relaxed)) (binary (fuel + 1) level)
      fun n => binary n level := by
  refine Foresees.fueled ?_ rfl
  simp only [Parser.binary]
  refine (ih.operand level).bind ((expressionsSound _ fuel).operand level) ?_ fun left => ?_
  · exact fun ts h => h.imp fun us e he => ⟨e, Level.derives_first he⟩
  · exact (ih.binaryRest level left).mono fun us h ts _ hts => h ts (Level.derives_first hts)

theorem binaryRest_foresees (level : Level) (left : Expr) :
    Foresees (fun us => ∀ ts, level.Derives .relaxed ts left.unnumbered →
      Begins (level.Derives .relaxed) (ts ++ us)) (binaryRest (fuel + 1) level left)
        fun n => binaryRest n level left := by
  refine Foresees.fueled ?_ rfl
  simp only [Parser.binaryRest]
  refine Foresees.acceptAny?_bind (fun operator => ?_) (Foresees.pure left)
  refine (ih.operand level).bind ((expressionsSound _ fuel).operand level) ?_ fun right => ?_
  · intro us h hop ts hts
    refine h.within (ts ++ [operator]) [] (by simp) fun us e he => ?_
    exact ⟨_, by simpa using Level.derives_more hts hop he⟩
  · refine (ih.binaryRest level _).mono fun vs h us _ hus hop ts hts => ?_
    have joined := Level.derives_more hts hop hus
    rw [← Level.unnumbered_join] at joined
    simpa using h _ joined

theorem operand_foresees (level : Level) :
    Foresees (Begins (level.DerivesOperand .relaxed)) (operand (fuel + 1) level)
      fun n => operand n level := by
  refine Foresees.fueled ?_ rfl
  simp only [Parser.operand, Level.DerivesOperand]
  cases level.tighter? with
  | some tighter => exact ih.binary tighter
  | none => exact ih.unary

theorem unary_foresees :
    Foresees (Begins (Derives .relaxed .unary)) (unary (fuel + 1)) unary := by
  refine Foresees.fueled ?_ rfl
  simp only [Parser.unary]
  refine Foresees.acceptAny?_bind (fun operator => ?_) ?_
  · refine ih.unary.bind_pure fun us h hop => ?_
    refine h.within [operator] [] (by simp) fun us e he => ?_
    exact ⟨_, by simpa using Derives.unaryOperator hop he⟩
  · refine ih.primary.bind (expressionsSound _ fuel).primary ?_ fun head => ?_
    · exact fun ts h => h.imp fun us e he => ⟨e, .unaryCall (.callFirst he)⟩
    · refine (ih.callRest head).mono fun us h ts _ hts => ?_
      exact (h ts (.callFirst hts)).imp fun us e he => ⟨e, .unaryCall he⟩

theorem callRest_foresees (head : Expr) :
    Foresees (fun us => ∀ ts, Derives .relaxed .call ts head.unnumbered →
      Begins (Derives .relaxed .call) (ts ++ us)) (callRest (fuel + 1) head)
        fun n => callRest n head := by
  refine Foresees.fueled ?_ rfl
  simp only [Parser.callRest]
  refine Foresees.accept_bind (fun l => Foresees.check_bind fun empty => ?_)
    (Foresees.accept_bind (fun dot => ?_) (Foresees.pure head))
  · cases empty with
    | true =>
      refine Foresees.expect_bind (fun hl ts hts => ?_) fun r => ?_
      · exact ⟨[bare .rightParen], _, by simpa using Derives.callNone hts hl rfl⟩
      · refine (ih.callRest _).mono fun us h hr hl ts hts => ?_
        simpa using h (ts ++ [l, r]) (.callNone hts hl hr)
    | false =>
      refine (ih.arguments 0).bind ((expressionsSound _ fuel).arguments 0) ?_ fun values => ?_
      · intro us h hl ts hts
        refine h.within (ts ++ [l]) [bare .rightParen] (by simp) fun us es hes => ?_
        have call := Derives.callSome hts hl hes (absurd · relaxed_not_strict)
          (bare_kind .rightParen)
        exact ⟨_, by simpa using call⟩
      refine Foresees.expect_bind ?_ fun r => ?_
      · rintro us _ ⟨hus, -⟩ hl ts hts
        have call := Derives.callSome hts hl hus (absurd · relaxed_not_strict)
          (bare_kind .rightParen)
        exact ⟨[bare .rightParen], _, by simpa using call⟩
      · refine (ih.callRest _).mono ?_
        rintro vs h hr us _ ⟨hus, -⟩ hl ts hts
        have call := Derives.callSome hts hl hus (absurd · relaxed_not_strict) hr
        simpa using h (ts ++ l :: (us ++ [r])) call
  · refine Foresees.expect_bind (fun hdot ts hts => ?_) fun property => ?_
    · have property := Derives.callProperty hts hdot (bare_kind .identifier)
      exact ⟨[bare .identifier], _, by simpa using property⟩
    · refine (ih.callRest _).mono fun us h hname hdot ts hts => ?_
      simpa using h (ts ++ [dot, property]) (.callProperty hts hdot hname)

theorem arguments_foresees (count : Nat) :
    Foresees (Begins (Derives .relaxed .arguments)) (arguments (fuel + 1) count)
      fun n => arguments n count := by
  have after : Foresees (Begins (Derives .relaxed .arguments))
      (do
        let first ← assignment fuel
        if ← accept .comma then
          return first :: (← arguments fuel (count + 1))
        else
          return [first])
      fun n => do
        let first ← assignment n
        if ← accept .comma then
          return first :: (← arguments n (count + 1))
        else
          return [first] := by
    refine ih.assignment.bind (expressionsSound _ fuel).assignment ?_ fun first => ?_
    · exact fun ts h => h.imp fun us e he => ⟨_, .lastArgument (.expression he)⟩
    · refine Foresees.accept_bind (fun comma => ?_) (Foresees.pure [first])
      refine (ih.arguments (count + 1)).bind_pure fun us h hcomma ts _ hts => ?_
      refine h.within (ts ++ [comma]) [] (by simp) fun us es hes => ?_
      exact ⟨_, by simpa using Derives.moreArguments (.expression hts) hcomma hes⟩
  refine Foresees.fueled ?_ rfl
  simp only [Parser.arguments]
  split
  · exact Foresees.peek_bind fun t => Foresees.report_bind rfl after
  · exact after

theorem primary_foresees :
    Foresees (Begins (Derives .relaxed .primary)) (primary (fuel + 1)) primary := by
  have something : Begins (Derives .relaxed .primary) [] :=
    ⟨[bare .kwNil], _, .nil rfl⟩
  refine Foresees.fueled ?_ rfl
  simp only [Parser.primary]
  refine Foresees.peek_bind fun t => ?_
  split
  · exact Foresees.accept_bind (fun t => Foresees.pure _) (Foresees.pure _)
  · rename_i fault constant
    refine Foresees.fail (fun t => ?_) something
    unfold constant? at constant
    split at constant <;> (try split at constant) <;> cases constant <;> rfl
  refine Foresees.accept?_bind (fun keyword => ?_) (Foresees.accept?_bind (fun name => ?_)
    (Foresees.accept?_bind (fun keyword => ?_) (Foresees.accept_bind (fun l => ?_) ?_)))
  · exact Foresees.freshId_bind fun id => Foresees.pure _
  · exact Foresees.freshId_bind fun id => Foresees.pure _
  · refine Foresees.expect_bind (fun hkeyword => ?_) fun dot => ?_
    · exact ⟨[bare .dot, bare .identifier], _, .super hkeyword rfl rfl⟩
    refine Foresees.expect_bind (fun hdot hkeyword => ?_) fun method => ?_
    · exact ⟨[bare .identifier], _, .super hkeyword hdot rfl⟩
    exact Foresees.freshId_bind fun id => Foresees.pure _
  · refine ih.assignment.bind (expressionsSound _ fuel).assignment ?_ fun inner => ?_
    · intro us h hl
      refine h.within [l] [bare .rightParen] (by simp) fun us e he => ?_
      have group := Derives.grouping hl (.expression he) (bare_kind .rightParen)
      exact ⟨_, group⟩
    · refine Foresees.expect_bind (fun ts _ hts hl => ?_) fun r => Foresees.pure _
      have group := Derives.grouping hl (.expression hts) (bare_kind .rightParen)
      exact ⟨[bare .rightParen], _, by simpa using group⟩
  · exact Foresees.fail (fun t => rfl) something

end Expressions

theorem expressionsForesee (fuel : Nat) : ExpressionsForesee fuel := by
  have sounds := expressionsSound .relaxed
  induction fuel with
  | zero =>
    exact ⟨.exhausted fun n => (sounds n).assignment.any,
      fun level => .exhausted fun n => ((sounds n).binary level).any,
      fun level left => .exhausted fun n => ((sounds n).binaryRest level left).any,
      fun level => .exhausted fun n => ((sounds n).operand level).any,
      .exhausted fun n => (sounds n).unary.any,
      fun head => .exhausted fun n => ((sounds n).callRest head).any,
      fun count => .exhausted fun n => ((sounds n).arguments count).any,
      .exhausted fun n => (sounds n).primary.any⟩
  | succ fuel ih =>
    exact ⟨assignment_foresees ih, binary_foresees ih, binaryRest_foresees ih, operand_foresees ih,
      unary_foresees ih, callRest_foresees ih, arguments_foresees ih, primary_foresees ih⟩

theorem expression_foresees :
    Foresees (Begins (Derives .relaxed .expression)) expression fun _ => expression := by
  refine Foresees.fuel_bind (p := fun n => assignment (expressionFuel n)) fun n => ?_
  refine ((expressionsForesee _).assignment.reindex expressionFuel).mono fun ts h => ?_
  exact h.imp fun us e he => ⟨e, .expression he⟩

theorem expressionBefore?_foresees (closing : TokenKind) :
    Foresees (Begins (Derives .relaxed .optional)) (expressionBefore? closing)
      fun _ => expressionBefore? closing := by
  refine Foresees.check_bind fun closed => ?_
  cases closed with
  | true => exact Foresees.pure none
  | false =>
    refine expression_foresees.bind_pure fun ts h => ?_
    exact h.imp fun us e he => ⟨_, .optionalSome he⟩

/-! ## The parts of statements -/

theorem parametersFrom_foresees (fuel count : Nat) :
    Foresees (Begins (Derives .relaxed .parameters)) (parametersFrom fuel count)
      fun n => parametersFrom n count := by
  induction fuel generalizing count with
  | zero => exact .exhausted fun n => (parametersFrom_sound n count).any
  | succ fuel ih =>
    have after : Foresees (Begins (Derives .relaxed .parameters))
        (do
          let first ← expect .identifier .parameterName
          if ← accept .comma then
            return first :: (← parametersFrom fuel (count + 1))
          else
            return [first])
        fun n => do
          let first ← expect .identifier .parameterName
          if ← accept .comma then
            return first :: (← parametersFrom n (count + 1))
          else
            return [first] := by
      refine Foresees.expect_bind ⟨[bare .identifier], _, .lastParameter rfl⟩ fun first => ?_
      refine Foresees.accept_bind (fun comma => ?_) (Foresees.pure [first])
      refine (ih (count + 1)).bind_pure fun us h hcomma hfirst => ?_
      refine h.within [first, comma] [] (by simp) fun us params hparams => ?_
      exact ⟨_, by simpa using Derives.moreParameters hfirst hcomma hparams⟩
    refine Foresees.fueled ?_ rfl
    simp only [parametersFrom]
    split
    · exact Foresees.peek_bind fun t => Foresees.report_bind rfl after
    · exact after

theorem parameters_foresees :
    Foresees (Begins (Derives .relaxed .parameters)) parameters fun _ => parameters := by
  refine Foresees.check_bind fun empty => ?_
  cases empty with
  | true => exact Foresees.pure []
  | false =>
    refine Foresees.fuel_bind (p := fun n => parametersFrom (n + 1) 0) fun n => ?_
    exact (parametersFrom_foresees (n + 1) 0).reindex (· + 1)

theorem variableDeclaration_foresees :
    Foresees (fun us => ∀ keyword : Token, keyword.kind = .kwVar →
      Begins (Derives .relaxed .varDecl) (keyword :: us))
      variableDeclaration fun _ => variableDeclaration := by
  refine Foresees.expect_bind (fun keyword hkeyword => ?_) fun name => ?_
  · exact ⟨[bare .identifier, bare .semicolon], _, .varDecl hkeyword rfl .noInitializer rfl⟩
  refine Foresees.accept_bind (fun equal => ?_) ?_
  · have value : Sound .relaxed (fun ts e _ => equal.kind = .equal →
        Derives .relaxed .initializer (equal :: ts) (e.map Expr.unnumbered))
        (some <$> expression) :=
      expression_sound.map fun ts e rest h hequal => .initializer hequal h
    refine expression_foresees.map.bind value ?_ fun e => ?_
    · intro us h hequal hname keyword hkeyword
      refine h.within [keyword, name, equal] [bare .semicolon] (by simp) fun us e he => ?_
      exact ⟨_, .varDecl hkeyword hname (.initializer hequal he) (bare_kind .semicolon)⟩
    · refine Foresees.expect_bind ?_ fun semicolon => Foresees.pure _
      intro ts _ hts hequal hname keyword hkeyword
      have declared := Derives.varDecl hkeyword hname (hts hequal) (bare_kind .semicolon)
      exact ⟨[bare .semicolon], _, by simpa using declared⟩
  · refine Foresees.expect_bind (fun hname keyword hkeyword => ?_) fun semicolon => Foresees.pure _
    exact ⟨[bare .semicolon], _, .varDecl hkeyword hname .noInitializer rfl⟩

theorem expressionStatement_foresees :
    Foresees (Begins (Derives .relaxed .exprStmt)) expressionStatement
      fun _ => expressionStatement := by
  refine expression_foresees.bind expression_sound ?_ fun e => ?_
  · intro ts h
    refine h.within [] [bare .semicolon] (by simp) fun us e he => ?_
    exact ⟨_, .exprStmt he (bare_kind .semicolon)⟩
  · refine Foresees.expect_bind (fun ts _ hts => ?_) fun semicolon => Foresees.pure _
    exact ⟨[bare .semicolon], _, by simpa using Derives.exprStmt hts (bare_kind .semicolon)⟩

/-- A statement, whether it ends in an `if` without `else` or not. -/
def AnyStatement (ts : List Token) (s : Stmt) : Prop :=
  ∃ o, Derives .relaxed (.statement o) ts s

theorem printStatement_foresees :
    Foresees (fun us => ∀ keyword : Token, keyword.kind = .kwPrint →
      Begins AnyStatement (keyword :: us)) printStatement fun _ => printStatement := by
  refine expression_foresees.bind expression_sound ?_ fun e => ?_
  · intro us h keyword hkeyword
    refine h.within [keyword] [bare .semicolon] (by simp) fun us e he => ?_
    exact ⟨_, false, .printStmt hkeyword he (bare_kind .semicolon)⟩
  · refine Foresees.expect_bind (fun ts _ hts keyword hkeyword => ?_) fun semicolon => .pure _
    have print := Derives.printStmt hkeyword hts (bare_kind .semicolon)
    exact ⟨[bare .semicolon], _, false, by simpa using print⟩

theorem returnStatement_foresees (keyword : Token) :
    Foresees (fun us => keyword.kind = .kwReturn → Begins AnyStatement (keyword :: us))
      (returnStatement keyword) fun _ => returnStatement keyword := by
  refine (expressionBefore?_foresees _).bind expressionBefore?_sound ?_ fun e => ?_
  · intro us h hkeyword
    refine h.within [keyword] [bare .semicolon] (by simp) fun us e he => ?_
    exact ⟨_, false, .returnStmt hkeyword he (bare_kind .semicolon)⟩
  · refine Foresees.expect_bind (fun ts _ hts hkeyword => ?_) fun semicolon => .pure _
    have returns := Derives.returnStmt hkeyword hts (bare_kind .semicolon)
    exact ⟨[bare .semicolon], _, false, by simpa using returns⟩

theorem forInitializer_foresees :
    Foresees (Begins (Derives .relaxed .forFirst)) forInitializer fun _ => forInitializer := by
  refine Foresees.accept_bind (fun semicolon => .pure _) (Foresees.accept_bind (fun keyword => ?_) ?_)
  · refine variableDeclaration_foresees.bind_pure fun us h hkeyword => ?_
    exact (h keyword hkeyword).imp fun us s hs => ⟨_, .forVariable hs⟩
  · refine expressionStatement_foresees.bind_pure fun us h => ?_
    exact h.imp fun us s hs => ⟨_, .forExpression hs⟩

/-! ## Phrases that complete others -/

theorem derives_bareStatement :
    Derives .relaxed (.statement false) [bare .kwNil, bare .semicolon]
      (.expression (.constant .nil)) :=
  .expressionStatement (.exprStmt derives_bareNil (bare_kind .semicolon))

theorem derives_bareBlock : Derives .relaxed .block [bare .leftBrace, bare .rightBrace] [] :=
  .block (bare_kind .leftBrace) .noDeclaration (bare_kind .rightBrace)

/-! ## Statements and declarations -/

/-- Under some fuel, the functions for declarations stop where their phrases cannot be continued. -/
structure StatementsForesee (fuel : Nat) : Prop where
  declaration : Foresees (Begins (Derives .relaxed .declaration)) (declaration fuel) declaration
  classDeclaration : Foresees (fun us => ∀ keyword : Token, keyword.kind = .kwClass →
    Begins (Derives .relaxed .declaration) (keyword :: us)) (classDeclaration fuel) classDeclaration
  methods : Foresees (Begins (Derives .relaxed .methods)) (methods fuel) methods
  function : ∀ role, Foresees (Begins (Derives .relaxed .function)) (function fuel role)
    fun n => function n role
  block : Foresees (fun us => ∀ l : Token, l.kind = .leftBrace →
    Begins (Derives .relaxed .block) (l :: us)) (block fuel) block
  declarations : Foresees (Begins (Derives .relaxed .declarations)) (declarations fuel) declarations
  statement : Foresees (Begins AnyStatement) (statement fuel) statement

section Statements

variable {fuel : Nat} (ih : StatementsForesee fuel)
include ih

theorem declaration_foresees :
    Foresees (Begins (Derives .relaxed .declaration)) (declaration (fuel + 1)) declaration := by
  refine Foresees.fueled ?_ rfl
  simp only [Parser.declaration]
  refine Foresees.recovering (Foresees.accept_bind (fun keyword => ?_)
    (Foresees.accept_bind (fun keyword => ?_) (Foresees.accept_bind (fun keyword => ?_) ?_)))
  · exact ih.classDeclaration.mono fun us h hkeyword => h keyword hkeyword
  · refine (ih.function _).bind_pure fun us h hkeyword => ?_
    refine h.within [keyword] [] (by simp) fun us f hf => ?_
    exact ⟨_, by simpa using Derives.funDecl hkeyword hf⟩
  · refine variableDeclaration_foresees.mono fun us h hkeyword => ?_
    exact (h keyword hkeyword).imp fun us s hs => ⟨s, .varDeclaration hs⟩
  · refine ih.statement.mono fun ts h => h.imp ?_
    rintro us s ⟨o, hs⟩
    exact ⟨s, .statement hs⟩

theorem classDeclaration_foresees :
    Foresees (fun us => ∀ keyword : Token, keyword.kind = .kwClass →
      Begins (Derives .relaxed .declaration) (keyword :: us)) (classDeclaration (fuel + 1))
        classDeclaration := by
  -- the part from the brace on, behind the keyword, the name and the tokens of the superclass
  have body : ∀ (name : Token) (superclass : Option Expr) (before : List Token),
      Foresees (fun us => ∀ keyword : Token, keyword.kind = .kwClass → name.kind = .identifier →
          Derives .relaxed .superclass before (superclass.map Expr.unnumbered) →
          Begins (Derives .relaxed .declaration) (keyword :: name :: (before ++ us)))
        (do
          let _ ← expect .leftBrace .classBodyStart
          let members ← methods fuel
          let _ ← expect .rightBrace .classBodyEnd
          return Stmt.classDecl name superclass members)
        fun n => do
          let _ ← expect .leftBrace .classBodyStart
          let members ← methods n
          let _ ← expect .rightBrace .classBodyEnd
          return Stmt.classDecl name superclass members := by
    intro name superclass before
    refine Foresees.expect_bind (fun keyword hkeyword hname hsuper => ?_) fun l => ?_
    · have declared := Derives.classDecl hkeyword hname hsuper (bare_kind .leftBrace) .noMethod
        (bare_kind .rightBrace)
      exact (Begins.of declared).shorten (by simp)
    refine ih.methods.bind (statementsSound _ fuel).methods ?_ fun members => ?_
    · intro us h hl keyword hkeyword hname hsuper
      refine h.within (keyword :: name :: (before ++ [l])) [bare .rightBrace] (by simp)
        fun us fs hfs => ?_
      have declared := Derives.classDecl hkeyword hname hsuper hl hfs (bare_kind .rightBrace)
      exact ⟨_, by simpa using declared⟩
    refine Foresees.expect_bind ?_ fun r => .pure _
    intro us _ hus hl keyword hkeyword hname hsuper
    have declared := Derives.classDecl hkeyword hname hsuper hl hus (bare_kind .rightBrace)
    exact (Begins.of declared).shorten (by simp)
  refine Foresees.fueled ?_ rfl
  simp only [Parser.classDeclaration]
  refine Foresees.expect_bind (fun keyword hkeyword => ?_) fun name => ?_
  · have declared := Derives.classDecl (d := .relaxed) hkeyword (bare_kind .identifier)
      .noSuperclass (bare_kind .leftBrace) .noMethod (bare_kind .rightBrace)
    exact (Begins.of declared).shorten (by simp)
  refine Foresees.accept_bind (fun less => ?_) ?_
  · refine Foresees.expect_bind (fun hless hname keyword hkeyword => ?_) fun parent => ?_
    · have declared := Derives.classDecl (d := .relaxed) hkeyword hname
        (.superclass hless (bare_kind .identifier)) (bare_kind .leftBrace) .noMethod
        (bare_kind .rightBrace)
      exact (Begins.of declared).shorten (by simp)
    refine Foresees.freshId_bind fun id => (body name (Expr.name id parent) [less, parent]).mono ?_
    intro us h hparent hless hname keyword hkeyword
    exact h keyword hkeyword hname (.superclass hless hparent)
  · refine (body name none []).mono fun us h hname keyword hkeyword => ?_
    exact h keyword hkeyword hname .noSuperclass

theorem methods_foresees :
    Foresees (Begins (Derives .relaxed .methods)) (methods (fuel + 1)) methods := by
  refine Foresees.fueled ?_ rfl
  simp only [Parser.methods]
  refine Foresees.check_bind fun closed => Foresees.atEnd_bind fun ended => ?_
  split
  · exact Foresees.pure []
  refine (ih.function _).bind ((statementsSound _ fuel).function _) ?_ fun first => ?_
  · intro ts h
    refine h.within [] [] (by simp) fun us f hf => ?_
    exact ⟨_, by simpa using Derives.moreMethods hf .noMethod⟩
  · refine ih.methods.bind_pure fun us h ts _ hts => ?_
    refine h.within ts [] (by simp) fun us fs hfs => ?_
    exact ⟨_, by simpa using Derives.moreMethods hts hfs⟩

omit ih in
/-- The parameters may be missing. -/
theorem derives_function {name l r : Token} {ts us params : List Token} {body : List Stmt}
    (hname : name.kind = .identifier) (hl : l.kind = .leftParen)
    (hparams : ts = [] ∧ params = [] ∨ Derives .relaxed .parameters ts params ∧
      (Dialect.relaxed.strict = true → params.length ≤ 255))
    (hr : r.kind = .rightParen) (hbody : Derives .relaxed .block us body) :
    ∃ f, Derives .relaxed .function (name :: l :: (ts ++ r :: us)) f := by
  rcases hparams with ⟨rfl, rfl⟩ | ⟨hts, limit⟩
  · exact ⟨_, .functionNone hname hl hr hbody⟩
  · exact ⟨_, .functionSome hname hl hts limit hr hbody⟩

theorem function_foresees (role : FunctionRole) :
    Foresees (Begins (Derives .relaxed .function)) (function (fuel + 1) role)
      fun n => function n role := by
  have bare_function := derives_function (bare_kind .identifier) (bare_kind .leftParen)
    (.inl ⟨rfl, rfl⟩) (bare_kind .rightParen) derives_bareBlock
  refine Foresees.fueled ?_ rfl
  simp only [Parser.function]
  refine Foresees.expect_bind ?_ fun name => Foresees.expect_bind (fun hname => ?_) fun l => ?_
  · obtain ⟨f, declared⟩ := bare_function
    exact (Begins.of declared).shorten (by simp)
  · obtain ⟨f, declared⟩ := derives_function hname (bare_kind .leftParen) (.inl ⟨rfl, rfl⟩)
      (bare_kind .rightParen) derives_bareBlock
    exact (Begins.of declared).shorten (by simp)
  refine parameters_foresees.bind parameters_sound ?_ fun params => ?_
  · intro us h hl hname
    refine h.within [name, l] [bare .rightParen, bare .leftBrace, bare .rightBrace] (by simp) ?_
    intro us params hparams
    exact derives_function hname hl (.inr ⟨hparams, (absurd · relaxed_not_strict)⟩)
      (bare_kind .rightParen) derives_bareBlock
  refine Foresees.expect_bind (fun ts _ hts hl hname => ?_) fun r => ?_
  · obtain ⟨f, declared⟩ := derives_function hname hl hts (bare_kind .rightParen) derives_bareBlock
    exact (Begins.of declared).shorten (by simp)
  refine Foresees.expect_bind (fun hr ts _ hts hl hname => ?_) fun brace => ?_
  · obtain ⟨f, declared⟩ := derives_function hname hl hts hr derives_bareBlock
    exact (Begins.of declared).shorten (by simp)
  · refine ih.block.bind_pure fun us h hbrace hr ts _ hts hl hname => ?_
    refine (h brace hbrace).within (name :: l :: (ts ++ [r])) [] (by simp) fun us body hbody => ?_
    simpa using derives_function hname hl hts hr hbody

theorem block_foresees :
    Foresees (fun us => ∀ l : Token, l.kind = .leftBrace →
      Begins (Derives .relaxed .block) (l :: us)) (block (fuel + 1)) block := by
  refine Foresees.fueled ?_ rfl
  simp only [Parser.block]
  refine ih.declarations.bind (statementsSound _ fuel).declarations ?_ fun body => ?_
  · intro us h l hl
    refine h.within [l] [bare .rightBrace] (by simp) fun us ss hss => ?_
    exact ⟨_, .block hl hss (bare_kind .rightBrace)⟩
  · refine Foresees.expect_bind (fun ts _ hts l hl => ?_) fun r => .pure _
    exact (Begins.of (Derives.block hl hts (bare_kind .rightBrace))).shorten (by simp)

theorem declarations_foresees :
    Foresees (Begins (Derives .relaxed .declarations)) (declarations (fuel + 1)) declarations := by
  refine Foresees.fueled ?_ rfl
  simp only [Parser.declarations]
  refine Foresees.check_bind fun closed => Foresees.atEnd_bind fun ended => ?_
  split
  · exact Foresees.pure []
  refine ih.declaration.bind (statementsSound _ fuel).declaration ?_ fun first => ?_
  · intro ts h
    refine h.within [] [] (by simp) fun us s hs => ?_
    exact ⟨_, by simpa using Derives.moreDeclarations hs .noDeclaration⟩
  · refine ih.declarations.bind_pure ?_
    rintro us h ts _ ⟨s, rfl, hts⟩
    refine h.within ts [] (by simp) fun us ss hss => ?_
    exact ⟨_, by simpa using Derives.moreDeclarations hts hss⟩

/-- A `for` statement after its keyword. -/
theorem forStatement_foresees (keyword : Token) :
    Foresees (fun us => keyword.kind = .kwFor → Begins AnyStatement (keyword :: us))
      (do
        let _ ← expect .leftParen .forStart
        let initializer ← forInitializer
        let condition ← expressionBefore? .semicolon
        let _ ← expect .semicolon .loopConditionEnd
        let increment ← expressionBefore? .rightParen
        let _ ← expect .rightParen .forClausesEnd
        return Stmt.forLoop initializer condition increment (← statement fuel))
      fun n => do
        let _ ← expect .leftParen .forStart
        let initializer ← forInitializer
        let condition ← expressionBefore? .semicolon
        let _ ← expect .semicolon .loopConditionEnd
        let increment ← expressionBefore? .rightParen
        let _ ← expect .rightParen .forClausesEnd
        return Stmt.forLoop initializer condition increment (← statement n) := by
  refine Foresees.expect_bind (fun hkeyword => ?_) fun l => ?_
  · have loop := Derives.forStmt hkeyword (bare_kind .leftParen)
      (.forNothing (bare_kind .semicolon)) .optionalNone (bare_kind .semicolon) .optionalNone
      (bare_kind .rightParen) derives_bareStatement
    have formed : AnyStatement _ _ := ⟨_, loop⟩
    exact (Begins.of formed).shorten (by simp)
  refine forInitializer_foresees.bind forInitializer_sound ?_ fun first => ?_
  · intro us h hl hkeyword
    refine h.within [keyword, l] [bare .semicolon, bare .rightParen, bare .kwNil, bare .semicolon]
      (by simp) ?_
    intro is first his
    exact ⟨_, _, .forStmt hkeyword hl his .optionalNone (bare_kind .semicolon) .optionalNone
      (bare_kind .rightParen) derives_bareStatement⟩
  refine (expressionBefore?_foresees _).bind expressionBefore?_sound ?_ fun condition => ?_
  · intro us h is _ his hl hkeyword
    refine h.within (keyword :: l :: is)
      [bare .semicolon, bare .rightParen, bare .kwNil, bare .semicolon] (by simp)
      fun cs condition hcs => ?_
    have loop := Derives.forStmt hkeyword hl his hcs (bare_kind .semicolon) .optionalNone
      (bare_kind .rightParen) derives_bareStatement
    exact ⟨_, _, by simpa using loop⟩
  refine Foresees.expect_bind (fun cs _ hcs is _ his hl hkeyword => ?_) fun semicolon => ?_
  · have loop := Derives.forStmt hkeyword hl his hcs (bare_kind .semicolon) .optionalNone
      (bare_kind .rightParen) derives_bareStatement
    have formed : AnyStatement _ _ := ⟨_, loop⟩
    exact (Begins.of formed).shorten (by simp)
  refine (expressionBefore?_foresees _).bind expressionBefore?_sound ?_ fun increment => ?_
  · intro us h hsemicolon cs _ hcs is _ his hl hkeyword
    refine h.within (keyword :: l :: (is ++ (cs ++ [semicolon])))
      [bare .rightParen, bare .kwNil, bare .semicolon] (by simp) fun ss increment hss => ?_
    have loop := Derives.forStmt hkeyword hl his hcs hsemicolon hss (bare_kind .rightParen)
      derives_bareStatement
    exact ⟨_, _, by simpa using loop⟩
  refine Foresees.expect_bind ?_ fun r => ?_
  · intro ss _ hss hsemicolon cs _ hcs is _ his hl hkeyword
    have loop := Derives.forStmt hkeyword hl his hcs hsemicolon hss (bare_kind .rightParen)
      derives_bareStatement
    have formed : AnyStatement _ _ := ⟨_, loop⟩
    exact (Begins.of formed).shorten (by simp)
  · refine ih.statement.bind_pure fun us h hr ss _ hss hsemicolon cs _ hcs is _ his hl hkeyword => ?_
    refine h.within (keyword :: l :: (is ++ (cs ++ semicolon :: (ss ++ [r])))) [] (by simp) ?_
    rintro bs body ⟨o, hbs⟩
    have loop := Derives.forStmt hkeyword hl his hcs hsemicolon hss hr hbs
    exact ⟨_, _, by simpa using loop⟩

omit ih in
/-- The condition of a statement, from the keyword up to what follows the parenthesis. -/
theorem condition_foresees {keyword : Token} {kind : TokenKind} {what closing : Expected}
    {f : Expr → Parser Stmt} {g : Nat → Expr → Parser Stmt}
    (rule : ∀ {l r : Token} {cs ts : List Token} {condition : Expr} {s : Stmt} {o : Bool},
      keyword.kind = kind → l.kind = .leftParen → Derives .relaxed .expression cs condition →
      r.kind = .rightParen → Derives .relaxed (.statement o) ts s →
      ∃ s', AnyStatement (keyword :: l :: (cs ++ r :: ts)) s')
    (body : ∀ condition, Foresees (fun us => ∀ (l r : Token) (cs : List Token),
      keyword.kind = kind → l.kind = .leftParen →
      Derives .relaxed .expression cs condition.unnumbered → r.kind = .rightParen →
      Begins AnyStatement (keyword :: l :: (cs ++ r :: us))) (f condition) fun n => g n condition) :
    Foresees (fun us => keyword.kind = kind → Begins AnyStatement (keyword :: us))
      (do
        let _ ← expect .leftParen what
        let condition ← expression
        let _ ← expect .rightParen closing
        f condition)
      fun n => (do
        let _ ← expect .leftParen what
        let condition ← expression
        let _ ← expect .rightParen closing
        g n condition) := by
  refine Foresees.expect_bind (fun hkeyword => ?_) fun l => ?_
  · obtain ⟨s, formed⟩ := rule hkeyword (bare_kind .leftParen) derives_bareNil
      (bare_kind .rightParen) derives_bareStatement
    exact (Begins.of formed).shorten (by simp)
  refine expression_foresees.bind expression_sound ?_ fun condition => ?_
  · intro us h hl hkeyword
    refine h.within [keyword, l] [bare .rightParen, bare .kwNil, bare .semicolon] (by simp) ?_
    exact fun cs condition hcs =>
      rule hkeyword hl hcs (bare_kind .rightParen) derives_bareStatement
  refine Foresees.expect_bind (fun cs _ hcs hl hkeyword => ?_) fun r => ?_
  · obtain ⟨s, formed⟩ := rule hkeyword hl hcs (bare_kind .rightParen) derives_bareStatement
    exact (Begins.of formed).shorten (by simp)
  · exact (body condition).mono fun us h hr cs _ hcs hl hkeyword => h l r cs hkeyword hl hcs hr

theorem whileStatement_foresees (keyword : Token) :
    Foresees (fun us => keyword.kind = .kwWhile → Begins AnyStatement (keyword :: us))
      (do
        let _ ← expect .leftParen .whileStart
        let condition ← expression
        let _ ← expect .rightParen .whileConditionEnd
        return Stmt.whileLoop condition (← statement fuel))
      fun n => do
        let _ ← expect .leftParen .whileStart
        let condition ← expression
        let _ ← expect .rightParen .whileConditionEnd
        return Stmt.whileLoop condition (← statement n) := by
  refine condition_foresees ?_ fun condition => ?_
  · exact fun hkeyword hl hcs hr hts => ⟨_, _, .whileStmt hkeyword hl hcs hr hts⟩
  · refine ih.statement.bind_pure fun us h l r cs hkeyword hl hcs hr => ?_
    refine h.within (keyword :: l :: (cs ++ [r])) [] (by simp) ?_
    rintro ts s ⟨o, hts⟩
    exact ⟨_, o, by simpa using Derives.whileStmt hkeyword hl hcs hr hts⟩

theorem ifStatement_foresees (keyword : Token) :
    Foresees (fun us => keyword.kind = .kwIf → Begins AnyStatement (keyword :: us))
      (do
        let _ ← expect .leftParen .ifStart
        let condition ← expression
        let _ ← expect .rightParen .ifConditionEnd
        let thenBranch ← statement fuel
        if ← accept .kwElse then
          return Stmt.ifElse condition thenBranch (← statement fuel)
        else
          return Stmt.ifThen condition thenBranch)
      fun n => do
        let _ ← expect .leftParen .ifStart
        let condition ← expression
        let _ ← expect .rightParen .ifConditionEnd
        let thenBranch ← statement n
        if ← accept .kwElse then
          return Stmt.ifElse condition thenBranch (← statement n)
        else
          return Stmt.ifThen condition thenBranch := by
  refine condition_foresees ?_ fun condition => ?_
  · exact fun hkeyword hl hcs hr hts => ⟨_, _, .ifThen hkeyword hl hcs hr hts⟩
  refine ih.statement.bind (statementsSound _ fuel).statement ?_ fun thenBranch => ?_
  · intro us h l r cs hkeyword hl hcs hr
    refine h.within (keyword :: l :: (cs ++ [r])) [] (by simp) ?_
    rintro ts s ⟨o, hts⟩
    exact ⟨_, true, by simpa using Derives.ifThen hkeyword hl hcs hr hts⟩
  · refine Foresees.accept_bind (fun els => ?_) (Foresees.pure _)
    refine ih.statement.bind_pure ?_
    rintro us h hels ts _ ⟨o, hts, -⟩ l r cs hkeyword hl hcs hr
    refine h.within (keyword :: l :: (cs ++ r :: (ts ++ [els]))) [] (by simp) ?_
    rintro es s ⟨p, hes⟩
    have joined := Derives.ifElse hkeyword hl hcs hr hts (fun nearest => nomatch nearest) hels hes
    exact ⟨_, p, by simpa using joined⟩

theorem statement_foresees :
    Foresees (Begins AnyStatement) (statement (fuel + 1)) statement := by
  refine Foresees.fueled ?_ rfl
  simp only [Parser.statement]
  refine Foresees.accept_bind (fun keyword => forStatement_foresees ih keyword) ?_
  refine Foresees.accept_bind (fun keyword => ifStatement_foresees ih keyword) ?_
  refine Foresees.accept_bind (fun keyword => ?_) (Foresees.accept?_bind (fun keyword => ?_) ?_)
  · exact printStatement_foresees.mono fun us h hkeyword => h keyword hkeyword
  · exact returnStatement_foresees keyword
  refine Foresees.accept_bind (fun keyword => whileStatement_foresees ih keyword) ?_
  refine Foresees.accept_bind (fun l => ?_) ?_
  · refine ih.block.bind_pure fun us h hl => (h l hl).imp fun us ss hss => ?_
    exact ⟨_, false, .blockStatement hss⟩
  · refine expressionStatement_foresees.mono fun ts h => h.imp fun us s hs => ?_
    exact ⟨s, false, .expressionStatement hs⟩

end Statements

theorem statementsForesee (fuel : Nat) : StatementsForesee fuel := by
  have sounds := statementsSound .relaxed
  induction fuel with
  | zero =>
    exact ⟨.exhausted fun n => (sounds n).declaration.any,
      .exhausted fun n => (sounds n).classDeclaration.any,
      .exhausted fun n => (sounds n).methods.any,
      fun role => .exhausted fun n => ((sounds n).function role).any,
      .exhausted fun n => (sounds n).block.any,
      .exhausted fun n => (sounds n).declarations.any,
      .exhausted fun n => (sounds n).statement.any⟩
  | succ fuel ih =>
    exact ⟨declaration_foresees ih, classDeclaration_foresees ih, methods_foresees ih,
      function_foresees ih, block_foresees ih, declarations_foresees ih, statement_foresees ih⟩

/-! ## Programs -/

theorem program_foresees (fuel : Nat) :
    Foresees (Begins (Derives .relaxed .declarations)) (program fuel) program := by
  induction fuel with
  | zero => exact .exhausted fun n => (program_sound n).any
  | succ fuel ih =>
    refine Foresees.fueled ?_ rfl
    simp only [Parser.program]
    refine Foresees.atEnd_bind fun ended => ?_
    cases ended with
    | true => exact Foresees.pure []
    | false =>
      refine (statementsForesee fuel).declaration.bind (statementsSound _ fuel).declaration ?_ ?_
      · intro ts h
        refine h.within [] [] (by simp) fun us s hs => ?_
        exact ⟨_, by simpa using Derives.moreDeclarations hs .noDeclaration⟩
      · intro first
        refine ih.bind_pure ?_
        rintro us h ts _ ⟨s, rfl, hts⟩
        refine h.within ts [] (by simp) fun us ss hss => ?_
        exact ⟨_, by simpa using Derives.moreDeclarations hts hss⟩

end ClassScript.Parser
