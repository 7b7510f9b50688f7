import ClassScript.Proofs.Grammar.Loops
import ClassScript.Proofs.Grammar.Reading

set_option autoImplicit false

/-!
# What is read follows the grammar

Every function of the parser, in the order in which they call each other: whenever it yields a tree
without reporting anything its dialect does not tolerate, the tokens it took derive that tree.  The
functions that count down a fuel are handled together, by induction on the fuel.
-/

namespace ClassScript.Parser

open Grammar

variable {d : Dialect}

/-! ## Levels of binary operators -/

/-- The rule of a level of operators. -/
@[reducible] def Level.Derives (d : Dialect) : Level → List Token → Expr → Prop
  | .or => Grammar.Derives d .logicOr
  | .and => Grammar.Derives d .logicAnd
  | .equality => Grammar.Derives d .equality
  | .comparison => Grammar.Derives d .comparison
  | .term => Grammar.Derives d .term
  | .factor => Grammar.Derives d .factor

/-- The rule of the operands of a level. -/
@[reducible] def Level.DerivesOperand (d : Dialect) (level : Level) : List Token → Expr → Prop :=
  match level.tighter? with
  | some tighter => tighter.Derives d
  | none => Grammar.Derives d .unary

theorem Level.derives_first {level : Level} {ts : List Token} {e : Expr}
    (h : level.DerivesOperand d ts e) : level.Derives d ts e := by
  cases level with
  | or => exact .logicOrFirst h
  | and => exact .logicAndFirst h
  | equality => exact .equalityFirst h
  | comparison => exact .comparisonFirst h
  | term => exact .termFirst h
  | factor => exact .factorFirst h

theorem Level.derives_more {level : Level} {ts us : List Token} {op : Token} {l r : Expr}
    (hl : level.Derives d ts l) (hop : op.kind ∈ level.operators)
    (hr : level.DerivesOperand d us r) :
    level.Derives d (ts ++ op :: us) (level.join l op r) := by
  cases level with
  | or => exact .logicOrMore hl (by simpa [Level.operators] using hop) hr
  | and => exact .logicAndMore hl (by simpa [Level.operators] using hop) hr
  | equality => exact .equalityMore hl hop hr
  | comparison => exact .comparisonMore hl hop hr
  | term => exact .termMore hl hop hr
  | factor => exact .factorMore hl hop hr

theorem Level.unnumbered_join (level : Level) (l r : Expr) (op : Token) :
    (level.join l op r).unnumbered = level.join l.unnumbered op r.unnumbered := by
  cases level <;> rfl

/-! ## Targets of assignments -/

/-- An expression that is not made by an operator was read as a call. -/
theorem call_of_name {ts : List Token} {id : Nat} {t : Token}
    (h : Derives d .logicOr ts (.name id t)) : Derives d .call ts (.name id t) := by
  cases h with | logicOrFirst h =>
  cases h with | logicAndFirst h =>
  cases h with | equalityFirst h =>
  cases h with | comparisonFirst h =>
  cases h with | termFirst h =>
  cases h with | factorFirst h =>
  cases h with | unaryCall h => exact h

theorem call_of_get {ts : List Token} {object : Expr} {property : Token}
    (h : Derives d .logicOr ts (.get object property)) :
    Derives d .call ts (.get object property) := by
  cases h with | logicOrFirst h =>
  cases h with | logicAndFirst h =>
  cases h with | equalityFirst h =>
  cases h with | comparisonFirst h =>
  cases h with | termFirst h =>
  cases h with | factorFirst h =>
  cases h with | unaryCall h => exact h

/-- A name is assigned to by its one token. -/
theorem derives_assign {ts us : List Token} {id : Nat} {t equal : Token} {e : Expr}
    (h : Derives d .logicOr ts (.name id t)) (hequal : equal.kind = .equal)
    (he : Derives d .assignment us e) :
    Derives d .assignment (ts ++ equal :: us) (.assign 0 t e) := by
  cases call_of_name h with | callFirst h =>
  cases h with | name ht => exact .assignName ht hequal he

/-- A property is assigned to by the expression that would read it. -/
theorem derives_set {ts us : List Token} {object : Expr} {property equal : Token} {e : Expr}
    (h : Derives d .logicOr ts (.get object property)) (hequal : equal.kind = .equal)
    (he : Derives d .assignment us e) :
    Derives d .assignment (ts ++ equal :: us) (.set object property e) := by
  cases call_of_get h with
  | callFirst h => cases h
  | callProperty hobject hdot hname =>
    simpa using Derives.assignProperty hobject hdot hname hequal he

/-! ## Expressions -/

/-- The tokens a step takes derive the expression that it yields. -/
abbrev SoundExpr (d : Dialect) (rule : List Token → Expr → Prop) (p : Parser Expr) : Prop :=
  Sound d (fun ts e _ => rule ts e.unnumbered) p

/-- The functions for expressions, under some fuel. -/
structure ExpressionsSound (d : Dialect) (fuel : Nat) : Prop where
  assignment : SoundExpr d (Derives d .assignment) (assignment fuel)
  binary : ∀ level, SoundExpr d (level.Derives d) (binary fuel level)
  binaryRest : ∀ level left,
    Sound d (fun us e _ => ∀ ts, level.Derives d ts left.unnumbered →
      level.Derives d (ts ++ us) e.unnumbered) (binaryRest fuel level left)
  operand : ∀ level, SoundExpr d (level.DerivesOperand d) (operand fuel level)
  unary : SoundExpr d (Derives d .unary) (unary fuel)
  callRest : ∀ head,
    Sound d (fun us e _ => ∀ ts, Derives d .call ts head.unnumbered →
      Derives d .call (ts ++ us) e.unnumbered) (callRest fuel head)
  arguments : ∀ count,
    Sound d (fun ts es _ => Derives d .arguments ts (Expr.unnumberedAll es) ∧
      (d.strict = true → count + es.length ≤ 255)) (arguments fuel count)
  primary : SoundExpr d (Derives d .primary) (primary fuel)

theorem assignment_sound {fuel : Nat} (ih : ExpressionsSound d fuel) :
    SoundExpr d (Derives d .assignment) (assignment (fuel + 1)) := by
  rw [Parser.assignment]
  refine (ih.binary .or).bind fun target => ?_
  refine Sound.accept?_bind (fun equal hequal => ?_) ?_
  · refine ih.assignment.bind fun value => ?_
    cases target with
    | name id token =>
      refine Sound.quiet_bind quiet_freshId fun n => Sound.pure fun rest us hus ts hts => ?_
      rw [List.append_nil]
      exact derives_assign hts hequal hus
    | get object property =>
      refine Sound.pure fun rest us hus ts hts => ?_
      rw [List.append_nil]
      exact derives_set hts hequal hus
    | _ =>
      refine Sound.report_bind (Sound.pure fun rest tolerated us hus ts hts => ?_)
      rw [List.append_nil]
      exact .assignOther tolerated.1 hts rfl hequal hus
  · refine Sound.pure fun rest _ ts hts => ?_
    rw [List.append_nil]
    exact .assignNothing hts

theorem binary_sound {fuel : Nat} (ih : ExpressionsSound d fuel) (level : Level) :
    SoundExpr d (level.Derives d) (binary (fuel + 1) level) := by
  rw [Parser.binary]
  refine (ih.operand level).bind fun left => (ih.binaryRest level left).mono ?_
  intro us e rest h ts hts
  exact h ts (Level.derives_first hts)

theorem binaryRest_sound {fuel : Nat} (ih : ExpressionsSound d fuel) (level : Level)
    (left : Expr) :
    Sound d (fun us e _ => ∀ ts, level.Derives d ts left.unnumbered →
      level.Derives d (ts ++ us) e.unnumbered) (binaryRest (fuel + 1) level left) := by
  rw [Parser.binaryRest]
  refine Sound.acceptAny?_bind (fun op hop => ?_) ?_
  · refine (ih.operand level).bind fun right => (ih.binaryRest level _).mono ?_
    intro vs e rest h us hus ts hts
    have joined := h (ts ++ op :: us) (by
      rw [Level.unnumbered_join]
      exact Level.derives_more hts hop hus)
    simpa using joined
  · refine Sound.pure fun rest _ ts hts => ?_
    rwa [List.append_nil]

theorem operand_sound {fuel : Nat} (ih : ExpressionsSound d fuel) (level : Level) :
    SoundExpr d (level.DerivesOperand d) (operand (fuel + 1) level) := by
  rw [Parser.operand, Level.DerivesOperand]
  cases level.tighter? with
  | some tighter => exact ih.binary tighter
  | none => exact ih.unary

theorem unary_sound {fuel : Nat} (ih : ExpressionsSound d fuel) :
    SoundExpr d (Derives d .unary) (unary (fuel + 1)) := by
  rw [Parser.unary]
  refine Sound.acceptAny?_bind (fun op hop => ?_) ?_
  · exact ih.unary.bind_pure fun ts e rest h => .unaryOperator hop h
  · refine ih.primary.bind fun head => (ih.callRest head).mono ?_
    intro us e rest h ts hts _
    exact .unaryCall (h ts (.callFirst hts))

theorem callRest_sound {fuel : Nat} (ih : ExpressionsSound d fuel) (head : Expr) :
    Sound d (fun us e _ => ∀ ts, Derives d .call ts head.unnumbered →
      Derives d .call (ts ++ us) e.unnumbered) (callRest (fuel + 1) head) := by
  rw [Parser.callRest]
  refine Sound.accept_bind (fun l hl => ?_) (Sound.accept_bind (fun dot hdot => ?_) ?_)
  · refine Sound.quiet_bind (quiet_check _) fun empty => ?_
    cases empty with
    | true =>
      refine Sound.expect_bind fun r hr => (ih.callRest _).mono ?_
      intro us e rest h ts hts
      simpa using h (ts ++ [l, r]) (.callNone hts hl hr)
    | false =>
      refine (ih.arguments 0).bind fun values => Sound.expect_bind fun r hr =>
        (ih.callRest _).mono ?_
      rintro vs e rest h us ⟨hus, limit⟩ ts hts
      have few : d.strict = true → (Expr.unnumberedAll values).length ≤ 255 := by
        intro strict
        have := limit strict
        rw [Expr.length_unnumberedAll]
        omega
      simpa using h (ts ++ l :: (us ++ [r])) (.callSome hts hl hus few hr)
  · refine Sound.expect_bind fun name hname => (ih.callRest _).mono ?_
    intro us e rest h _ ts hts
    simpa using h (ts ++ [dot, name]) (.callProperty hts hdot hname)
  · refine Sound.pure fun rest _ _ ts hts => ?_
    rwa [List.append_nil]

theorem arguments_sound {fuel : Nat} (ih : ExpressionsSound d fuel) (count : Nat) :
    Sound d (fun ts es _ => Derives d .arguments ts (Expr.unnumberedAll es) ∧
      (d.strict = true → count + es.length ≤ 255)) (arguments (fuel + 1) count) := by
  -- the part after the check of the limit, which is the same whether the limit is reached or not
  have after : Sound d (fun ts es _ => Derives d .arguments ts (Expr.unnumberedAll es) ∧
      (d.strict = true → count < parameterLimit → count + es.length ≤ 255))
      (do
        let first ← assignment fuel
        if ← accept .comma then
          return first :: (← arguments fuel (count + 1))
        else
          return [first]) := by
    refine ih.assignment.bind fun first => Sound.accept_bind (fun comma hcomma => ?_) ?_
    · refine (ih.arguments (count + 1)).bind_pure ?_
      rintro us es rest ⟨hus, limit⟩ ts hts
      refine ⟨.moreArguments (.expression hts) hcomma hus, fun strict _ => ?_⟩
      have := limit strict
      simp only [List.length_cons]
      omega
    · refine Sound.pure fun rest _ ts hts => ?_
      rw [List.append_nil]
      refine ⟨.lastArgument (.expression hts), fun _ below => ?_⟩
      simp only [List.length_singleton]
      exact below
  rw [Parser.arguments]
  split
  · refine Sound.peek_bind fun t => Sound.report_bind (after.mono ?_)
    rintro ts es rest ⟨hts, -⟩ tolerated _ _
    exact ⟨hts, fun strict => absurd strict tolerated.lax⟩
  · rename_i below
    refine after.mono ?_
    rintro ts es rest ⟨hts, limit⟩
    exact ⟨hts, fun strict => limit strict (Nat.lt_of_not_le below)⟩

/-- The token of a constant is read as that constant. -/
theorem derives_constant {t : Token} {value : Constant} (h : constant? t = some (.ok value)) :
    Derives d .primary [t] (.constant value) := by
  unfold constant? at h
  split at h
  case h_1 kind => cases h; exact .false kind
  case h_2 kind => cases h; exact .true kind
  case h_3 kind => cases h; exact .nil kind
  case h_4 kind =>
    split at h <;> cases h
    · rename_i literal
      exact .literal (.inl kind) literal
    · rename_i literal
      exact .literal (.inl kind) literal
  case h_5 kind =>
    split at h <;> cases h
    · rename_i literal
      exact .literal (.inr kind) literal
    · rename_i literal
      exact .literal (.inr kind) literal
  case h_6 => cases h

theorem constant?_of_end {t : Token} (h : t.kind = .endOfSource) : constant? t = none := by
  simp [constant?, h]

theorem primary_sound {fuel : Nat} (ih : ExpressionsSound d fuel) :
    SoundExpr d (Derives d .primary) (primary (fuel + 1)) := by
  rw [Parser.primary]
  refine Sound.peek_bind fun t => ?_
  split
  · rename_i value hvalue
    refine Sound.accept_bind (fun t' ht' => Sound.pure fun rest next _ => ?_)
      (Sound.pure fun rest stops next last => ?_)
    · obtain rfl : t' = t := next t' (by simp)
      exact derives_constant hvalue
    · -- the token that was looked at is there to be taken
      cases rest with
      | nil => simp [constant?_of_end (last rfl)] at hvalue
      | cons r rest =>
        obtain rfl : r = t := next r (by simp)
        exact absurd (by simp) (stops r (by simp))
  · rename_i fault hfault
    refine Sound.fail fun t' => ?_
    unfold constant? at hfault
    split at hfault <;> (try split at hfault) <;> cases hfault <;> rfl
  · refine Sound.accept?_bind (fun t ht => ?_) (Sound.accept?_bind (fun t ht => ?_)
      (Sound.accept?_bind (fun keyword hkeyword => ?_) (Sound.accept_bind (fun l hl => ?_) ?_)))
    · refine Sound.quiet_bind quiet_freshId fun n => Sound.pure fun rest _ _ => ?_
      exact .this ht
    · refine Sound.quiet_bind quiet_freshId fun n => Sound.pure fun rest _ _ _ => ?_
      exact .name ht
    · refine Sound.expect_bind fun dot hdot => Sound.expect_bind fun method hmethod => ?_
      refine Sound.quiet_bind quiet_freshId fun n => Sound.pure fun rest _ _ _ _ => ?_
      exact .super hkeyword hdot hmethod
    · refine ih.assignment.bind fun inner => Sound.expect_bind fun r hr => ?_
      refine Sound.pure fun rest ts hts _ _ _ _ _ => ?_
      exact .grouping hl (.expression hts) hr
    · exact Sound.fail fun _ => rfl

theorem expressionsSound (d : Dialect) (fuel : Nat) : ExpressionsSound d fuel := by
  induction fuel with
  | zero =>
    exact ⟨.exhausted, fun _ => .exhausted, fun _ _ => .exhausted, fun _ => .exhausted,
      .exhausted, fun _ => .exhausted, fun _ => .exhausted, .exhausted⟩
  | succ fuel ih =>
    exact ⟨assignment_sound ih, binary_sound ih, binaryRest_sound ih, operand_sound ih,
      unary_sound ih, callRest_sound ih, arguments_sound ih, primary_sound ih⟩

theorem expression_sound : SoundExpr d (Derives d .expression) expression := by
  refine Sound.quiet_bind quiet_get fun c => ?_
  exact (expressionsSound d _).assignment.mono fun ts e rest h => .expression h

theorem expressionBefore?_sound {closing : TokenKind} :
    Sound d (fun ts e _ => Derives d .optional ts (e.map Expr.unnumbered))
      (expressionBefore? closing) := by
  refine Sound.quiet_bind (quiet_check _) fun none? => ?_
  cases none? with
  | true => exact Sound.pure fun _ => .optionalNone
  | false => exact expression_sound.bind_pure fun ts e rest h => .optionalSome h

/-! ## The parts of statements -/

theorem parametersFrom_sound (fuel count : Nat) :
    Sound d (fun ts params _ => Derives d .parameters ts params ∧
      (d.strict = true → count + params.length ≤ 255)) (parametersFrom fuel count) := by
  induction fuel generalizing count with
  | zero => exact .exhausted
  | succ fuel ih =>
    have after : Sound d (fun ts params _ => Derives d .parameters ts params ∧
        (d.strict = true → count < parameterLimit → count + params.length ≤ 255))
        (do
          let first ← expect .identifier .parameterName
          if ← accept .comma then
            return first :: (← parametersFrom fuel (count + 1))
          else
            return [first]) := by
      refine Sound.expect_bind fun first hfirst => Sound.accept_bind (fun comma hcomma => ?_) ?_
      · refine (ih (count + 1)).bind_pure ?_
        rintro us params rest ⟨hus, limit⟩
        refine ⟨.moreParameters hfirst hcomma hus, fun strict _ => ?_⟩
        have := limit strict
        simp only [List.length_cons]
        omega
      · refine Sound.pure fun rest _ => ⟨.lastParameter hfirst, fun _ below => ?_⟩
        simp only [List.length_singleton]
        exact below
    rw [parametersFrom]
    split
    · refine Sound.peek_bind fun t => Sound.report_bind (after.mono ?_)
      rintro ts params rest ⟨hts, -⟩ tolerated _ _
      exact ⟨hts, fun strict => absurd strict tolerated.lax⟩
    · rename_i below
      refine after.mono ?_
      rintro ts params rest ⟨hts, limit⟩
      exact ⟨hts, fun strict => limit strict (Nat.lt_of_not_le below)⟩

/-- The parameters between parentheses, of which there may be none. -/
theorem parameters_sound :
    Sound d (fun ts params _ => (ts = [] ∧ params = []) ∨
      (Derives d .parameters ts params ∧ (d.strict = true → params.length ≤ 255)))
      parameters := by
  refine Sound.quiet_bind (quiet_check _) fun empty => ?_
  cases empty with
  | true => exact Sound.pure fun _ => .inl ⟨rfl, rfl⟩
  | false =>
    refine Sound.quiet_bind quiet_get fun c => (parametersFrom_sound _ 0).mono ?_
    rintro ts params rest ⟨hts, limit⟩
    exact .inr ⟨hts, fun strict => by simpa using limit strict⟩

theorem variableDeclaration_sound :
    Sound d (fun ts s _ => ∀ keyword : Token, keyword.kind = .kwVar →
      Derives d .varDecl (keyword :: ts) s.unnumbered) variableDeclaration := by
  refine Sound.expect_bind fun name hname => Sound.accept_bind (fun equal hequal => ?_) ?_
  · have value : Sound d (fun ts e _ => Derives d .initializer (equal :: ts)
        (e.map Expr.unnumbered)) (some <$> expression) :=
      expression_sound.map fun ts e rest h => .initializer hequal h
    refine value.bind fun e => Sound.expect_bind fun semicolon hsemicolon => ?_
    exact Sound.pure fun rest ts hts keyword hkeyword => .varDecl hkeyword hname hts hsemicolon
  · refine Sound.expect_bind fun semicolon hsemicolon => Sound.pure ?_
    intro rest _ keyword hkeyword
    exact .varDecl hkeyword hname .noInitializer hsemicolon

theorem expressionStatement_sound :
    Sound d (fun ts s _ => Derives d .exprStmt ts s.unnumbered) expressionStatement := by
  refine expression_sound.bind fun e => Sound.expect_bind fun semicolon hsemicolon => ?_
  exact Sound.pure fun rest ts hts => .exprStmt hts hsemicolon

theorem printStatement_sound :
    Sound d (fun ts s _ => ∀ keyword : Token, keyword.kind = .kwPrint →
      Derives d (.statement false) (keyword :: ts) s.unnumbered) printStatement := by
  refine expression_sound.bind fun e => Sound.expect_bind fun semicolon hsemicolon => ?_
  exact Sound.pure fun rest ts hts keyword hkeyword => .printStmt hkeyword hts hsemicolon

theorem returnStatement_sound {keyword : Token} (hkeyword : keyword.kind = .kwReturn) :
    Sound d (fun ts s _ => Derives d (.statement false) (keyword :: ts) s.unnumbered)
      (returnStatement keyword) := by
  refine expressionBefore?_sound.bind fun e => Sound.expect_bind fun semicolon hsemicolon => ?_
  exact Sound.pure fun rest ts hts => .returnStmt hkeyword hts hsemicolon

theorem forInitializer_sound :
    Sound d (fun ts s _ => Derives d .forFirst ts (s.map Stmt.unnumbered)) forInitializer := by
  refine Sound.accept_bind (fun semicolon hsemicolon => ?_) (Sound.accept_bind
    (fun keyword hkeyword => ?_) ?_)
  · exact Sound.pure fun rest => .forNothing hsemicolon
  · exact variableDeclaration_sound.bind_pure fun ts s rest h _ => .forVariable (h keyword hkeyword)
  · exact expressionStatement_sound.bind_pure fun ts s rest h _ _ => .forExpression h

/-! ## Statements and declarations -/

/-- With the tokens before it, what a step takes is a statement; and if that ends in an `if` without
`else`, no `else` comes next. -/
def StatementRule (d : Dialect) (before ts : List Token) (s : Stmt) (rest : List Token) : Prop :=
  ∃ o, Derives d (.statement o) (before ++ ts) s.unnumbered ∧ (o = true → Stops [.kwElse] rest)

theorem StatementRule.closed {before ts rest : List Token} {s : Stmt}
    (h : Derives d (.statement false) (before ++ ts) s.unnumbered) :
    StatementRule d before ts s rest :=
  ⟨false, h, by simp⟩

/-- The functions for declarations and statements, under some fuel. -/
structure StatementsSound (d : Dialect) (fuel : Nat) : Prop where
  declaration : Sound d (fun ts s _ => ∃ t, s = some t ∧ Derives d .declaration ts t.unnumbered)
    (declaration fuel)
  classDeclaration : Sound d (fun ts s _ => ∀ keyword : Token, keyword.kind = .kwClass →
    Derives d .declaration (keyword :: ts) s.unnumbered) (classDeclaration fuel)
  methods : Sound d (fun ts fs _ => Derives d .methods ts (FunctionDecl.unnumberedAll fs))
    (methods fuel)
  function : ∀ role, Sound d (fun ts f _ => Derives d .function ts f.unnumbered)
    (function fuel role)
  block : Sound d (fun ts ss _ => ∀ l : Token, l.kind = .leftBrace →
    Derives d .block (l :: ts) (Stmt.unnumberedAll ss)) (block fuel)
  declarations : Sound d (fun ts ss _ => Derives d .declarations ts (Stmt.unnumberedAll ss))
    (declarations fuel)
  statement : Sound d (StatementRule d []) (statement fuel)

theorem declaration_sound {fuel : Nat} (ih : StatementsSound d fuel) :
    Sound d (fun ts s _ => ∃ t, s = some t ∧ Derives d .declaration ts t.unnumbered)
      (declaration (fuel + 1)) := by
  rw [Parser.declaration]
  refine Sound.recovering (G := fun ts (s : Stmt) _ => Derives d .declaration ts s.unnumbered) ?_
  refine Sound.accept_bind (fun keyword hkeyword => ?_) (Sound.accept_bind
    (fun keyword hkeyword => ?_) (Sound.accept_bind (fun keyword hkeyword => ?_) ?_))
  · exact ih.classDeclaration.mono fun ts s rest h => h keyword hkeyword
  · exact (ih.function _).bind_pure fun ts f rest h _ => .funDecl hkeyword h
  · exact variableDeclaration_sound.mono fun ts s rest h _ _ => .varDeclaration (h keyword hkeyword)
  · refine ih.statement.mono ?_
    rintro ts s rest ⟨o, h, -⟩ _ _ _
    exact .statement h

theorem classDeclaration_sound {fuel : Nat} (ih : StatementsSound d fuel) :
    Sound d (fun ts s _ => ∀ keyword : Token, keyword.kind = .kwClass →
      Derives d .declaration (keyword :: ts) s.unnumbered) (classDeclaration (fuel + 1)) := by
  rw [Parser.classDeclaration]
  refine Sound.expect_bind fun name hname => Sound.accept_bind (fun less hless => ?_) ?_
  · refine Sound.expect_bind fun parent hparent => Sound.quiet_bind quiet_freshId fun n => ?_
    refine Sound.expect_bind fun l hl => ih.methods.bind fun members => ?_
    refine Sound.expect_bind fun r hr => Sound.pure fun rest ts hts keyword hkeyword => ?_
    exact .classDecl hkeyword hname (.superclass hless hparent) hl hts hr
  · refine Sound.expect_bind fun l hl => ih.methods.bind fun members => ?_
    refine Sound.expect_bind fun r hr => Sound.pure fun rest ts hts _ keyword hkeyword => ?_
    exact .classDecl hkeyword hname .noSuperclass hl hts hr

theorem methods_sound {fuel : Nat} (ih : StatementsSound d fuel) :
    Sound d (fun ts fs _ => Derives d .methods ts (FunctionDecl.unnumberedAll fs))
      (methods (fuel + 1)) := by
  rw [Parser.methods]
  refine Sound.quiet_bind (quiet_check _) fun closed => Sound.quiet_bind quiet_atEnd fun ended => ?_
  split
  · exact Sound.pure fun _ => .noMethod
  · refine (ih.function _).bind fun first => ih.methods.bind_pure ?_
    exact fun us fs rest hus ts hts => .moreMethods hts hus

theorem function_sound {fuel : Nat} (ih : StatementsSound d fuel) (role : FunctionRole) :
    Sound d (fun ts f _ => Derives d .function ts f.unnumbered) (function (fuel + 1) role) := by
  rw [Parser.function]
  refine Sound.expect_bind fun name hname => Sound.expect_bind fun l hl => ?_
  refine parameters_sound.bind fun params => Sound.expect_bind fun r hr => ?_
  refine Sound.expect_bind fun brace hbrace => ih.block.bind_pure ?_
  rintro us body rest hus ts (⟨rfl, rfl⟩ | ⟨hts, limit⟩)
  · exact .functionNone hname hl hr (hus brace hbrace)
  · exact .functionSome hname hl hts limit hr (hus brace hbrace)

theorem block_sound {fuel : Nat} (ih : StatementsSound d fuel) :
    Sound d (fun ts ss _ => ∀ l : Token, l.kind = .leftBrace →
      Derives d .block (l :: ts) (Stmt.unnumberedAll ss)) (block (fuel + 1)) := by
  rw [Parser.block]
  refine ih.declarations.bind fun body => Sound.expect_bind fun r hr => ?_
  exact Sound.pure fun rest ts hts l hl => .block hl hts hr

theorem declarations_sound {fuel : Nat} (ih : StatementsSound d fuel) :
    Sound d (fun ts ss _ => Derives d .declarations ts (Stmt.unnumberedAll ss))
      (declarations (fuel + 1)) := by
  rw [Parser.declarations]
  refine Sound.quiet_bind (quiet_check _) fun closed => Sound.quiet_bind quiet_atEnd fun ended => ?_
  split
  · exact Sound.pure fun _ => .noDeclaration
  · refine ih.declaration.bind fun first => ih.declarations.bind_pure ?_
    rintro us ss rest hus ts ⟨s, rfl, hts⟩
    exact .moreDeclarations hts hus

/-- An `if` statement after its keyword.  If it has no `else`, none comes next either. -/
theorem ifStatement_sound {fuel : Nat} (ih : StatementsSound d fuel) {keyword : Token}
    (hkeyword : keyword.kind = .kwIf) :
    Sound d (StatementRule d [keyword])
      (do
        let _ ← expect .leftParen .ifStart
        let condition ← expression
        let _ ← expect .rightParen .ifConditionEnd
        let thenBranch ← statement fuel
        if ← accept .kwElse then
          return Stmt.ifElse condition thenBranch (← statement fuel)
        else
          return Stmt.ifThen condition thenBranch) := by
  refine Sound.expect_bind fun l hl => expression_sound.bind fun condition => ?_
  refine Sound.expect_bind fun r hr => ih.statement.bind fun thenBranch => ?_
  refine Sound.accept_bind (fun els hels => ?_) ?_
  · refine ih.statement.bind_pure ?_
    rintro es elseBranch rest ⟨p, hes, last⟩ ts ⟨o, hts, stops⟩ cs hcs
    refine ⟨p, .ifElse hkeyword hl hcs hr hts (fun _ => ?_) hels hes, last⟩
    cases o with
    | false => rfl
    | true => -- a branch that could have taken this `else` would have done so
      exact absurd (by simp [hels]) (stops rfl els (by simp))
  · refine Sound.pure ?_
    rintro rest stops ts ⟨o, hts, -⟩ cs hcs
    rw [List.append_nil]
    exact ⟨true, .ifThen hkeyword hl hcs hr hts, fun _ => stops⟩

/-- A `for` statement after its keyword is what its tokens write. -/
theorem forLoop_sound {fuel : Nat} (ih : StatementsSound d fuel) {keyword : Token}
    (hkeyword : keyword.kind = .kwFor) :
    Sound d (fun ts (l : ForLoop) rest =>
      ∃ o, l.Written d o (keyword :: ts) ∧ (o = true → Stops [.kwElse] rest)) (forLoop fuel) := by
  refine Sound.expect_bind fun l hl => forInitializer_sound.bind fun first => ?_
  refine expressionBefore?_sound.bind fun condition => ?_
  refine Sound.expect_bind fun semicolon hsemicolon => ?_
  refine expressionBefore?_sound.bind fun increment => Sound.expect_bind fun r hr => ?_
  refine ih.statement.bind_pure ?_
  rintro bs body rest ⟨o, hbs, last⟩ ss hss cs hcs is his
  exact ⟨o, .clauses hkeyword hl his hcs hsemicolon hss hr hbs, last⟩

/-- A `while` statement after its keyword. -/
theorem whileStatement_sound {fuel : Nat} (ih : StatementsSound d fuel) {keyword : Token}
    (hkeyword : keyword.kind = .kwWhile) :
    Sound d (StatementRule d [keyword])
      (do
        let _ ← expect .leftParen .whileStart
        let condition ← expression
        let _ ← expect .rightParen .whileConditionEnd
        return Stmt.whileLoop condition (← statement fuel)) := by
  refine Sound.expect_bind fun l hl => expression_sound.bind fun condition => ?_
  refine Sound.expect_bind fun r hr => ih.statement.bind_pure ?_
  rintro ts body rest ⟨o, hts, last⟩ cs hcs
  exact ⟨o, .whileStmt hkeyword hl hcs hr hts, last⟩

theorem statement_sound {fuel : Nat} (ih : StatementsSound d fuel) :
    Sound d (StatementRule d []) (statement (fuel + 1)) := by
  rw [Parser.statement]
  refine Sound.accept_bind (fun keyword hkeyword => ?_) ?_
  · rw [← map_forLoop]
    refine (forLoop_sound ih hkeyword).map ?_
    rintro ts l rest ⟨o, written, last⟩
    exact ⟨o, written.derives, last⟩
  refine Sound.accept_bind (fun keyword hkeyword => (ifStatement_sound ih hkeyword).mono
    fun ts s rest h _ => h) ?_
  refine Sound.accept_bind (fun keyword hkeyword => printStatement_sound.mono
    fun ts s rest h _ _ => .closed (h keyword hkeyword)) ?_
  refine Sound.accept?_bind (fun keyword hkeyword => (returnStatement_sound hkeyword).mono
    fun ts s rest h _ _ _ => .closed h) ?_
  refine Sound.accept_bind (fun keyword hkeyword => (whileStatement_sound ih hkeyword).mono
    fun ts s rest h _ _ _ _ => h) ?_
  refine Sound.accept_bind (fun l hl => ih.block.bind_pure
    fun ts body rest h _ _ _ _ _ => .closed (.blockStatement (h l hl))) ?_
  exact expressionStatement_sound.mono fun ts s rest h _ _ _ _ _ _ =>
    .closed (.expressionStatement h)

theorem statementsSound (d : Dialect) (fuel : Nat) : StatementsSound d fuel := by
  induction fuel with
  | zero =>
    exact ⟨.exhausted, .exhausted, .exhausted, fun _ => .exhausted, .exhausted, .exhausted,
      .exhausted⟩
  | succ fuel ih =>
    exact ⟨declaration_sound ih, classDeclaration_sound ih, methods_sound ih, function_sound ih,
      block_sound ih, declarations_sound ih, statement_sound ih⟩

/-! ## Programs -/

/-- A program takes all tokens there are. -/
theorem program_sound (fuel : Nat) :
    Sound d (fun ts ss rest => Derives d .declarations ts (Stmt.unnumberedAll ss) ∧ rest = [])
      (program fuel) := by
  induction fuel with
  | zero => exact .exhausted
  | succ fuel ih =>
    rw [Parser.program]
    refine Sound.atEnd_bind (Sound.pure fun rest ended => ?_) ?_
    · exact ⟨.noDeclaration, by simpa using ended⟩
    · refine (statementsSound d fuel).declaration.bind fun first => ih.bind_pure ?_
      rintro us ss rest ⟨hus, ended⟩ ts ⟨s, rfl, hts⟩
      exact ⟨.moreDeclarations hts hus, ended⟩

end ClassScript.Parser
