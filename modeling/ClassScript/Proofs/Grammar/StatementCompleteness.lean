import ClassScript.Proofs.Grammar.Completeness

set_option autoImplicit false

/-!
# Programs that follow the grammar are read

Completeness for declarations and statements, and with it for every phrase.  Only here does it
matter to which `if` an `else` belongs: a statement that ends in an `if` without `else` is read as
such only if no `else` comes next.
-/

namespace ClassScript.Parser

open Grammar

variable {d : Dialect}

/-! ## What is said of each phrase -/

/-- The tokens start with a keyword or brace, and the step after it reads the others. -/
def AfterFirst (kind : TokenKind) (ts : List Token) (read : List Token → Prop) : Prop :=
  ∃ t us, ts = t :: us ∧ t.kind = kind ∧ read us

/-- The tokens are none, or `=` and an expression that is read after it. -/
def InitializerComplete (d : Dialect) (ts : List Token) (e : Option Expr) : Prop :=
  (ts = [] ∧ e = none) ∨
  ∃ v, e = some v ∧ AfterFirst .equal ts fun us => AssignmentComplete d us v

/-- After `var`, the declaration of a variable is read to its semicolon. -/
def VariableComplete (d : Dialect) (ts : List Token) (s : Stmt) : Prop :=
  AfterFirst .kwVar ts fun us => ∀ c rest, c.rest = us ++ rest →
    Leaves d variableDeclaration c rest fun s' => s'.unnumbered = s

/-- An expression statement is read to its semicolon. -/
def ExprStmtComplete (d : Dialect) (ts : List Token) (s : Stmt) : Prop :=
  ∀ c rest, c.rest = ts ++ rest →
    Leaves d expressionStatement c rest fun s' => s'.unnumbered = s

/-- The first clause of a `for` statement is read to its semicolon. -/
def ForFirstComplete (d : Dialect) (ts : List Token) (s : Option Stmt) : Prop :=
  ∀ c rest, c.rest = ts ++ rest →
    Leaves d forInitializer c rest fun s' => s'.map Stmt.unnumbered = s

/-- Parameters are read up to a token that is no comma, if they are not too many in all. -/
def ParametersComplete (d : Dialect) (ts : List Token) (params : List Token) : Prop :=
  ∀ fuel count c rest, c.rest = ts ++ rest → ts.length ≤ fuel →
    (d.strict = true → count + params.length ≤ 255) → Stops [.comma] rest →
    Leaves d (parametersFrom fuel count) c rest fun params' => params' = params

/-- A function is read to the brace that closes its body. -/
def FunctionComplete (d : Dialect) (ts : List Token) (f : FunctionDecl) : Prop :=
  ∀ fuel role c rest, c.rest = ts ++ rest → 8 * ts.length ≤ fuel + 1 →
    Leaves d (function fuel role) c rest fun f' => f'.unnumbered = f

/-- After its opening brace, a block is read to the closing one. -/
def BlockComplete (d : Dialect) (ts : List Token) (ss : List Stmt) : Prop :=
  AfterFirst .leftBrace ts fun us => ∀ fuel c rest, c.rest = us ++ rest →
    8 * us.length ≤ fuel + 6 →
    Leaves d (block fuel) c rest fun ss' => Stmt.unnumberedAll ss' = ss

/-- Methods are read up to a brace. -/
def MethodsComplete (d : Dialect) (ts : List Token) (fs : List FunctionDecl) : Prop :=
  ∀ fuel c r rest, c.rest = ts ++ r :: rest → r.kind = .rightBrace → 8 * ts.length < fuel →
    Leaves d (methods fuel) c (r :: rest) fun fs' => FunctionDecl.unnumberedAll fs' = fs

/-- Declarations are read up to a brace, or up to the end of the source. -/
structure DeclarationsComplete (d : Dialect) (ts : List Token) (ss : List Stmt) : Prop where
  inBlock : ∀ fuel c r rest, c.rest = ts ++ r :: rest → r.kind = .rightBrace →
    8 * ts.length < fuel →
    Leaves d (declarations fuel) c (r :: rest) fun ss' => Stmt.unnumberedAll ss' = ss
  atTop : ∀ fuel c, c.rest = ts → 8 * ts.length < fuel →
    Leaves d (program fuel) c [] fun ss' => Stmt.unnumberedAll ss' = ss

/-- A declaration is read if no `else` follows, which it might take. -/
def DeclarationComplete (d : Dialect) (ts : List Token) (s : Stmt) : Prop :=
  ∀ fuel c rest, c.rest = ts ++ rest → 8 * ts.length ≤ fuel → Stops [.kwElse] rest →
    Leaves d (declaration fuel) c rest fun a => ∃ s', a = some s' ∧ s'.unnumbered = s

/-- A statement is read; no `else` may follow if it ends in an `if` that has none. -/
def StatementComplete (d : Dialect) (o : Bool) (ts : List Token) (s : Stmt) : Prop :=
  ∀ fuel c rest, c.rest = ts ++ rest → 8 * ts.length ≤ fuel + 1 →
    (o = true → Stops [.kwElse] rest) →
    Leaves d (statement fuel) c rest fun s' => s'.unnumbered = s

/-- What completeness is for each phrase.  A superclass is read by the class it belongs to, and a
program by its declarations. -/
def Completes (d : Dialect) : (p : Phrase) → List Token → p.Yield → Prop
  | .program | .superclass => fun _ _ => True
  | .declarations => DeclarationsComplete d
  | .declaration => DeclarationComplete d
  | .methods => MethodsComplete d
  | .function => FunctionComplete d
  | .parameters => ParametersComplete d
  | .varDecl => VariableComplete d
  | .initializer => InitializerComplete d
  | .statement o => StatementComplete d o
  | .exprStmt => ExprStmtComplete d
  | .forFirst => ForFirstComplete d
  | .block => BlockComplete d
  | .optional => OptionalComplete d
  | .expression | .assignment => AssignmentComplete d
  | .logicOr => LevelComplete d .or
  | .logicAnd => LevelComplete d .and
  | .equality => LevelComplete d .equality
  | .comparison => LevelComplete d .comparison
  | .term => LevelComplete d .term
  | .factor => LevelComplete d .factor
  | .unary => UnaryComplete d
  | .call => CallComplete d
  | .primary => PrimaryComplete d
  | .arguments => ArgumentsComplete d

/-! ## Declarations -/

theorem AfterFirst.intro {kind : TokenKind} {t : Token} {us : List Token}
    {read : List Token → Prop} (ht : t.kind = kind) (h : read us) :
    AfterFirst kind (t :: us) read :=
  ⟨t, us, rfl, ht, h⟩

theorem VariableComplete.varDecl {keyword name semicolon : Token} {ts : List Token}
    {e : Option Expr} (hkeyword : keyword.kind = .kwVar) (hname : name.kind = .identifier)
    (he : InitializerComplete d ts e) (hsemicolon : semicolon.kind = .semicolon) :
    VariableComplete d (keyword :: name :: (ts ++ [semicolon])) (.varDecl name e) := by
  refine .intro hkeyword fun c rest hc => ?_
  rw [variableDeclaration]
  refine .expect_bind hc hname fun c₁ hc₁ => ?_
  obtain ⟨rfl, rfl⟩ | ⟨v, rfl, equal, us, rfl, hequal, complete⟩ := he
  · refine .accept_skip (stops_at hc₁ hsemicolon (by decide)) ?_
    exact .expect_bind hc₁ hsemicolon fun c₂ hc₂ => .pure hc₂ rfl
  · refine .accept_bind hc₁ hequal fun c₂ hc₂ => ?_
    have value : Leaves d (some <$> expression) c₂ (semicolon :: rest) fun e' =>
        e'.map Expr.unnumbered = some v :=
      (complete.expression (by simpa using hc₂) (stops_of_kind hsemicolon (by decide))).map
        fun e' he' => congrArg some he'
    refine value.bind fun e' c₃ hc₃ he' => ?_
    exact .expect_bind hc₃ hsemicolon fun c₄ hc₄ =>
      .pure hc₄ (congrArg (Stmt.varDecl name) he')

theorem ExprStmtComplete.exprStmt {ts : List Token} {e : Expr} {semicolon : Token}
    (h : AssignmentComplete d ts e) (hsemicolon : semicolon.kind = .semicolon) :
    ExprStmtComplete d (ts ++ [semicolon]) (.expression e) := by
  intro c rest hc
  rw [expressionStatement]
  refine (h.expression (by simpa using hc) (stops_of_kind hsemicolon (by decide))).bind ?_
  rintro e' c₁ hc₁ rfl
  exact .expect_bind hc₁ hsemicolon fun c₂ hc₂ => .pure hc₂ rfl

theorem ForFirstComplete.variable {ts : List Token} {s : Stmt} (h : VariableComplete d ts s) :
    ForFirstComplete d ts (some s) := by
  intro c rest hc
  obtain ⟨keyword, us, rfl, hkeyword, complete⟩ := h
  rw [forInitializer]
  refine .accept_skip (stops_at hc hkeyword (by decide)) ?_
  refine .accept_bind hc hkeyword fun c₁ hc₁ => (complete c₁ rest hc₁).bind_pure ?_
  rintro s' rfl
  rfl

theorem ForFirstComplete.expression {ts : List Token} {s : Stmt} (h : ExprStmtComplete d ts s)
    (starts : StartsWith expressionStarts ts) : ForFirstComplete d ts (some s) := by
  intro c rest hc
  rw [forInitializer]
  refine .accept_skip (stops_at_start hc starts (by decide)) ?_
  refine .accept_skip (stops_at_start hc starts (by decide)) ?_
  refine (h c rest hc).bind_pure ?_
  rintro s' rfl
  rfl

theorem ForFirstComplete.nothing {semicolon : Token} (hsemicolon : semicolon.kind = .semicolon) :
    ForFirstComplete d [semicolon] none := by
  intro c rest hc
  rw [forInitializer]
  exact .accept_bind hc hsemicolon fun c₁ hc₁ => .pure hc₁ rfl

theorem ParametersComplete.last {name : Token} (hname : name.kind = .identifier) :
    ParametersComplete d [name] [name] := by
  intro fuel count c rest hc hfuel limit stops
  simp only [List.length_singleton] at hfuel
  obtain ⟨f, rfl⟩ := Nat.exists_eq_add_one_of_ne_zero (by omega : fuel ≠ 0)
  rw [parametersFrom]
  refine .limit hc limit rfl fun c₁ hc₁ => .expect_bind hc₁ hname fun c₂ hc₂ => ?_
  exact .accept_skip (by rw [hc₂]; exact stops) (.pure hc₂ rfl)

theorem ParametersComplete.more {name comma : Token} {ts : List Token} {params : List Token}
    (hname : name.kind = .identifier) (hcomma : comma.kind = .comma)
    (h : ParametersComplete d ts params) :
    ParametersComplete d (name :: comma :: ts) (name :: params) := by
  intro fuel count c rest hc hfuel limit stops
  simp only [List.length_cons] at hfuel limit
  obtain ⟨f, rfl⟩ := Nat.exists_eq_add_one_of_ne_zero (by omega : fuel ≠ 0)
  rw [parametersFrom]
  refine .limit hc (fun strict => by have := limit strict; omega) rfl fun c₁ hc₁ => ?_
  refine .expect_bind hc₁ hname fun c₂ hc₂ => .accept_bind hc₂ hcomma fun c₃ hc₃ => ?_
  refine (h f (count + 1) c₃ rest hc₃ (by omega) (fun strict => ?_) stops).bind_pure ?_
  · have := limit strict
    omega
  · rintro params' rfl
    rfl

theorem BlockComplete.block {l r : Token} {ts : List Token} {ss : List Stmt}
    (hl : l.kind = .leftBrace) (h : DeclarationsComplete d ts ss) (hr : r.kind = .rightBrace) :
    BlockComplete d (l :: (ts ++ [r])) ss := by
  refine .intro hl fun fuel c rest hc hfuel => ?_
  simp only [List.length_append, List.length_singleton] at hfuel
  obtain ⟨f, rfl⟩ := Nat.exists_eq_add_one_of_ne_zero (by omega : fuel ≠ 0)
  rw [Parser.block]
  refine (h.inBlock f c r rest (by simpa using hc) hr (by omega)).bind ?_
  rintro ss' c₁ hc₁ rfl
  exact .expect_bind hc₁ hr fun c₂ hc₂ => .pure hc₂ rfl

/-- A function up to its parameters and from there on.  `ps` are the tokens of the parameters. -/
theorem FunctionComplete.ofParameters {name l r : Token} {ps us : List Token}
    {params : List Token} {body : List Stmt} (hname : name.kind = .identifier)
    (hl : l.kind = .leftParen)
    (hparams : ∀ c rest, c.rest = ps ++ r :: rest →
      Leaves d parameters c (r :: rest) fun params' => params' = params)
    (hr : r.kind = .rightParen) (hbody : BlockComplete d us body) :
    FunctionComplete d (name :: l :: (ps ++ r :: us)) ⟨name, params, body⟩ := by
  intro fuel role c rest hc hfuel
  obtain ⟨brace, us, rfl, hbrace, complete⟩ := hbody
  simp only [List.length_append, List.length_cons] at hfuel
  obtain ⟨f, rfl⟩ := Nat.exists_eq_add_one_of_ne_zero (by omega : fuel ≠ 0)
  rw [Parser.function]
  refine .expect_bind hc hname fun c₁ hc₁ => .expect_bind hc₁ hl fun c₂ hc₂ => ?_
  refine (hparams c₂ (brace :: us ++ rest) (by simpa using hc₂)).bind ?_
  rintro params' c₃ hc₃ rfl
  refine .expect_bind hc₃ hr fun c₄ hc₄ => .expect_bind hc₄ hbrace fun c₅ hc₅ => ?_
  refine (complete f c₅ rest hc₅ (by omega)).bind_pure ?_
  rintro body' rfl
  rfl

theorem FunctionComplete.none {name l r : Token} {us : List Token} {body : List Stmt}
    (hname : name.kind = .identifier) (hl : l.kind = .leftParen) (hr : r.kind = .rightParen)
    (hbody : BlockComplete d us body) :
    FunctionComplete d (name :: l :: r :: us) ⟨name, [], body⟩ := by
  have nothing : ∀ c rest, c.rest = [] ++ r :: rest →
      Leaves d parameters c (r :: rest) fun params' => params' = [] := by
    intro c rest hc
    rw [parameters]
    exact .check_bind hc hr (.pure hc rfl)
  exact .ofParameters hname hl nothing hr hbody

theorem FunctionComplete.some {name l r : Token} {ts us : List Token} {params : List Token}
    {body : List Stmt} (hname : name.kind = .identifier) (hl : l.kind = .leftParen)
    (hparams : ParametersComplete d ts params) (starts : StartsWith [.identifier] ts)
    (limit : d.strict = true → params.length ≤ 255) (hr : r.kind = .rightParen)
    (hbody : BlockComplete d us body) :
    FunctionComplete d (name :: l :: (ts ++ r :: us)) ⟨name, params, body⟩ := by
  refine .ofParameters hname hl (fun c rest hc => ?_) hr hbody
  rw [parameters]
  refine .check_skip (stops_at_start hc starts (by decide)) (.get_bind ?_)
  refine hparams _ 0 c _ hc ?_ (by simpa using limit) (stops_of_kind hr (by decide))
  rw [hc, List.length_append]
  omega

theorem MethodsComplete.none : MethodsComplete d [] [] := by
  intro fuel c r rest hc hr hfuel
  obtain ⟨f, rfl⟩ := Nat.exists_eq_add_one_of_ne_zero (by omega : fuel ≠ 0)
  rw [methods]
  refine .check_bind hc hr (.atEnd_skip hc ?_)
  exact .pure hc rfl

theorem MethodsComplete.more {ts us : List Token} {f : FunctionDecl} {fs : List FunctionDecl}
    (h : FunctionComplete d ts f) (starts : StartsWith [.identifier] ts)
    (hs : MethodsComplete d us fs) : MethodsComplete d (ts ++ us) (f :: fs) := by
  intro fuel c r rest hc hr hfuel
  have pos := starts.length_pos
  obtain ⟨t, ts', rfl, ht⟩ := id starts
  simp only [List.length_append, List.length_cons] at hfuel
  obtain ⟨n, rfl⟩ := Nat.exists_eq_add_one_of_ne_zero (by omega : fuel ≠ 0)
  rw [methods]
  rw [List.append_assoc] at hc
  refine .check_skip (stops_at_start hc starts (by decide))
    (.atEnd_skip hc ?_)
  refine (h n _ c _ hc (by simp only [List.length_cons]; omega)).bind ?_
  rintro f' c₁ hc₁ rfl
  refine (hs n c₁ r rest hc₁ hr (by omega)).bind_pure ?_
  rintro fs' rfl
  rfl

/-- A class after its keyword, up to its superclass and from there on.  `ps` are the tokens of the
superclass. -/
theorem classDeclaration_complete {name l r : Token} {ps us : List Token}
    {superclass : Option Expr} {fs : List FunctionDecl} (hname : name.kind = .identifier)
    (hsuper : Derives d .superclass ps superclass) (hl : l.kind = .leftBrace)
    (hfs : MethodsComplete d us fs) (hr : r.kind = .rightBrace) {fuel : Nat} {c : Cursor}
    {rest : List Token} (hc : c.rest = name :: (ps ++ l :: (us ++ [r])) ++ rest)
    (hfuel : 8 * us.length + 1 < fuel) :
    Leaves d (classDeclaration fuel) c rest
      fun s => s.unnumbered = .classDecl name superclass fs := by
  obtain ⟨f, rfl⟩ := Nat.exists_eq_add_one_of_ne_zero (by omega : fuel ≠ 0)
  rw [classDeclaration]
  refine .expect_bind hc hname fun c₁ hc₁ => ?_
  cases hsuper with
  | noSuperclass =>
    refine .accept_skip (stops_at hc₁ hl (by decide)) ?_
    refine .expect_bind hc₁ hl fun c₂ hc₂ => ?_
    refine (hfs f c₂ r rest (by simpa using hc₂) hr (by omega)).bind ?_
    rintro fs' c₃ hc₃ rfl
    exact .expect_bind hc₃ hr fun c₄ hc₄ => .pure hc₄ rfl
  | superclass hless hparent =>
    refine .accept_bind hc₁ hless fun c₂ hc₂ => .expect_bind hc₂ hparent fun c₃ hc₃ => ?_
    refine .freshId_bind hc₃ fun n c₄ hc₄ => .expect_bind hc₄ hl fun c₅ hc₅ => ?_
    refine (hfs f c₅ r rest (by simpa using hc₅) hr (by omega)).bind ?_
    rintro fs' c₆ hc₆ rfl
    exact .expect_bind hc₆ hr fun c₇ hc₇ => .pure hc₇ rfl

theorem DeclarationComplete.classDecl {keyword name l r : Token} {ps us : List Token}
    {superclass : Option Expr} {fs : List FunctionDecl} (hkeyword : keyword.kind = .kwClass)
    (hname : name.kind = .identifier) (hsuper : Derives d .superclass ps superclass)
    (hl : l.kind = .leftBrace) (hfs : MethodsComplete d us fs) (hr : r.kind = .rightBrace) :
    DeclarationComplete d (keyword :: name :: (ps ++ l :: (us ++ [r])))
      (.classDecl name superclass fs) := by
  intro fuel c rest hc hfuel _
  simp only [List.length_append, List.length_cons] at hfuel
  obtain ⟨f, rfl⟩ := Nat.exists_eq_add_one_of_ne_zero (by omega : fuel ≠ 0)
  rw [declaration]
  refine .recovering (.accept_bind hc hkeyword fun c₁ hc₁ => ?_)
  exact classDeclaration_complete hname hsuper hl hfs hr hc₁ (by omega)

theorem DeclarationComplete.funDecl {keyword : Token} {ts : List Token} {f : FunctionDecl}
    (hkeyword : keyword.kind = .kwFun) (h : FunctionComplete d ts f) :
    DeclarationComplete d (keyword :: ts) (.funDecl f) := by
  intro fuel c rest hc hfuel _
  simp only [List.length_cons] at hfuel
  obtain ⟨n, rfl⟩ := Nat.exists_eq_add_one_of_ne_zero (by omega : fuel ≠ 0)
  rw [declaration]
  refine .recovering (.accept_skip (stops_at hc hkeyword (by decide)) ?_)
  refine .accept_bind hc hkeyword fun c₁ hc₁ => ?_
  refine (h n _ c₁ rest hc₁ (by omega)).bind_pure ?_
  rintro f' rfl
  rfl

theorem DeclarationComplete.variable {ts : List Token} {s : Stmt} (h : VariableComplete d ts s) :
    DeclarationComplete d ts s := by
  intro fuel c rest hc hfuel _
  obtain ⟨keyword, us, rfl, hkeyword, complete⟩ := h
  simp only [List.length_cons] at hfuel
  obtain ⟨n, rfl⟩ := Nat.exists_eq_add_one_of_ne_zero (by omega : fuel ≠ 0)
  rw [declaration]
  refine .recovering (.accept_skip (stops_at hc hkeyword (by decide)) ?_)
  refine .accept_skip (stops_at hc hkeyword (by decide)) ?_
  exact .accept_bind hc hkeyword fun c₁ hc₁ => complete c₁ rest hc₁

theorem DeclarationComplete.statement {o : Bool} {ts : List Token} {s : Stmt}
    (h : StatementComplete d o ts s) (starts : StartsWith statementStarts ts) :
    DeclarationComplete d ts s := by
  intro fuel c rest hc hfuel stops
  have pos := starts.length_pos
  obtain ⟨n, rfl⟩ := Nat.exists_eq_add_one_of_ne_zero (by omega : fuel ≠ 0)
  rw [declaration]
  refine .recovering (.accept_skip (stops_at_start hc starts (by decide)) ?_)
  refine .accept_skip (stops_at_start hc starts (by decide)) ?_
  refine .accept_skip (stops_at_start hc starts (by decide)) ?_
  exact h n c rest hc (by omega) fun _ => stops

theorem DeclarationsComplete.none : DeclarationsComplete d [] [] where
  inBlock := by
    intro fuel c r rest hc hr hfuel
    obtain ⟨f, rfl⟩ := Nat.exists_eq_add_one_of_ne_zero (by omega : fuel ≠ 0)
    rw [declarations]
    exact .check_bind hc hr (.atEnd_skip hc (.pure hc rfl))
  atTop := by
    intro fuel c hc hfuel
    obtain ⟨f, rfl⟩ := Nat.exists_eq_add_one_of_ne_zero (by omega : fuel ≠ 0)
    rw [program]
    exact .atEnd_bind hc (.pure hc rfl)

/-- Declarations start as none of the tokens do with which something else goes on. -/
theorem DeclarationsComplete.more {ts us : List Token} {s : Stmt} {ss : List Stmt}
    (h : DeclarationComplete d ts s) (starts : StartsWith declarationStarts ts)
    (hs : DeclarationsComplete d us ss) (next : us = [] ∨ StartsWith declarationStarts us) :
    DeclarationsComplete d (ts ++ us) (s :: ss) where
  inBlock := by
    intro fuel c r rest hc hr hfuel
    have pos := starts.length_pos
    obtain ⟨t, ts', hts, ht⟩ := id starts
    rw [List.length_append] at hfuel
    obtain ⟨f, rfl⟩ := Nat.exists_eq_add_one_of_ne_zero (by omega : fuel ≠ 0)
    rw [declarations]
    rw [List.append_assoc] at hc
    refine .check_skip (stops_at_start hc starts (by decide))
      (.atEnd_skip (by rw [hc, hts]; rfl) ?_)
    have noElse : Stops [.kwElse] (us ++ r :: rest) := by
      obtain rfl | next := next
      · exact stops_of_kind hr (by decide)
      · exact stops_of_startsWith next (by decide) _
    refine (h f c _ hc (by omega) noElse).bind ?_
    rintro _ c₁ hc₁ ⟨s', rfl, rfl⟩
    refine (hs.inBlock f c₁ r rest hc₁ hr (by omega)).bind_pure ?_
    rintro ss' rfl
    rfl
  atTop := by
    intro fuel c hc hfuel
    have pos := starts.length_pos
    obtain ⟨t, ts', hts, ht⟩ := id starts
    rw [List.length_append] at hfuel
    obtain ⟨f, rfl⟩ := Nat.exists_eq_add_one_of_ne_zero (by omega : fuel ≠ 0)
    rw [program]
    refine .atEnd_skip (by rw [hc, hts]; rfl) ?_
    have noElse : Stops [.kwElse] us := by
      obtain rfl | next := next
      · exact stops_nil
      · simpa using stops_of_startsWith next (by decide) []
    refine (h f c _ hc (by omega) noElse).bind ?_
    rintro _ c₁ hc₁ ⟨s', rfl, rfl⟩
    refine (hs.atTop f c₁ hc₁ (by omega)).bind_pure ?_
    rintro ss' rfl
    rfl

/-! ## Statements -/

theorem StatementComplete.expression {ts : List Token} {s : Stmt} (h : ExprStmtComplete d ts s)
    (starts : StartsWith expressionStarts ts) : StatementComplete d false ts s := by
  intro fuel c rest hc hfuel _
  have pos := starts.length_pos
  obtain ⟨f, rfl⟩ := Nat.exists_eq_add_one_of_ne_zero (by omega : fuel ≠ 0)
  rw [statement]
  refine .accept_skip (stops_at_start hc starts (by decide)) ?_
  refine .accept_skip (stops_at_start hc starts (by decide)) ?_
  refine .accept_skip (stops_at_start hc starts (by decide)) ?_
  refine .accept?_skip (stops_at_start hc starts (by decide)) ?_
  refine .accept_skip (stops_at_start hc starts (by decide)) ?_
  refine .accept_skip (stops_at_start hc starts (by decide)) ?_
  exact h c rest hc

theorem StatementComplete.forStmt {keyword l semicolon r : Token} {is cs ss bs : List Token}
    {first : Option Stmt} {condition increment : Option Expr} {body : Stmt} {o : Bool}
    (hkeyword : keyword.kind = .kwFor) (hl : l.kind = .leftParen)
    (hfirst : ForFirstComplete d is first) (hcondition : OptionalComplete d cs condition)
    (hsemicolon : semicolon.kind = .semicolon) (hincrement : OptionalComplete d ss increment)
    (hr : r.kind = .rightParen) (hbody : StatementComplete d o bs body) :
    StatementComplete d o (keyword :: l :: (is ++ (cs ++ semicolon :: (ss ++ r :: bs))))
      (.forLoop first condition increment body) := by
  intro fuel c rest hc hfuel stops
  simp only [List.length_append, List.length_cons] at hfuel
  obtain ⟨f, rfl⟩ := Nat.exists_eq_add_one_of_ne_zero (by omega : fuel ≠ 0)
  rw [statement]
  refine .accept_bind hc hkeyword fun c₁ hc₁ => .expect_bind hc₁ hl fun c₂ hc₂ => ?_
  refine (hfirst c₂ (cs ++ semicolon :: (ss ++ r :: (bs ++ rest))) (by simpa using hc₂)).bind ?_
  rintro first' c₃ hc₃ rfl
  refine (hcondition.before hc₃ hsemicolon (by decide)).bind ?_
  rintro condition' c₄ hc₄ rfl
  refine .expect_bind hc₄ hsemicolon fun c₅ hc₅ => ?_
  refine (hincrement.before hc₅ hr (by decide)).bind ?_
  rintro increment' c₆ hc₆ rfl
  refine .expect_bind hc₆ hr fun c₇ hc₇ => ?_
  refine (hbody f c₇ rest hc₇ (by omega) stops).bind_pure ?_
  rintro body' rfl
  exact Stmt.unnumbered_forLoop ..

/-- An `if` statement up to its first branch and from there on. -/
theorem StatementComplete.ofBranch {keyword l r : Token} {cs ts us : List Token}
    {condition : Expr} {thenBranch s : Stmt} {o p : Bool} (hkeyword : keyword.kind = .kwIf)
    (hl : l.kind = .leftParen) (hcondition : AssignmentComplete d cs condition)
    (hr : r.kind = .rightParen) (hthen : StatementComplete d o ts thenBranch)
    (ends : ∀ rest, (p = true → Stops [.kwElse] rest) → o = true → Stops [.kwElse] (us ++ rest))
    (go : ∀ (f : Nat) (condition' : Expr) (thenBranch' : Stmt) (c : Cursor) (rest : List Token),
      c.rest = us ++ rest → 8 * us.length ≤ f →
      (p = true → Stops [.kwElse] rest) → condition'.unnumbered = condition →
      thenBranch'.unnumbered = thenBranch →
      Leaves d (do
        if ← accept .kwElse then
          return Stmt.ifElse condition' thenBranch' (← statement f)
        else
          return Stmt.ifThen condition' thenBranch') c rest fun s' => s'.unnumbered = s) :
    StatementComplete d p (keyword :: l :: (cs ++ r :: (ts ++ us))) s := by
  intro fuel c rest hc hfuel stops
  simp only [List.length_append, List.length_cons] at hfuel
  obtain ⟨f, rfl⟩ := Nat.exists_eq_add_one_of_ne_zero (by omega : fuel ≠ 0)
  rw [statement]
  refine .accept_skip (stops_at hc hkeyword (by decide)) ?_
  refine .accept_bind hc hkeyword fun c₁ hc₁ => .expect_bind hc₁ hl fun c₂ hc₂ => ?_
  have rest₂ : c₂.rest = cs ++ r :: (ts ++ (us ++ rest)) := by simpa using hc₂
  refine (hcondition.expression rest₂ (stops_of_kind hr (by decide))).bind ?_
  intro condition' c₃ hc₃ he
  refine .expect_bind hc₃ hr fun c₄ hc₄ => ?_
  refine (hthen f c₄ (us ++ rest) hc₄ (by omega) (ends rest stops)).bind ?_
  exact fun thenBranch' c₅ hc₅ hs => go f condition' thenBranch' c₅ rest hc₅ (by omega) stops he hs

theorem StatementComplete.ifThen {keyword l r : Token} {cs ts : List Token} {condition : Expr}
    {thenBranch : Stmt} {o : Bool} (hkeyword : keyword.kind = .kwIf) (hl : l.kind = .leftParen)
    (hcondition : AssignmentComplete d cs condition) (hr : r.kind = .rightParen)
    (hthen : StatementComplete d o ts thenBranch) :
    StatementComplete d true (keyword :: l :: (cs ++ r :: ts)) (.ifThen condition thenBranch) := by
  have branch : StatementComplete d true (keyword :: l :: (cs ++ r :: (ts ++ [])))
      (.ifThen condition thenBranch) := by
    refine .ofBranch hkeyword hl hcondition hr hthen (fun rest stops _ => stops rfl) ?_
    rintro f condition' thenBranch' c rest hc - stops rfl rfl
    exact .accept_skip (by rw [hc]; exact stops rfl) (.pure hc rfl)
  rwa [List.append_nil] at branch

/-- The first branch must not be able to take the `else`. -/
theorem StatementComplete.ifElse {keyword l r els : Token} {cs ts es : List Token}
    {condition : Expr} {thenBranch elseBranch : Stmt} {p : Bool} (hkeyword : keyword.kind = .kwIf)
    (hl : l.kind = .leftParen) (hcondition : AssignmentComplete d cs condition)
    (hr : r.kind = .rightParen) (hthen : StatementComplete d false ts thenBranch)
    (hels : els.kind = .kwElse) (helse : StatementComplete d p es elseBranch) :
    StatementComplete d p (keyword :: l :: (cs ++ r :: (ts ++ els :: es)))
      (.ifElse condition thenBranch elseBranch) := by
  refine .ofBranch hkeyword hl hcondition hr hthen (fun rest _ h => nomatch h) ?_
  rintro f condition' thenBranch' c rest hc hfuel stops rfl rfl
  rw [List.length_cons] at hfuel
  refine .accept_bind hc hels fun c₁ hc₁ => ?_
  refine (helse f c₁ rest hc₁ (by omega) stops).bind_pure ?_
  rintro elseBranch' rfl
  rfl

theorem StatementComplete.printStmt {keyword semicolon : Token} {ts : List Token} {e : Expr}
    (hkeyword : keyword.kind = .kwPrint) (he : AssignmentComplete d ts e)
    (hsemicolon : semicolon.kind = .semicolon) :
    StatementComplete d false (keyword :: (ts ++ [semicolon])) (.print e) := by
  intro fuel c rest hc hfuel _
  simp only [List.length_append, List.length_cons] at hfuel
  obtain ⟨f, rfl⟩ := Nat.exists_eq_add_one_of_ne_zero (by omega : fuel ≠ 0)
  rw [statement]
  refine .accept_skip (stops_at hc hkeyword (by decide)) ?_
  refine .accept_skip (stops_at hc hkeyword (by decide)) ?_
  refine .accept_bind hc hkeyword fun c₁ hc₁ => ?_
  rw [printStatement]
  have rest₁ : c₁.rest = ts ++ semicolon :: rest := by simpa using hc₁
  refine (he.expression rest₁ (stops_of_kind hsemicolon (by decide))).bind ?_
  rintro e' c₂ hc₂ rfl
  exact .expect_bind hc₂ hsemicolon fun c₃ hc₃ => .pure hc₃ rfl

theorem StatementComplete.returnStmt {keyword semicolon : Token} {ts : List Token}
    {e : Option Expr} (hkeyword : keyword.kind = .kwReturn) (he : OptionalComplete d ts e)
    (hsemicolon : semicolon.kind = .semicolon) :
    StatementComplete d false (keyword :: (ts ++ [semicolon])) (.returnStmt keyword e) := by
  intro fuel c rest hc hfuel _
  simp only [List.length_append, List.length_cons] at hfuel
  obtain ⟨f, rfl⟩ := Nat.exists_eq_add_one_of_ne_zero (by omega : fuel ≠ 0)
  rw [statement]
  refine .accept_skip (stops_at hc hkeyword (by decide)) ?_
  refine .accept_skip (stops_at hc hkeyword (by decide)) ?_
  refine .accept_skip (stops_at hc hkeyword (by decide)) ?_
  refine .accept?_bind hc hkeyword fun c₁ hc₁ => ?_
  change Leaves d (returnStatement keyword) c₁ rest _
  rw [returnStatement]
  have rest₁ : c₁.rest = ts ++ semicolon :: rest := by simpa using hc₁
  refine (he.before rest₁ hsemicolon (by decide)).bind ?_
  rintro e' c₂ hc₂ rfl
  exact .expect_bind hc₂ hsemicolon fun c₃ hc₃ => .pure hc₃ rfl

theorem StatementComplete.whileStmt {keyword l r : Token} {cs ts : List Token} {condition : Expr}
    {body : Stmt} {o : Bool} (hkeyword : keyword.kind = .kwWhile) (hl : l.kind = .leftParen)
    (hcondition : AssignmentComplete d cs condition) (hr : r.kind = .rightParen)
    (hbody : StatementComplete d o ts body) :
    StatementComplete d o (keyword :: l :: (cs ++ r :: ts)) (.whileLoop condition body) := by
  intro fuel c rest hc hfuel stops
  simp only [List.length_append, List.length_cons] at hfuel
  obtain ⟨f, rfl⟩ := Nat.exists_eq_add_one_of_ne_zero (by omega : fuel ≠ 0)
  rw [statement]
  refine .accept_skip (stops_at hc hkeyword (by decide)) ?_
  refine .accept_skip (stops_at hc hkeyword (by decide)) ?_
  refine .accept_skip (stops_at hc hkeyword (by decide)) ?_
  refine .accept?_skip (stops_at hc hkeyword (by decide)) ?_
  refine .accept_bind hc hkeyword fun c₁ hc₁ => .expect_bind hc₁ hl fun c₂ hc₂ => ?_
  have rest₂ : c₂.rest = cs ++ r :: (ts ++ rest) := by simpa using hc₂
  refine (hcondition.expression rest₂ (stops_of_kind hr (by decide))).bind ?_
  rintro condition' c₃ hc₃ rfl
  refine .expect_bind hc₃ hr fun c₄ hc₄ => ?_
  refine (hbody f c₄ rest hc₄ (by omega) stops).bind_pure ?_
  rintro body' rfl
  rfl

theorem StatementComplete.block {ts : List Token} {ss : List Stmt} (h : BlockComplete d ts ss) :
    StatementComplete d false ts (.block ss) := by
  intro fuel c rest hc hfuel _
  obtain ⟨l, us, rfl, hl, complete⟩ := h
  rw [List.length_cons] at hfuel
  obtain ⟨f, rfl⟩ := Nat.exists_eq_add_one_of_ne_zero (by omega : fuel ≠ 0)
  rw [statement]
  refine .accept_skip (stops_at hc hl (by decide)) ?_
  refine .accept_skip (stops_at hc hl (by decide)) ?_
  refine .accept_skip (stops_at hc hl (by decide)) ?_
  refine .accept?_skip (stops_at hc hl (by decide)) ?_
  refine .accept_skip (stops_at hc hl (by decide)) ?_
  refine .accept_bind hc hl fun c₁ hc₁ => ?_
  refine (complete f c₁ rest hc₁ (by omega)).bind_pure ?_
  rintro ss' rfl
  rfl

/-! ## All phrases -/

/-- Declarations are empty or start as a declaration does. -/
theorem derives_declarations_starts {ts : List Token} {ss : List Stmt}
    (h : Derives d .declarations ts ss) : ts = [] ∨ StartsWith declarationStarts ts := by
  cases h with
  | noDeclaration => exact .inl rfl
  | moreDeclarations hs _ => exact .inr (hs.starts.append _)

/-- Induction on the derivation, with the lemma of each rule. -/
theorem completes (nearest : d.nearestElse = true) {p : Phrase} {ts : List Token} {y : p.Yield}
    (h : Derives d p ts y) : Completes d p ts y := by
  induction h with
  | program => trivial
  | noDeclaration => exact .none
  | moreDeclarations h hs ih ihs => exact .more ih h.starts ihs (derives_declarations_starts hs)
  | classDecl hkeyword hname hsuper hl _ hr _ ih =>
    exact .classDecl hkeyword hname hsuper hl ih hr
  | noSuperclass | superclass => trivial
  | noMethod => exact .none
  | moreMethods h _ ih ihs => exact .more ih h.starts ihs
  | funDecl hkeyword _ ih => exact .funDecl hkeyword ih
  | functionNone hname hl hr _ ih => exact .none hname hl hr ih
  | functionSome hname hl h limit hr _ ih ihbody =>
    exact .some hname hl ih h.starts limit hr ihbody
  | lastParameter hname => exact .last hname
  | moreParameters hname hcomma _ ih => exact .more hname hcomma ih
  | varDeclaration _ ih => exact .variable ih
  | varDecl hkeyword hname _ hsemicolon ih => exact .varDecl hkeyword hname ih hsemicolon
  | noInitializer => exact .inl ⟨rfl, rfl⟩
  | initializer hequal _ ih => exact .inr ⟨_, rfl, .intro hequal ih⟩
  | statement h ih => exact .statement ih h.starts
  | expressionStatement h ih => exact .expression ih h.starts
  | exprStmt _ hsemicolon ih => exact .exprStmt ih hsemicolon
  | forStmt hkeyword hl _ _ hsemicolon _ hr _ ihfirst ihcondition ihincrement ihbody =>
    exact .forStmt hkeyword hl ihfirst ihcondition hsemicolon ihincrement hr ihbody
  | forVariable _ ih => exact .variable ih
  | forExpression h ih => exact .expression ih h.starts
  | forNothing hsemicolon => exact .nothing hsemicolon
  | ifThen hkeyword hl _ hr _ ihcondition ihthen =>
    exact .ifThen hkeyword hl ihcondition hr ihthen
  | ifElse hkeyword hl _ hr _ ends hels _ ihcondition ihthen ihelse =>
    obtain rfl := ends nearest
    exact .ifElse hkeyword hl ihcondition hr ihthen hels ihelse
  | printStmt hkeyword _ hsemicolon ih => exact .printStmt hkeyword ih hsemicolon
  | returnStmt hkeyword _ hsemicolon ih => exact .returnStmt hkeyword ih hsemicolon
  | whileStmt hkeyword hl _ hr _ ihcondition ihbody =>
    exact .whileStmt hkeyword hl ihcondition hr ihbody
  | blockStatement _ ih => exact .block ih
  | block hl _ hr ih => exact .block hl ih hr
  | optionalNone => exact .inl ⟨rfl, rfl⟩
  | optionalSome h ih => exact .inr ⟨_, rfl, ih, h.starts⟩
  | expression _ ih => exact ih
  | assignName hname hequal _ ih =>
    have target := (CallComplete.first (PrimaryComplete.name (d := d) hname)).unary
      (.head (by decide) hname [])
    exact .name (target.or (by simp)) hequal ih
  | assignProperty hobject hdot hname hequal _ ihobject ihvalue =>
    have target := (ihobject.property hdot hname).unary (hobject.starts.append _)
    have complete := AssignmentComplete.property (target.or (by simp)) (by simp) hequal ihvalue
    rwa [List.append_assoc] at complete
  | assignOther lax htarget other hequal _ ihtarget ihvalue =>
    exact .other lax ihtarget htarget.starts.length_pos other hequal ihvalue
  | assignNothing h ih => exact .nothing ih h.starts.length_pos
  | logicOrFirst h ih => exact .ofTighter rfl ih h.starts.length_pos
  | logicOrMore _ hop hr ihl ihr =>
    exact .more ihl (by simp [Level.operators, hop]) (.ofTighter rfl ihr hr.starts.length_pos)
      hr.starts.length_pos
  | logicAndFirst h ih => exact .ofTighter rfl ih h.starts.length_pos
  | logicAndMore _ hop hr ihl ihr =>
    exact .more ihl (by simp [Level.operators, hop]) (.ofTighter rfl ihr hr.starts.length_pos)
      hr.starts.length_pos
  | equalityFirst h ih => exact .ofTighter rfl ih h.starts.length_pos
  | equalityMore _ hop hr ihl ihr =>
    exact .more ihl hop (.ofTighter rfl ihr hr.starts.length_pos) hr.starts.length_pos
  | comparisonFirst h ih => exact .ofTighter rfl ih h.starts.length_pos
  | comparisonMore _ hop hr ihl ihr =>
    exact .more ihl hop (.ofTighter rfl ihr hr.starts.length_pos) hr.starts.length_pos
  | termFirst h ih => exact .ofTighter rfl ih h.starts.length_pos
  | termMore _ hop hr ihl ihr =>
    exact .more ihl hop (.ofTighter rfl ihr hr.starts.length_pos) hr.starts.length_pos
  | factorFirst h ih => exact .first (ih.operand h.starts.length_pos) h.starts.length_pos
  | factorMore _ hop hr ihl ihr =>
    exact .more ihl hop (ihr.operand hr.starts.length_pos) hr.starts.length_pos
  | unaryOperator hop _ ih => exact .operator hop ih
  | unaryCall h ih => exact ih.unary h.starts
  | callFirst _ ih => exact .first ih
  | callNone _ hl hr ih => exact ih.none hl hr
  | callSome _ hl h limit hr ih ihargs => exact ih.some hl ihargs h.starts limit hr
  | callProperty _ hdot hname ih => exact ih.property hdot hname
  | lastArgument h ih => exact .last ih h.starts
  | moreArguments h hcomma _ ih ihs => exact .more ih h.starts hcomma ihs
  | literal ht hvalue => exact .constant (constant?_of_literal ht hvalue)
  | true ht => exact .constant (by simp [constant?, ht])
  | false ht => exact .constant (by simp [constant?, ht])
  | nil ht => exact .constant (by simp [constant?, ht])
  | this ht => exact .this ht
  | name ht => exact .name ht
  | grouping hl _ hr ih => exact .grouping hl ih hr
  | super hkeyword hdot hmethod => exact .super hkeyword hdot hmethod

end ClassScript.Parser
