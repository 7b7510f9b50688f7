import ClassScript.Proofs.Grammar.Rules

set_option autoImplicit false

/-!
# How phrases start

The kinds of tokens with which the phrases that cannot be empty start.  They are what lets a reader
of tokens choose between the rules by the next token alone.
-/

namespace ClassScript.Grammar

/-- The kinds with which calls start. -/
def callStarts : List TokenKind :=
  [.number, .string, .kwTrue, .kwFalse, .kwNil, .kwThis, .identifier, .leftParen, .kwSuper]

/-- The kinds with which expressions start. -/
def expressionStarts : List TokenKind :=
  callStarts ++ [.bang, .minus]

/-- The kinds with which statements start. -/
def statementStarts : List TokenKind :=
  [.kwFor, .kwIf, .kwPrint, .kwReturn, .kwWhile, .leftBrace] ++ expressionStarts

/-- The kinds with which declarations start. -/
def declarationStarts : List TokenKind :=
  [.kwClass, .kwFun, .kwVar] ++ statementStarts

/-- The kinds with which a phrase starts, if it is never empty. -/
def Phrase.starts? : Phrase → Option (List TokenKind)
  | program | declarations | superclass | methods | initializer | forFirst | optional => none
  | declaration => some declarationStarts
  | function | parameters => some [.identifier]
  | varDecl => some [.kwVar]
  | statement _ => some statementStarts
  | block => some [.leftBrace]
  | exprStmt | expression | assignment | logicOr | logicAnd | equality | comparison | term
  | factor | unary | arguments => some expressionStarts
  | call | primary => some callStarts

/-- The tokens start with one of the given kinds. -/
def StartsWith (kinds : List TokenKind) (ts : List Token) : Prop :=
  ∃ t us, ts = t :: us ∧ t.kind ∈ kinds

theorem StartsWith.append {kinds : List TokenKind} {ts : List Token} (h : StartsWith kinds ts)
    (us : List Token) : StartsWith kinds (ts ++ us) := by
  obtain ⟨t, rest, rfl, ht⟩ := h
  exact ⟨t, rest ++ us, rfl, ht⟩

theorem StartsWith.mono {kinds more : List TokenKind} {ts : List Token} (h : StartsWith kinds ts)
    (sub : kinds ⊆ more) : StartsWith more ts := by
  obtain ⟨t, rest, rfl, ht⟩ := h
  exact ⟨t, rest, rfl, sub ht⟩

theorem StartsWith.head {kinds : List TokenKind} {k : TokenKind} (hk : k ∈ kinds) {t : Token}
    (ht : t.kind = k) (us : List Token) : StartsWith kinds (t :: us) :=
  ⟨t, us, rfl, ht ▸ hk⟩

theorem StartsWith.length_pos {kinds : List TokenKind} {ts : List Token}
    (h : StartsWith kinds ts) : 0 < ts.length := by
  obtain ⟨t, us, rfl, -⟩ := h
  simp

/-- What `starts?` says of a list of tokens. -/
def Phrase.Starts (p : Phrase) (ts : List Token) : Prop :=
  match p.starts? with
  | some kinds => StartsWith kinds ts
  | none => True

theorem Derives.starts {d : Dialect} {p : Phrase} {ts : List Token} {y : p.Yield}
    (h : Derives d p ts y) : p.Starts ts := by
  induction h with
  | program | noDeclaration | moreDeclarations | noSuperclass | superclass | noMethod
  | moreMethods | noInitializer | initializer | forVariable | forExpression | forNothing
  | optionalNone | optionalSome => trivial
  | classDecl h | funDecl h | functionNone h | functionSome h | lastParameter h
  | moreParameters h | varDecl h | forStmt h | ifThen h | ifElse h | printStmt h | returnStmt h
  | whileStmt h | block h | assignName h | true h | false h | nil h | this h | name h
  | grouping h | super h => exact .head (by decide) h _
  | literal h => exact h.elim (.head (by decide) · _) (.head (by decide) · _)
  | unaryOperator h =>
    exact ⟨_, _, rfl, (by decide : [TokenKind.bang, .minus] ⊆ expressionStarts) h⟩
  | expressionStatement _ ih | blockStatement _ ih | unaryCall _ ih => exact ih.mono (by decide)
  | varDeclaration _ ih | statement _ ih => exact ih.mono (by decide)
  | expression _ ih | assignNothing _ ih | logicOrFirst _ ih | logicAndFirst _ ih
  | equalityFirst _ ih | comparisonFirst _ ih | termFirst _ ih | factorFirst _ ih
  | callFirst _ ih | lastArgument _ ih => exact ih
  | exprStmt _ _ ih | callNone _ _ _ ih | callProperty _ _ _ ih => exact ih.append _
  | assignProperty _ _ _ _ _ ih => exact (ih.append _).mono (by decide)
  | assignOther _ _ _ _ _ ih | logicOrMore _ _ _ ih | logicAndMore _ _ _ ih
  | equalityMore _ _ _ ih | comparisonMore _ _ _ ih | termMore _ _ _ ih | factorMore _ _ _ ih
  | callSome _ _ _ _ _ ih | moreArguments _ _ _ ih => exact ih.append _

end ClassScript.Grammar
