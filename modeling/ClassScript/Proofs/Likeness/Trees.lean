import ClassScript.Proofs.Binding.Settled

set_option autoImplicit false

/-!
# Trees that are alike

Two trees are alike if they have the same shape, and the tokens and the numbers in the same place go
together.  What may be different is said by a guise: names that are changed in some of the scopes,
the lines of tokens, and the numbers of nodes.  Whether a name is changed is a matter of the scope
it is declared in, so trees are alike within scopes of which each is marked or not.
-/

namespace ClassScript

/-! ## Guises -/

/-- How a program may be different from another that it is like. -/
structure Guise where
  /-- What a name is changed to in the scopes that are marked. -/
  word : String → String
  /-- The names that may stand for a binding of a marked scope, and for any other binding. -/
  allows : Bool → String → Prop
  /-- The lines that tokens in the same place may have. -/
  line : Nat → Nat → Prop
  /-- The numbers that references in the same place may have if they refer that far. -/
  link : Nat → Nat → Option Nat → Prop
  injective : Function.Injective word
  this : word "this" = "this"
  /-- Line zero stands where there is no token. -/
  noLine : line 0 0

namespace Guise

/-- A name in a scope that is marked or not. -/
def rename (K : Guise) (mark : Bool) (name : String) : String :=
  if mark then K.word name else name

@[simp] theorem rename_false (K : Guise) (name : String) : K.rename false name = name := rfl

@[simp] theorem rename_true (K : Guise) (name : String) : K.rename true name = K.word name := rfl

theorem rename_injective (K : Guise) (mark : Bool) : Function.Injective (K.rename mark) := by
  cases mark with
  | false => exact fun _ _ same => same
  | true => exact K.injective

theorem rename_this (K : Guise) (mark : Bool) : K.rename mark "this" = "this" := by
  cases mark with
  | false => rfl
  | true => exact K.this

end Guise

/-- Whether the scope that many scopes out is marked.  The globals never are. -/
def markAt (marks : List Bool) (distance : Option Nat) : Bool :=
  distance.elim false fun d => marks.getD d false

/-! ## Tokens -/

namespace Guise

variable (K : Guise)

/-- The tokens are the same, but for their lines. -/
structure SameToken (t t' : Token) : Prop where
  kind : t'.kind = t.kind
  lexeme : t'.lexeme = t.lexeme
  literal : t'.literal = t.literal
  line : K.line t.line t'.line

/-- The tokens stand for a binding in a scope that is marked or not. -/
structure SameName (mark : Bool) (t t' : Token) : Prop where
  kind : t'.kind = t.kind
  lexeme : t'.lexeme = K.rename mark t.lexeme
  literal : t'.literal = t.literal
  line : K.line t.line t'.line
  allowed : K.allows mark t.lexeme

/-- The references have the same distance, and stand for the same binding. -/
structure SameReference (marks : List Bool) (frames : List Frame) (id : Nat) (t : Token)
    (id' : Nat) (t' : Token) : Prop where
  name : K.SameName (markAt marks (distance? t.lexeme frames)) t t'
  linked : K.link id id' (distance? t.lexeme frames)

end Guise

/-! ## Expressions -/

mutual

/-- Expressions that are alike within scopes. -/
inductive Expr.Alike (K : Guise) (marks : List Bool) (frames : List Frame) :
    Expr → Expr → Prop where
  | constant (value : Constant) : Expr.Alike K marks frames (.constant value) (.constant value)
  | unary {operator operator' : Token} {operand operand' : Expr}
      (token : K.SameToken operator operator')
      (inner : Expr.Alike K marks frames operand operand') :
      Expr.Alike K marks frames (.unary operator operand) (.unary operator' operand')
  | binary {left left' right right' : Expr} {operator operator' : Token}
      (first : Expr.Alike K marks frames left left') (token : K.SameToken operator operator')
      (second : Expr.Alike K marks frames right right') :
      Expr.Alike K marks frames (.binary left operator right) (.binary left' operator' right')
  | grouping {e e' : Expr} (inner : Expr.Alike K marks frames e e') :
      Expr.Alike K marks frames (.grouping e) (.grouping e')
  | name {id id' : Nat} {t t' : Token} (same : K.SameReference marks frames id t id' t') :
      Expr.Alike K marks frames (.name id t) (.name id' t')
  | assign {id id' : Nat} {t t' : Token} {value value' : Expr}
      (same : K.SameReference marks frames id t id' t')
      (inner : Expr.Alike K marks frames value value') :
      Expr.Alike K marks frames (.assign id t value) (.assign id' t' value')
  | logical {left left' right right' : Expr} {operator operator' : Token}
      (first : Expr.Alike K marks frames left left') (token : K.SameToken operator operator')
      (second : Expr.Alike K marks frames right right') :
      Expr.Alike K marks frames (.logical left operator right) (.logical left' operator' right')
  | call {callee callee' : Expr} {closing closing' : Token} {arguments arguments' : List Expr}
      (first : Expr.Alike K marks frames callee callee') (token : K.SameToken closing closing')
      (rest : Expr.AlikeAll K marks frames arguments arguments') :
      Expr.Alike K marks frames (.call callee closing arguments)
        (.call callee' closing' arguments')
  | get {object object' : Expr} {property property' : Token}
      (inner : Expr.Alike K marks frames object object')
      (token : K.SameToken property property') :
      Expr.Alike K marks frames (.get object property) (.get object' property')
  | set {object object' value value' : Expr} {property property' : Token}
      (first : Expr.Alike K marks frames object object')
      (token : K.SameToken property property')
      (second : Expr.Alike K marks frames value value') :
      Expr.Alike K marks frames (.set object property value) (.set object' property' value')
  | this {id id' : Nat} {t t' : Token} (same : K.SameReference marks frames id t id' t') :
      Expr.Alike K marks frames (.this id t) (.this id' t')
  | super {id id' : Nat} {t t' method method' : Token}
      (same : K.SameReference marks frames id t id' t') (token : K.SameToken method method') :
      Expr.Alike K marks frames (.super id t method) (.super id' t' method')

/-- Expressions that are alike, one by one. -/
inductive Expr.AlikeAll (K : Guise) (marks : List Bool) (frames : List Frame) :
    List Expr → List Expr → Prop where
  | nil : Expr.AlikeAll K marks frames [] []
  | cons {e e' : Expr} {es es' : List Expr} (head : Expr.Alike K marks frames e e')
      (tail : Expr.AlikeAll K marks frames es es') :
      Expr.AlikeAll K marks frames (e :: es) (e' :: es')

end

/-- Parts that are both absent or alike. -/
def Expr.AlikeOption (K : Guise) (marks : List Bool) (frames : List Frame) :
    Option Expr → Option Expr → Prop :=
  Option.Rel (Expr.Alike K marks frames)

/-! ## Statements -/

mutual

/-- Statements that are alike within scopes.  Whoever opens a scope chooses whether it is marked.
Functions and classes show their names, so these are never changed. -/
inductive Stmt.Alike (K : Guise) : List Bool → List Frame → Stmt → Stmt → Prop where
  | expression {marks : List Bool} {frames : List Frame} {e e' : Expr}
      (inner : e.Alike K marks frames e') :
      Stmt.Alike K marks frames (.expression e) (.expression e')
  | print {marks : List Bool} {frames : List Frame} {e e' : Expr}
      (inner : e.Alike K marks frames e') : Stmt.Alike K marks frames (.print e) (.print e')
  | varDecl {marks : List Bool} {frames : List Frame} {t t' : Token} {e e' : Option Expr}
      (name : K.SameName (marks.headD false) t t')
      (inner : Expr.AlikeOption K marks (declareName t.lexeme frames) e e') :
      Stmt.Alike K marks frames (.varDecl t e) (.varDecl t' e')
  | block {marks : List Bool} {frames : List Frame} {body body' : List Stmt} (mark : Bool)
      (inner : Stmt.AlikeAll K (mark :: marks) ([] :: frames) body body') :
      Stmt.Alike K marks frames (.block body) (.block body')
  | ifThen {marks : List Bool} {frames : List Frame} {e e' : Expr} {s s' : Stmt}
      (condition : e.Alike K marks frames e') (first : Stmt.Alike K marks frames s s') :
      Stmt.Alike K marks frames (.ifThen e s) (.ifThen e' s')
  | ifElse {marks : List Bool} {frames : List Frame} {e e' : Expr} {s s' u u' : Stmt}
      (condition : e.Alike K marks frames e') (first : Stmt.Alike K marks frames s s')
      (second : Stmt.Alike K marks (s.after frames) u u') :
      Stmt.Alike K marks frames (.ifElse e s u) (.ifElse e' s' u')
  | whileLoop {marks : List Bool} {frames : List Frame} {e e' : Expr} {s s' : Stmt}
      (condition : e.Alike K marks frames e') (body : Stmt.Alike K marks frames s s') :
      Stmt.Alike K marks frames (.whileLoop e s) (.whileLoop e' s')
  | funDecl {marks : List Bool} {frames : List Frame} {f f' : FunctionDecl}
      (name : K.SameName (marks.headD false) f.name f'.name)
      (inner : FunctionDecl.Alike K marks (bindName f.name.lexeme frames) f f') :
      Stmt.Alike K marks frames (.funDecl f) (.funDecl f')
  | returnStmt {marks : List Bool} {frames : List Frame} {t t' : Token} {e e' : Option Expr}
      (token : K.SameToken t t') (inner : Expr.AlikeOption K marks frames e e') :
      Stmt.Alike K marks frames (.returnStmt t e) (.returnStmt t' e')
  | rootClass {marks : List Bool} {frames : List Frame} {t t' : Token}
      {methods methods' : List FunctionDecl} (token : K.SameToken t t')
      (name : K.SameName (marks.headD false) t t')
      (inner : FunctionDecl.AlikeAll K (false :: marks)
        (receiverFrame :: bindName t.lexeme frames) methods methods') :
      Stmt.Alike K marks frames (.classDecl t none methods) (.classDecl t' none methods')
  | subclass {marks : List Bool} {frames : List Frame} {t t' : Token} {e e' : Expr}
      {methods methods' : List FunctionDecl} (token : K.SameToken t t')
      (name : K.SameName (marks.headD false) t t')
      (superclass : e.Alike K marks (bindName t.lexeme frames) e')
      (inner : FunctionDecl.AlikeAll K (false :: false :: marks)
        (receiverFrame :: superclassFrame :: bindName t.lexeme frames) methods methods') :
      Stmt.Alike K marks frames (.classDecl t (some e) methods)
        (.classDecl t' (some e') methods')

/-- Statements that are alike, each in the scopes that those before it left. -/
inductive Stmt.AlikeAll (K : Guise) : List Bool → List Frame → List Stmt → List Stmt → Prop where
  | nil {marks : List Bool} {frames : List Frame} : Stmt.AlikeAll K marks frames [] []
  | cons {marks : List Bool} {frames : List Frame} {s s' : Stmt} {ss ss' : List Stmt}
      (head : Stmt.Alike K marks frames s s')
      (tail : Stmt.AlikeAll K marks (s.after frames) ss ss') :
      Stmt.AlikeAll K marks frames (s :: ss) (s' :: ss')

/-- Functions that have the same name, and bodies that are alike. -/
inductive FunctionDecl.Alike (K : Guise) :
    List Bool → List Frame → FunctionDecl → FunctionDecl → Prop where
  | mk {marks : List Bool} {frames : List Frame} {t t' : Token} {ps ps' : List Token}
      {body body' : List Stmt} (mark : Bool) (token : K.SameToken t t')
      (parameters : List.Forall₂ (K.SameName mark) ps ps')
      (inner : Stmt.AlikeAll K (mark :: marks)
        (bindNames (ps.map Token.lexeme) ([] :: frames)) body body') :
      FunctionDecl.Alike K marks frames ⟨t, ps, body⟩ ⟨t', ps', body'⟩

/-- Functions that are alike, one by one. -/
inductive FunctionDecl.AlikeAll (K : Guise) :
    List Bool → List Frame → List FunctionDecl → List FunctionDecl → Prop where
  | nil {marks : List Bool} {frames : List Frame} : FunctionDecl.AlikeAll K marks frames [] []
  | cons {marks : List Bool} {frames : List Frame} {f f' : FunctionDecl}
      {fs fs' : List FunctionDecl} (head : FunctionDecl.Alike K marks frames f f')
      (tail : FunctionDecl.AlikeAll K marks frames fs fs') :
      FunctionDecl.AlikeAll K marks frames (f :: fs) (f' :: fs')

end

/-! ## What trees that are alike have in common -/

variable {K : Guise} {marks : List Bool} {frames : List Frame}

/-- Lines that go together, where there is no token the line zero. -/
theorem Guise.line_getD {l l' : Option Nat} (h : Option.Rel K.line l l') {n n' : Nat}
    (other : K.line n n') : K.line (l.getD n) (l'.getD n') := by
  cases h with
  | none => exact other
  | some same => exact same

/-- The token that an expression remembers is in the same place. -/
theorem Expr.Alike.line? {e e' : Expr} (h : e.Alike K marks frames e') :
    Option.Rel K.line e.line? e'.line? := by
  match e, h with
  | .constant _, .constant _ => exact .none
  | .grouping _, .grouping inner => exact inner.line?
  | .unary .., .unary token _ => exact .some token.line
  | .binary .., .binary _ token _ => exact .some token.line
  | .logical .., .logical _ token _ => exact .some token.line
  | .call .., .call _ token _ => exact .some token.line
  | .get .., .get _ token => exact .some token.line
  | .set .., .set _ token _ => exact .some token.line
  | .name .., .name same => exact .some same.name.line
  | .assign .., .assign same _ => exact .some same.name.line
  | .this .., .this same => exact .some same.name.line
  | .super .., .super same _ => exact .some same.name.line

/-- Functions that are alike have the same name. -/
theorem FunctionDecl.Alike.sameToken {f f' : FunctionDecl} (h : f.Alike K marks frames f') :
    K.SameToken f.name f'.name := by
  cases h with
  | mk _ token _ _ => exact token

theorem FunctionDecl.Alike.isInitializer {f f' : FunctionDecl} (h : f.Alike K marks frames f') :
    f'.isInitializer = f.isInitializer := by
  unfold FunctionDecl.isInitializer
  rw [h.sameToken.lexeme]

theorem FunctionDecl.Alike.arity {f f' : FunctionDecl} (h : f.Alike K marks frames f') :
    f'.parameters.length = f.parameters.length := by
  cases h with
  | mk _ _ parameters _ => exact parameters.length_eq.symm

end ClassScript
