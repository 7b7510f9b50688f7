import ClassScript.Proofs.Binding.Visits

set_option autoImplicit false

/-!
# What a program declares and refers to, and which of it is illegal

The occasions of a program are the places where it declares a name, refers to a binding, returns, or
names a superclass, in the order in which the walk that binds names comes to them: a declaration
before its initializer or body, an assigned or set value before its target.  Each comes with the
scopes around it and the names that they have by then, which is read off the tree alone: whether an
occasion breaks a rule, and how many scopes out its name is declared, is said here without the walk.
-/

namespace ClassScript

/-! ## Scopes around a place -/

/-- A scope of the text: the construct that opens it and the names declared in it so far. -/
structure LexicalScope where
  site : Site
  names : List String

/-- The scopes around a place once names are declared there.  What no scope is around is global. -/
def declareIn (names : List String) : List LexicalScope → List LexicalScope
  | [] => []
  | innermost :: outer => { innermost with names := innermost.names ++ names } :: outer

/-- How many scope boundaries lie between a place and the innermost scope with a name. -/
def address? (name : String) (around : List LexicalScope) : Option Nat :=
  around.findIdx? (name ∈ ·.names)

/-- The address leads to a scope with the name, and no scope nearer to the place has it. -/
theorem address?_eq_some {name : String} {around : List LexicalScope} {d : Nat} :
    address? name around = some d ↔
      ∃ scope, around[d]? = some scope ∧ name ∈ scope.names ∧
        ∀ i < d, ∀ nearer, around[i]? = some nearer → name ∉ nearer.names := by
  unfold address?
  rw [List.findIdx?_eq_some_iff_getElem]
  constructor
  · rintro ⟨bound, found, nearer⟩
    refine ⟨around[d], List.getElem?_eq_getElem bound, of_decide_eq_true found, ?_⟩
    intro i hi scope here
    obtain ⟨_, rfl⟩ := List.getElem?_eq_some_iff.1 here
    simpa using nearer i hi
  · rintro ⟨scope, here, found, nearer⟩
    obtain ⟨bound, rfl⟩ := List.getElem?_eq_some_iff.1 here
    refine ⟨bound, decide_eq_true found, fun i hi => ?_⟩
    simpa using nearer i hi _ (List.getElem?_eq_getElem (hi.trans bound))

theorem address?_eq_none {name : String} {around : List LexicalScope} :
    address? name around = none ↔ ∀ scope ∈ around, name ∉ scope.names := by
  simp [address?]

/-- A name that is to be declared, unless it is global or a redeclaration. -/
def newLocal? (name : String) : List LexicalScope → Option String
  | [] => none
  | innermost :: _ => if name ∈ innermost.names then none else some name

/-- The scopes around the methods of a class. -/
def aroundMethods (subclass : Bool) (methods : List FunctionDecl) (around : List LexicalScope) :
    List LexicalScope :=
  { site := .this methods, names := ["this"] } ::
    if subclass then { site := .super methods, names := ["super"] } :: around else around

/-- The names that a statement declares in the scope it stands in. -/
def Stmt.declared : Stmt → List String
  | .varDecl name _ => [name.lexeme]
  | .funDecl declaration => [declaration.name.lexeme]
  | .classDecl name _ _ => [name.lexeme]
  | .ifThen _ thenBranch => thenBranch.declared
  | .ifElse _ thenBranch elseBranch => thenBranch.declared ++ elseBranch.declared
  | .whileLoop _ body => body.declared
  | _ => []

/-- The innermost function around a place, and whether it is a method. -/
def functionAround? : List Site → Option (FunctionDecl × Bool)
  | [] => none
  | .body f :: .this _ :: _ => some (f, true)
  | .body f :: _ => some (f, false)
  | _ :: outer => functionAround? outer

/-- Whether the innermost class around a place has a superclass. -/
def classAround? : List Site → Option Bool
  | [] => none
  | .this _ :: .super _ :: _ => some true
  | .this _ :: _ => some false
  | _ :: outer => classAround? outer

/-! ## Occasions -/

/-- What happens on an occasion. -/
inductive Act where
  | declares (name : Token)
  | reads (id : Nat) (name : Token)
  | assigns (id : Nat) (target : Token)
  | returns (keyword : Token) (valued : Bool)
  | this (id : Nat) (keyword : Token)
  | super (id : Nat) (keyword : Token)
  /-- a class has a superclass, which is given by name -/
  | inherits (name superclass : Token)

/-- An occasion where the walk comes to it. -/
structure Occasion where
  act : Act
  /-- the scopes around it, innermost first -/
  around : List LexicalScope
  /-- the new local name in whose initializer it is -/
  initializes : Option String

namespace Occasion

variable (o : Occasion)

/-- The constructs around the occasion, innermost first. -/
def sites : List Site := o.around.map LexicalScope.site

/-- The token at which a fault would be reported. -/
def token : Token :=
  match o.act with
  | .declares name => name
  | .reads _ name => name
  | .assigns _ target => target
  | .returns keyword _ => keyword
  | .this _ keyword => keyword
  | .super _ keyword => keyword
  | .inherits _ superclass => superclass

/-- The reference that the occasion is. -/
def reference? : Option Reference :=
  match o.act with
  | .reads id name => some { kind := .name, id, token := name }
  | .assigns id target => some { kind := .assign, id, token := target }
  | .this id keyword => some { kind := .this, id, token := keyword }
  | .super id keyword => some { kind := .super, id, token := keyword }
  | _ => none

/-- The lexical address of what a reference refers to.  Outside of every class there is no receiver
that `this` could refer to. -/
def address? : Option Nat :=
  match o.act with
  | .this _ keyword =>
    if (classAround? o.sites).isSome then ClassScript.address? keyword.lexeme o.around else none
  | _ => ClassScript.address? o.token.lexeme o.around

/-- The rules of declaration and position that an occasion breaks. -/
inductive Breaks : Occasion → BindingFault → Prop where
  /-- The innermost scope has the name already. -/
  | redeclared {name : Token} {innermost : LexicalScope} {outer : List LexicalScope}
      {initializes : Option String} (twice : name.lexeme ∈ innermost.names) :
      Breaks ⟨.declares name, innermost :: outer, initializes⟩ .alreadyDeclared
  /-- The name read is the one being initialized. -/
  | ownInitializer {id : Nat} {name : Token} {around : List LexicalScope} :
      Breaks ⟨.reads id name, around, some name.lexeme⟩ .readInOwnInitializer
  | returnOutside {keyword : Token} {valued : Bool} {around : List LexicalScope}
      {initializes : Option String} (outside : functionAround? (around.map (·.site)) = none) :
      Breaks ⟨.returns keyword valued, around, initializes⟩ .returnOutsideFunction
  | returnedValue {keyword : Token} {f : FunctionDecl} {around : List LexicalScope}
      {initializes : Option String} (initializer : f.isInitializer)
      (inside : functionAround? (around.map (·.site)) = some (f, true)) :
      Breaks ⟨.returns keyword true, around, initializes⟩ .valueFromInitializer
  | thisOutside {id : Nat} {keyword : Token} {around : List LexicalScope}
      {initializes : Option String} (outside : classAround? (around.map (·.site)) = none) :
      Breaks ⟨.this id keyword, around, initializes⟩ .thisOutsideClass
  | superOutside {id : Nat} {keyword : Token} {around : List LexicalScope}
      {initializes : Option String} (outside : classAround? (around.map (·.site)) = none) :
      Breaks ⟨.super id keyword, around, initializes⟩ .superOutsideClass
  | superWithout {id : Nat} {keyword : Token} {around : List LexicalScope}
      {initializes : Option String} (inside : classAround? (around.map (·.site)) = some false) :
      Breaks ⟨.super id keyword, around, initializes⟩ .superWithoutSuperclass
  | selfInherited {name superclass : Token} {around : List LexicalScope}
      {initializes : Option String} (same : superclass.lexeme = name.lexeme) :
      Breaks ⟨.inherits name superclass, around, initializes⟩ .selfInheritance

/-- No occasion breaks two rules. -/
theorem Breaks.unique {o : Occasion} {fault other : BindingFault} (h : o.Breaks fault)
    (k : o.Breaks other) : fault = other := by
  cases h with
  | redeclared _ | ownInitializer | thisOutside _ | selfInherited _ =>
    cases k
    rfl
  | returnOutside outside =>
    cases k with
    | returnOutside _ => rfl
    | returnedValue _ inside => exact absurd (outside.symm.trans inside) nofun
  | returnedValue _ inside =>
    cases k with
    | returnOutside outside => exact absurd (outside.symm.trans inside) nofun
    | returnedValue _ _ => rfl
  | superOutside outside =>
    cases k with
    | superOutside _ => rfl
    | superWithout inside => exact absurd (outside.symm.trans inside) nofun
  | superWithout inside =>
    cases k with
    | superOutside outside => exact absurd (outside.symm.trans inside) nofun
    | superWithout _ => rfl

end Occasion

mutual

/-- The occasions of an expression, in the order of the walk. -/
def Expr.occasions (around : List LexicalScope) (initializes : Option String) :
    Expr → List Occasion
  | .constant _ => []
  | .unary _ operand => operand.occasions around initializes
  | .binary left _ right => left.occasions around initializes ++ right.occasions around initializes
  | .grouping inner => inner.occasions around initializes
  | .name id token => [⟨.reads id token, around, initializes⟩]
  | .assign id target value =>
    value.occasions around initializes ++ [⟨.assigns id target, around, initializes⟩]
  | .logical left _ right => left.occasions around initializes ++ right.occasions around initializes
  | .call callee _ arguments =>
    callee.occasions around initializes ++ Expr.occasionsAll around initializes arguments
  | .get object _ => object.occasions around initializes
  | .set object _ value => value.occasions around initializes ++ object.occasions around initializes
  | .this id keyword => [⟨.this id keyword, around, initializes⟩]
  | .super id keyword _ => [⟨.super id keyword, around, initializes⟩]

/-- The occasions of expressions, in reading order. -/
def Expr.occasionsAll (around : List LexicalScope) (initializes : Option String) :
    List Expr → List Occasion
  | [] => []
  | e :: es => e.occasions around initializes ++ Expr.occasionsAll around initializes es

end

/-- The occasions of a part that may be absent. -/
def Expr.occasionsOption (around : List LexicalScope) (initializes : Option String) :
    Option Expr → List Occasion
  | none => []
  | some e => e.occasions around initializes

/-- The declarations of parameters, each of which the next ones see. -/
def parameterOccasions : List Token → List LexicalScope → List Occasion
  | [], _ => []
  | p :: ps, around =>
    ⟨.declares p, around, none⟩ :: parameterOccasions ps (declareIn [p.lexeme] around)

/-- That a class has a superclass, if it is given by name. -/
def inheritanceOccasions (around : List LexicalScope) (name : Token) (superclass : Expr) :
    List Occasion :=
  match superclass.nameToken? with
  | some token => [⟨.inherits name token, around, none⟩]
  | none => []

mutual

/-- The occasions of a statement, in the order of the walk. -/
def Stmt.occasions (around : List LexicalScope) : Stmt → List Occasion
  | .expression value => value.occasions around none
  | .print value => value.occasions around none
  | .varDecl name initializer =>
    ⟨.declares name, around, none⟩ ::
      Expr.occasionsOption (declareIn [name.lexeme] around) (newLocal? name.lexeme around)
        initializer
  | .block body => Stmt.occasionsAll ({ site := .block body, names := [] } :: around) body
  | .ifThen condition thenBranch =>
    condition.occasions around none ++ thenBranch.occasions around
  | .ifElse condition thenBranch elseBranch =>
    condition.occasions around none ++ thenBranch.occasions around ++
      elseBranch.occasions (declareIn thenBranch.declared around)
  | .whileLoop condition body => condition.occasions around none ++ body.occasions around
  | .funDecl declaration =>
    ⟨.declares declaration.name, around, none⟩ ::
      declaration.occasions (declareIn [declaration.name.lexeme] around)
  | .returnStmt keyword value =>
    ⟨.returns keyword value.isSome, around, none⟩ :: Expr.occasionsOption around none value
  | .classDecl name superclass methods =>
    let declared := declareIn [name.lexeme] around
    ⟨.declares name, around, none⟩ ::
      match superclass with
      | some e =>
        inheritanceOccasions declared name e ++ e.occasions declared none ++
          FunctionDecl.occasionsAll (aroundMethods true methods declared) methods
      | none => FunctionDecl.occasionsAll (aroundMethods false methods declared) methods

/-- The occasions of statements; what one declares is in scope for those after it. -/
def Stmt.occasionsAll (around : List LexicalScope) : List Stmt → List Occasion
  | [] => []
  | s :: ss => s.occasions around ++ Stmt.occasionsAll (declareIn s.declared around) ss

/-- The occasions of a function, whose scope has the parameters. -/
def FunctionDecl.occasions (around : List LexicalScope) : FunctionDecl → List Occasion
  | ⟨name, parameters, body⟩ =>
    let opened := { site := .body ⟨name, parameters, body⟩, names := [] } :: around
    parameterOccasions parameters opened ++
      Stmt.occasionsAll (declareIn (parameters.map Token.lexeme) opened) body

/-- The occasions of functions that lie in one scope. -/
def FunctionDecl.occasionsAll (around : List LexicalScope) : List FunctionDecl → List Occasion
  | [] => []
  | f :: fs => f.occasions around ++ FunctionDecl.occasionsAll around fs

end

/-- The occasions of a program, around which there is no scope. -/
def occasions (program : List Stmt) : List Occasion :=
  Stmt.occasionsAll [] program

end ClassScript
