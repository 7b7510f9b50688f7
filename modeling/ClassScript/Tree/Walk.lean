import ClassScript.Tree.Basic

set_option autoImplicit false

/-!
# Walking a tree

Every expression of a program in reading order: statements one after the other, an expression
before its parts, and the parts from left to right.  The references of a program are those
expressions that carry a node number.
-/

namespace ClassScript

mutual

/-- An expression and all expressions inside it. -/
def Expr.walk (e : Expr) : List Expr :=
  e :: match e with
  | .constant _ => []
  | .unary _ operand => operand.walk
  | .binary left _ right => left.walk ++ right.walk
  | .grouping inner => inner.walk
  | .name _ _ => []
  | .assign _ _ value => value.walk
  | .logical left _ right => left.walk ++ right.walk
  | .call callee _ arguments => callee.walk ++ Expr.walkAll arguments
  | .get object _ => object.walk
  | .set object _ value => object.walk ++ value.walk
  | .this _ _ => []
  | .super _ _ _ => []

/-- All expressions of a list of them. -/
def Expr.walkAll : List Expr → List Expr
  | [] => []
  | e :: es => e.walk ++ Expr.walkAll es

end

/-- The expressions of a part that may be absent. -/
def Expr.walkOption : Option Expr → List Expr
  | some e => e.walk
  | none => []

mutual

/-- All expressions of a statement. -/
def Stmt.walk : Stmt → List Expr
  | .expression value => value.walk
  | .print value => value.walk
  | .varDecl _ initializer => Expr.walkOption initializer
  | .block body => Stmt.walkAll body
  | .ifThen condition thenBranch => condition.walk ++ thenBranch.walk
  | .ifElse condition thenBranch elseBranch =>
    condition.walk ++ thenBranch.walk ++ elseBranch.walk
  | .whileLoop condition body => condition.walk ++ body.walk
  | .funDecl declaration => declaration.walk
  | .returnStmt _ value => Expr.walkOption value
  | .classDecl _ superclass methods =>
    Expr.walkOption superclass ++ FunctionDecl.walkAll methods

/-- All expressions of statements. -/
def Stmt.walkAll : List Stmt → List Expr
  | [] => []
  | s :: ss => s.walk ++ Stmt.walkAll ss

/-- All expressions of a body. -/
def FunctionDecl.walk : FunctionDecl → List Expr
  | ⟨_, _, body⟩ => Stmt.walkAll body

/-- All expressions of bodies. -/
def FunctionDecl.walkAll : List FunctionDecl → List Expr
  | [] => []
  | d :: ds => d.walk ++ FunctionDecl.walkAll ds

end

/-! ## References -/

/-- The four ways to refer to a binding. -/
inductive ReferenceKind where
  | name
  | assign
  | this
  | super
  deriving DecidableEq, Repr

/-- A node that refers to a binding, with the token it refers by. -/
structure Reference where
  kind : ReferenceKind
  id : Nat
  token : Token

/-- The reference that an expression itself makes. -/
def Expr.reference? : Expr → Option Reference
  | .name id token => some { kind := .name, id, token }
  | .assign id target _ => some { kind := .assign, id, token := target }
  | .this id keyword => some { kind := .this, id, token := keyword }
  | .super id keyword _ => some { kind := .super, id, token := keyword }
  | _ => none

/-- The references of a program in reading order. -/
def references (program : List Stmt) : List Reference :=
  (Stmt.walkAll program).filterMap Expr.reference?

end ClassScript
