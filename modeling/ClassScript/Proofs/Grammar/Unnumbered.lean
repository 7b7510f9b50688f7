import ClassScript.Tree.Walk
import Mathlib

set_option autoImplicit false

/-!
# Trees without node numbers

The number of a node tells it apart from other nodes and says nothing about the text it was read
from.  `unnumbered` gives every reference of a tree the number zero, so that two trees are the same
up to numbers exactly if they have the same image.
-/

namespace ClassScript

mutual

/-- An expression whose references all have the number zero. -/
def Expr.unnumbered : Expr → Expr
  | .constant value => .constant value
  | .unary operator operand => .unary operator operand.unnumbered
  | .binary left operator right => .binary left.unnumbered operator right.unnumbered
  | .grouping inner => .grouping inner.unnumbered
  | .name _ token => .name 0 token
  | .assign _ target value => .assign 0 target value.unnumbered
  | .logical left operator right => .logical left.unnumbered operator right.unnumbered
  | .call callee closing arguments =>
    .call callee.unnumbered closing (Expr.unnumberedAll arguments)
  | .get object property => .get object.unnumbered property
  | .set object property value => .set object.unnumbered property value.unnumbered
  | .this _ keyword => .this 0 keyword
  | .super _ keyword method => .super 0 keyword method

/-- Expressions whose references all have the number zero. -/
def Expr.unnumberedAll : List Expr → List Expr
  | [] => []
  | e :: es => e.unnumbered :: Expr.unnumberedAll es

end

mutual

/-- A statement whose references all have the number zero. -/
def Stmt.unnumbered : Stmt → Stmt
  | .expression value => .expression value.unnumbered
  | .print value => .print value.unnumbered
  | .varDecl name initializer => .varDecl name (initializer.map Expr.unnumbered)
  | .block body => .block (Stmt.unnumberedAll body)
  | .ifThen condition thenBranch => .ifThen condition.unnumbered thenBranch.unnumbered
  | .ifElse condition thenBranch elseBranch =>
    .ifElse condition.unnumbered thenBranch.unnumbered elseBranch.unnumbered
  | .whileLoop condition body => .whileLoop condition.unnumbered body.unnumbered
  | .funDecl declaration => .funDecl declaration.unnumbered
  | .returnStmt keyword value => .returnStmt keyword (value.map Expr.unnumbered)
  | .classDecl name superclass methods =>
    .classDecl name (superclass.map Expr.unnumbered) (FunctionDecl.unnumberedAll methods)

/-- Statements whose references all have the number zero. -/
def Stmt.unnumberedAll : List Stmt → List Stmt
  | [] => []
  | s :: ss => s.unnumbered :: Stmt.unnumberedAll ss

/-- A declaration whose references all have the number zero. -/
def FunctionDecl.unnumbered : FunctionDecl → FunctionDecl
  | ⟨name, parameters, body⟩ => ⟨name, parameters, Stmt.unnumberedAll body⟩

/-- Declarations whose references all have the number zero. -/
def FunctionDecl.unnumberedAll : List FunctionDecl → List FunctionDecl
  | [] => []
  | d :: ds => d.unnumbered :: FunctionDecl.unnumberedAll ds

end

/-! ## Lists of trees -/

theorem Expr.length_unnumberedAll (es : List Expr) :
    (Expr.unnumberedAll es).length = es.length := by
  induction es with
  | nil => rfl
  | cons e es ih => simp [Expr.unnumberedAll, ih]

/-! ## Shapes that the numbers do not hide -/

theorem Expr.unnumbered_eq_name {e : Expr} {id : Nat} {token : Token}
    (h : e.unnumbered = .name id token) : ∃ j, e = .name j token := by
  cases e <;> simp only [Expr.unnumbered, reduceCtorEq, Expr.name.injEq] at h
  exact ⟨_, by rw [h.2]⟩

theorem Expr.unnumbered_eq_get {e object : Expr} {property : Token}
    (h : e.unnumbered = .get object property) :
    ∃ o, e = .get o property ∧ o.unnumbered = object := by
  cases e <;> simp only [Expr.unnumbered, reduceCtorEq, Expr.get.injEq] at h
  exact ⟨_, by rw [h.2], h.1⟩

/-- Only names and properties can be assigned to. -/
def Expr.isTarget : Expr → Bool
  | .name _ _ => true
  | .get _ _ => true
  | _ => false

@[simp] theorem Expr.isTarget_unnumbered (e : Expr) : e.unnumbered.isTarget = e.isTarget := by
  cases e <;> rfl

/-- The desugaring of `for` is blind to numbers. -/
theorem Stmt.unnumbered_forLoop (initializer : Option Stmt) (condition increment : Option Expr)
    (body : Stmt) :
    (Stmt.forLoop initializer condition increment body).unnumbered =
      Stmt.forLoop (initializer.map Stmt.unnumbered) (condition.map Expr.unnumbered)
        (increment.map Expr.unnumbered) body.unnumbered := by
  cases initializer <;> cases condition <;> cases increment <;> rfl

end ClassScript
