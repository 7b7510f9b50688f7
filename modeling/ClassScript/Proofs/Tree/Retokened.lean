import ClassScript.Proofs.Grammar.Unnumbered

set_option autoImplicit false

/-!
# Trees with other tokens

The tokens of a tree can be exchanged one by one.  A tree that was read from other lines of a source
is one that is made like this, up to the numbers of its nodes.
-/

namespace ClassScript

variable (f : Token → Token)

mutual

/-- The expression with every token exchanged. -/
def Expr.mapTokens : Expr → Expr
  | .constant value => .constant value
  | .unary operator operand => .unary (f operator) operand.mapTokens
  | .binary left operator right => .binary left.mapTokens (f operator) right.mapTokens
  | .grouping inner => .grouping inner.mapTokens
  | .name id token => .name id (f token)
  | .assign id target value => .assign id (f target) value.mapTokens
  | .logical left operator right => .logical left.mapTokens (f operator) right.mapTokens
  | .call callee closing arguments =>
    .call callee.mapTokens (f closing) (Expr.mapTokensAll arguments)
  | .get object property => .get object.mapTokens (f property)
  | .set object property value => .set object.mapTokens (f property) value.mapTokens
  | .this id keyword => .this id (f keyword)
  | .super id keyword method => .super id (f keyword) (f method)

/-- The expressions with every token exchanged. -/
def Expr.mapTokensAll : List Expr → List Expr
  | [] => []
  | e :: es => e.mapTokens :: Expr.mapTokensAll es

end

mutual

/-- The statement with every token exchanged. -/
def Stmt.mapTokens : Stmt → Stmt
  | .expression value => .expression (value.mapTokens f)
  | .print value => .print (value.mapTokens f)
  | .varDecl name initializer => .varDecl (f name) (initializer.map (Expr.mapTokens f))
  | .block body => .block (Stmt.mapTokensAll body)
  | .ifThen condition thenBranch => .ifThen (condition.mapTokens f) thenBranch.mapTokens
  | .ifElse condition thenBranch elseBranch =>
    .ifElse (condition.mapTokens f) thenBranch.mapTokens elseBranch.mapTokens
  | .whileLoop condition body => .whileLoop (condition.mapTokens f) body.mapTokens
  | .funDecl declaration => .funDecl declaration.mapTokens
  | .returnStmt keyword value => .returnStmt (f keyword) (value.map (Expr.mapTokens f))
  | .classDecl name superclass methods =>
    .classDecl (f name) (superclass.map (Expr.mapTokens f)) (FunctionDecl.mapTokensAll methods)

/-- The statements with every token exchanged. -/
def Stmt.mapTokensAll : List Stmt → List Stmt
  | [] => []
  | s :: ss => s.mapTokens :: Stmt.mapTokensAll ss

/-- The declaration with every token exchanged. -/
def FunctionDecl.mapTokens : FunctionDecl → FunctionDecl
  | ⟨name, parameters, body⟩ => ⟨f name, parameters.map f, Stmt.mapTokensAll body⟩

/-- The declarations with every token exchanged. -/
def FunctionDecl.mapTokensAll : List FunctionDecl → List FunctionDecl
  | [] => []
  | d :: ds => d.mapTokens :: FunctionDecl.mapTokensAll ds

end

/-! ## No token exchanged -/

mutual

@[simp] theorem Expr.mapTokens_id (e : Expr) : e.mapTokens id = e := by
  match e with
  | .constant _ | .name .. | .this .. | .super .. => rfl
  | .grouping inner => rw [Expr.mapTokens, Expr.mapTokens_id inner]
  | .unary _ inner | .assign _ _ inner | .get inner _ =>
    rw [Expr.mapTokens, Expr.mapTokens_id inner]
    rfl
  | .binary left _ right | .logical left _ right | .set left _ right =>
    rw [Expr.mapTokens, Expr.mapTokens_id left, Expr.mapTokens_id right]
    rfl
  | .call callee _ arguments =>
    rw [Expr.mapTokens, Expr.mapTokens_id callee, Expr.mapTokensAll_id arguments]
    rfl

theorem Expr.mapTokensAll_id (es : List Expr) : Expr.mapTokensAll id es = es := by
  match es with
  | [] => rfl
  | e :: es => rw [Expr.mapTokensAll, Expr.mapTokens_id e, Expr.mapTokensAll_id es]

end

theorem Expr.map_mapTokens_id (e : Option Expr) : e.map (Expr.mapTokens id) = e := by
  cases e with
  | none => rfl
  | some e => rw [Option.map_some, Expr.mapTokens_id]

mutual

theorem Stmt.mapTokens_id (s : Stmt) : s.mapTokens id = s := by
  match s with
  | .expression value | .print value => rw [Stmt.mapTokens, Expr.mapTokens_id]
  | .varDecl _ value | .returnStmt _ value =>
    rw [Stmt.mapTokens, Expr.map_mapTokens_id]
    rfl
  | .block body => rw [Stmt.mapTokens, Stmt.mapTokensAll_id body]
  | .ifThen _ inner | .whileLoop _ inner =>
    rw [Stmt.mapTokens, Expr.mapTokens_id, Stmt.mapTokens_id inner]
  | .ifElse _ first second =>
    rw [Stmt.mapTokens, Expr.mapTokens_id, Stmt.mapTokens_id first, Stmt.mapTokens_id second]
  | .funDecl declaration => rw [Stmt.mapTokens, FunctionDecl.mapTokens_id declaration]
  | .classDecl _ superclass methods =>
    rw [Stmt.mapTokens, Expr.map_mapTokens_id, FunctionDecl.mapTokensAll_id methods]
    rfl

theorem Stmt.mapTokensAll_id (ss : List Stmt) : Stmt.mapTokensAll id ss = ss := by
  match ss with
  | [] => rfl
  | s :: ss => rw [Stmt.mapTokensAll, Stmt.mapTokens_id s, Stmt.mapTokensAll_id ss]

theorem FunctionDecl.mapTokens_id (d : FunctionDecl) : d.mapTokens id = d := by
  match d with
  | ⟨_, _, body⟩ =>
    rw [FunctionDecl.mapTokens, Stmt.mapTokensAll_id body, List.map_id]
    rfl

theorem FunctionDecl.mapTokensAll_id (ds : List FunctionDecl) :
    FunctionDecl.mapTokensAll id ds = ds := by
  match ds with
  | [] => rfl
  | d :: ds =>
    rw [FunctionDecl.mapTokensAll, FunctionDecl.mapTokens_id d, FunctionDecl.mapTokensAll_id ds]

end

end ClassScript
