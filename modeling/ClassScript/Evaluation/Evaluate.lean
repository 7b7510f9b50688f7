import ClassScript.Evaluation.State

set_option autoImplicit false

/-!
# Running trees

Evaluating an expression yields a value, executing a statement tells how it finished: a `return`
travels outward through blocks and loops as a value of its own, up to the call it belongs to.
Parts are evaluated from left to right, and the first error ends everything around it.

Every step counts down a fuel, so that all runs end; a run that ends otherwise is the same with any
more fuel.
-/

namespace ClassScript

/-- How a statement finishes. -/
inductive Flow where
  | normal
  /-- a `return` on its way to its call -/
  | returned (value : Value)
  deriving Inhabited

namespace Eval

/-! ## Operators -/

/-- The value of a unary operator. -/
def applyUnary {σ : Type} (operator : Token) (operand : Value) : Action σ Value :=
  match operator.kind with
  | .minus =>
    match operand with
    | .number x => return .number (-x)
    | _ => fail .operandNotNumber operator.line
  | .bang => return .bool (!operand.isTruthy)
  | _ => throw .malformed

/-- A sum of numbers, or two texts put together. -/
def add {σ : Type} (left right : Value) (line : Nat) : Action σ Value :=
  match left, right with
  | .number a, .number b => return .number (a + b)
  | .text a, .text b => return .text (a ++ b)
  | _, _ => fail .operandsNotAddable line

/-- The value of an operator on two numbers.  A division by zero has the value that floating-point
arithmetic gives it. -/
def arithmetic (kind : TokenKind) (a b : Float) : Option Value :=
  match kind with
  | .minus => some (.number (a - b))
  | .slash => some (.number (a / b))
  | .star => some (.number (a * b))
  | .greater => some (.bool (a > b))
  | .greaterEqual => some (.bool (a ≥ b))
  | .less => some (.bool (a < b))
  | .lessEqual => some (.bool (a ≤ b))
  | _ => none

/-- The value of a binary operator. -/
def applyBinary {σ : Type} (operator : Token) (left right : Value) : Action σ Value :=
  match operator.kind with
  | .equalEqual => return .bool (left.equals right)
  | .bangEqual => return .bool (!left.equals right)
  | .plus => add left right operator.line
  | kind =>
    match left, right with
    | .number a, .number b =>
      match arithmetic kind a b with
      | some value => return value
      | none => throw .malformed
    | _, _ => fail .operandsNotNumbers operator.line

/-- Whether the left side of `and` or `or` already decides. -/
def decides (operator : Token) (left : Value) : Bool :=
  if operator.kind = .kwOr then left.isTruthy else !left.isTruthy

/-! ## References to a superclass -/

/-- The value of `super.method`.  The superclass is found at the distance of the reference, and the
receiver one scope nearer. -/
def superMethod (id : Nat) (keyword method : Token) : Eval Value := do
  let undefinedSuper : Eval Value := fail (.undefinedVariable keyword.lexeme) keyword.line
  let s ← get
  match s.distances.get? id with
  | none => undefinedSuper
  | some distance =>
    match s.scopes.getAt? s.current distance keyword.lexeme, distance with
    | some (.ofClass superclass), nearer + 1 =>
      match s.scopes.getAt? s.current nearer "this" with
      | some (.object receiver) =>
        match superclass.findMethod? method.lexeme with
        | some found => bind found receiver
        | none => fail (.undefinedProperty method.lexeme) method.line
      | some _ => undefinedSuper
      | none => fail (.undefinedVariable "this") keyword.line
    | _, _ => undefinedSuper

/-! ## Classes -/

/-- The methods of a class declared in a scope; of two with one name the later counts. -/
def closeMethods (scope : Nat) (methods : List FunctionDecl) : Bindings Closure :=
  Bindings.ofPairs <| methods.map fun declaration =>
    (declaration.name.lexeme, { declaration, scope, isInitializer := declaration.isInitializer })

/-- Declare a class, whose superclass is known.  Its name is `nil` until the class is made.  The
scope for `super` is the present one while the methods are made, and is then left by hand. -/
def declareClass (name : Token) (superclass : Option Class) (methods : List FunctionDecl) :
    Eval Unit := do
  define name.lexeme .nil
  let enclosing := (← get).current
  if let some c := superclass then
    switchTo (← openScope [("super", .ofClass c)] enclosing)
  let closed := closeMethods (← get).current methods
  let own := { serial := ← freshSerial, name := name.lexeme, methods := closed }
  switchTo enclosing
  assignOutward name (.ofClass (Class.declare own superclass))

/-- What calling a function yields once its body has finished. -/
def result (f : Closure) (flow : Flow) : Eval Value := do
  if f.isInitializer then
    let s ← get
    return (s.scopes.local? f.scope "this").getD .nil
  else
    match flow with
    | .returned value => return value
    | .normal => return .nil

/-! ## Expressions and statements -/

/-- Stop because the fuel is gone. -/
def spent {σ α : Type} : Action σ α :=
  throw .outOfFuel

mutual

/-- The value of an expression. -/
def evaluate : Nat → Expr → Eval Value
  | 0, _ => spent
  | fuel + 1, e =>
    match e with
    | .constant value => return .ofConstant value
    | .grouping inner => evaluate fuel inner
    | .unary operator operand => do
      applyUnary operator (← evaluate fuel operand)
    | .binary left operator right => do
      let a ← evaluate fuel left
      let b ← evaluate fuel right
      applyBinary operator a b
    | .logical left operator right => do
      let a ← evaluate fuel left
      if decides operator a then return a else evaluate fuel right
    | .name id token => lookUp id token
    | .assign id target value => do
      let v ← evaluate fuel value
      assign id target v
      return v
    | .call callee closing arguments => do
      let f ← evaluate fuel callee
      let values ← evaluateAll fuel arguments
      call fuel f values closing.line
    | .get object name => do
      match ← evaluate fuel object with
      | .object o => property o name
      | _ => fail .propertyOfNonInstance name.line
    | .set object name value => do
      match ← evaluate fuel object with
      | .object o =>
        let v ← evaluate fuel value
        modify fun s => s.setField o name.lexeme v
        return v
      | _ => fail .fieldOfNonInstance name.line
    | .this id keyword => lookUp id keyword
    | .super id keyword method => superMethod id keyword method

/-- The values of arguments. -/
def evaluateAll : Nat → List Expr → Eval (List Value)
  | 0, _ => spent
  | _ + 1, [] => return []
  | fuel + 1, e :: es => do
    let first ← evaluate fuel e
    return first :: (← evaluateAll fuel es)

/-- Call a value with arguments.  Errors of the call itself are placed at the given line. -/
def call : Nat → Value → List Value → Nat → Eval Value
  | 0, _, _, _ => spent
  | fuel + 1, callee, values, line =>
    match callee with
    | .native f => do
      checkArity f.arity values line
      applyNative readClock f values line
    | .function _ f => do
      checkArity f.arity values line
      invoke fuel f values
    | .bound _ f => do
      checkArity f.arity values line
      invoke fuel f values
    | .ofClass c => do
      checkArity c.arity values line
      let o ← allocate c
      if let some method := c.findMethod? initializerName then
        let _ ← invoke fuel (← receive method o) values
      return .object o
    | _ => fail .notCallable line

/-- Run the body of a function in a new scope that holds its parameters.  The number of arguments
is not checked: surplus ones are dropped, and parameters without one stay undefined. -/
def invoke : Nat → Closure → List Value → Eval Value
  | 0, _, _ => spent
  | fuel + 1, f, values => do
    let names := f.declaration.parameters.map Token.lexeme
    let scope ← openScope (Bindings.ofPairs (names.zip values)) f.scope
    let flow ← inScope scope (executeAll fuel f.declaration.body)
    result f flow

/-- Execute a statement. -/
def execute : Nat → Stmt → Eval Flow
  | 0, _ => spent
  | fuel + 1, statement =>
    match statement with
    | .expression value => do
      let _ ← evaluate fuel value
      return .normal
    | .print value => do
      let v ← evaluate fuel value
      print v.toText (value.line?.getD 0)
      return .normal
    | .varDecl name initializer => do
      let v ←
        match initializer with
        | some e => evaluate fuel e
        | none => pure .nil
      define name.lexeme v
      return .normal
    | .block body => do
      let scope ← openScope [] (← get).current
      inScope scope (executeAll fuel body)
    | .ifThen condition thenBranch => do
      if (← evaluate fuel condition).isTruthy then execute fuel thenBranch else return .normal
    | .ifElse condition thenBranch elseBranch => do
      if (← evaluate fuel condition).isTruthy then execute fuel thenBranch
      else execute fuel elseBranch
    | .whileLoop condition body => repeatWhile fuel condition body
    | .funDecl declaration => do
      let f := { declaration, scope := (← get).current, isInitializer := false }
      define declaration.name.lexeme (.function (← freshSerial) f)
      return .normal
    | .returnStmt _ value => do
      match value with
      | some e => return .returned (← evaluate fuel e)
      | none => return .returned .nil
    | .classDecl name superclass methods => do
      let parent ←
        match superclass with
        | some e => do
          match ← evaluate fuel e with
          | .ofClass c => pure (some c)
          | _ => fail .superclassNotClass (e.line?.getD name.line)
        | none => pure none
      declareClass name parent methods
      return .normal

/-- Execute statements in order, up to the first `return`. -/
def executeAll : Nat → List Stmt → Eval Flow
  | 0, _ => spent
  | _ + 1, [] => return .normal
  | fuel + 1, statement :: rest => do
    match ← execute fuel statement with
    | .returned value => return .returned value
    | .normal => executeAll fuel rest

/-- Execute a body for as long as a condition holds, up to the first `return`. -/
def repeatWhile : Nat → Expr → Stmt → Eval Flow
  | 0, _, _ => spent
  | fuel + 1, condition, body => do
    if (← evaluate fuel condition).isTruthy then
      match ← execute fuel body with
      | .returned value => return .returned value
      | .normal => repeatWhile fuel condition body
    else return .normal

end

/-- Run a program.  A `return` outside of every function ends only the statement it stands in. -/
def interpret (fuel : Nat) : List Stmt → Eval Unit
  | [] => return ()
  | statement :: rest => do
    let _ ← execute fuel statement
    interpret fuel rest

end Eval

end ClassScript
