import ClassScript.Evaluation.Evaluate

set_option autoImplicit false

/-!
# Static scoping by the book

An interpreter that knows neither scopes nor distances.  What a place of the program sees is a map
from names to locations, which is passed down the tree and never changes: a local declaration
extends the map for what comes after it, a function keeps the map of its declaration, and whoever has
a location shares what is stored there.  A name that the map does not have is looked up among the
globals when it is used.

Values, operators and the functions of the host are those of the running program.  The number that a
closure carries in place of a scope is here the number of the map that it keeps.
-/

namespace ClassScript.Lexical

/-! ## Maps and memory -/

/-- What a place of the program sees. -/
structure Environment where
  /-- The location of each local name. -/
  location? : String → Option Nat
  /-- No scope is open, so that declarations are global. -/
  outermost : Bool

namespace Environment

/-- Outside of every scope no name is local. -/
def top : Environment := { location? := fun _ => none, outermost := true }

/-- Within a new scope, the names are still the same. -/
def enter (env : Environment) : Environment := { env with outermost := false }

/-- A local name more. -/
def extend (env : Environment) (name : String) (location : Nat) : Environment where
  location? := fun other => if other = name then some location else env.location? other
  outermost := false

end Environment

/-- The state of a running program. -/
structure Memory where
  /-- The value at every location. -/
  cells : Array Value
  /-- The maps that closures keep. -/
  captured : Array Environment
  globals : Bindings Value
  /-- The fields of every instance, by its number. -/
  fields : Array (Bindings Value)
  printed : Array String
  clockReads : Nat
  nextSerial : Nat
  host : Host

namespace Memory

/-- The memory before any program, with the given functions of the host. -/
def start (host : Host) (natives : List Native) : Memory where
  cells := #[]
  captured := #[]
  globals := Bindings.ofPairs (natives.map fun f => (f.name, .native f))
  fields := #[]
  printed := #[]
  clockReads := 0
  nextSerial := 0
  host := host

/-- The value of a name: where the map leads, or else among the globals. -/
def value? (m : Memory) (env : Environment) (name : String) : Option Value :=
  match env.location? name with
  | some location => m.cells[location]?
  | none => m.globals.get? name

/-- The map that a closure keeps. -/
def environment (m : Memory) (f : Closure) : Environment :=
  m.captured.getD f.scope .top

end Memory

/-- An action on the memory. -/
abbrev Run : Type → Type := Action Memory

open Eval (fail spent applyUnary applyBinary applyNative checkArity decides closeMethods)

/-! ## Names -/

/-- The map with one more name, at a location of its own. -/
def extend (env : Environment) (name : String) (value : Value) : Run Environment :=
  modifyGet fun m =>
    (env.extend name m.cells.size, { m with cells := m.cells.push value })

/-- The map with more names, one after the other. -/
def extendAll (env : Environment) : List (String × Value) → Run Environment
  | [] => return env
  | (name, value) :: rest => do extendAll (← extend env name value) rest

/-- Declare a name: a global outside of every scope, a local name within one. -/
def declare (env : Environment) (name : String) (value : Value) : Run Environment :=
  if env.outermost then do
    modify fun m => { m with globals := m.globals.put name value }
    return env
  else extend env name value

/-- The value that is stored for a name, which must be there. -/
def lookUp (env : Environment) (name : Token) : Run Value := do
  match (← get).value? env name.lexeme with
  | some value => return value
  | none => fail (.undefinedVariable name.lexeme) name.line

/-- Change what is stored for a name, which must be there. -/
def assign (env : Environment) (name : Token) (value : Value) : Run Unit := do
  match env.location? name.lexeme with
  | some location =>
    modify fun m => { m with cells := m.cells.setIfInBounds location value }
  | none =>
    if ((← get).globals.get? name.lexeme).isSome then
      modify fun m => { m with globals := m.globals.put name.lexeme value }
    else fail (.undefinedVariable name.lexeme) name.line

/-- Keep a map. -/
def capture (env : Environment) : Run Nat :=
  modifyGet fun m => (m.captured.size, { m with captured := m.captured.push env })

/-! ## Effects -/

/-- An identity that nothing else has. -/
def freshSerial : Run Nat :=
  modifyGet fun m => (m.nextSerial, { m with nextSerial := m.nextSerial + 1 })

/-- Print a line, if the output takes it. -/
def print (text : String) (line : Nat) : Run Unit := do
  let m ← get
  if m.host.accepts m.printed.size then
    modify fun m => { m with printed := m.printed.push text }
  else
    fail .outputFull line

/-- The next reading of the clock. -/
def readClock : Run Float :=
  modifyGet fun m => (m.host.clock m.clockReads, { m with clockReads := m.clockReads + 1 })

/-- Make an instance without fields. -/
def allocate (type : Class) : Run Object :=
  modifyGet fun m => ({ id := m.fields.size, type }, { m with fields := m.fields.push [] })

/-! ## Methods and classes -/

/-- A method whose map has the receiver under `this`. -/
def receive (method : Closure) (receiver : Object) : Run Closure := do
  let env ← extend ((← get).environment method) "this" (.object receiver)
  return { method with scope := ← capture env }

/-- A method bound to an instance, as a value. -/
def bind (method : Closure) (receiver : Object) : Run Value := do
  let f ← receive method receiver
  return .bound (← freshSerial) f

/-- The property of an instance: a field, or else a method bound to it. -/
def property (o : Object) (name : Token) : Run Value := do
  match (← get).fields[o.id]?.bind fun fields => fields.get? name.lexeme with
  | some value => return value
  | none =>
    match o.type.findMethod? name.lexeme with
    | some method => bind method o
    | none => fail (.undefinedProperty name.lexeme) name.line

/-- A method of the superclass, bound to the receiver at hand. -/
def superMethod (env : Environment) (keyword method : Token) : Run Value := do
  let m ← get
  match m.value? env keyword.lexeme, m.value? env "this" with
  | some (.ofClass superclass), some (.object receiver) =>
    match superclass.findMethod? method.lexeme with
    | some found => bind found receiver
    | none => fail (.undefinedProperty method.lexeme) method.line
  | _, _ => fail (.undefinedVariable keyword.lexeme) keyword.line

/-- Declare a function, which sees itself. -/
def declareFunction (env : Environment) (declaration : FunctionDecl) : Run Environment := do
  let env ← declare env declaration.name.lexeme .nil
  let f := { declaration, scope := ← capture env, isInitializer := false }
  assign env declaration.name (.function (← freshSerial) f)
  return env

/-- Declare a class, whose superclass is known.  Its methods see it and, under `super`, the class
above it. -/
def declareClass (env : Environment) (name : Token) (superclass : Option Class)
    (methods : List FunctionDecl) : Run Environment := do
  let env ← declare env name.lexeme .nil
  let inner ←
    match superclass with
    | some c => extend env "super" (.ofClass c)
    | none => pure env
  let scope ← capture inner
  let own :=
    { serial := ← freshSerial, name := name.lexeme, methods := closeMethods scope methods }
  assign env name (.ofClass (Class.declare own superclass))
  return env

/-- What calling a function yields once its body has finished. -/
def result (f : Closure) (flow : Flow) : Run Value := do
  if f.isInitializer then
    let m ← get
    return (m.value? (m.environment f) "this").getD .nil
  else
    match flow with
    | .returned value => return value
    | .normal => return .nil

/-! ## Expressions and statements -/

mutual

/-- The value of an expression. -/
def evaluate : Nat → Environment → Expr → Run Value
  | 0, _, _ => spent
  | fuel + 1, env, e =>
    match e with
    | .constant value => return .ofConstant value
    | .grouping inner => evaluate fuel env inner
    | .unary operator operand => do
      applyUnary operator (← evaluate fuel env operand)
    | .binary left operator right => do
      let a ← evaluate fuel env left
      let b ← evaluate fuel env right
      applyBinary operator a b
    | .logical left operator right => do
      let a ← evaluate fuel env left
      if decides operator a then return a else evaluate fuel env right
    | .name _ token => lookUp env token
    | .assign _ target value => do
      let v ← evaluate fuel env value
      assign env target v
      return v
    | .call callee closing arguments => do
      let f ← evaluate fuel env callee
      let values ← evaluateAll fuel env arguments
      call fuel f values closing.line
    | .get object name => do
      match ← evaluate fuel env object with
      | .object o => property o name
      | _ => fail .propertyOfNonInstance name.line
    | .set object name value => do
      match ← evaluate fuel env object with
      | .object o =>
        let v ← evaluate fuel env value
        modify fun m =>
          { m with fields := m.fields.modify o.id fun fields => fields.put name.lexeme v }
        return v
      | _ => fail .fieldOfNonInstance name.line
    | .this _ keyword => lookUp env keyword
    | .super _ keyword method => superMethod env keyword method

/-- The values of arguments. -/
def evaluateAll : Nat → Environment → List Expr → Run (List Value)
  | 0, _, _ => spent
  | _ + 1, _, [] => return []
  | fuel + 1, env, e :: es => do
    let first ← evaluate fuel env e
    return first :: (← evaluateAll fuel env es)

/-- Call a value with arguments. -/
def call : Nat → Value → List Value → Nat → Run Value
  | 0, _, _, _ => spent
  | fuel + 1, callee, values, line =>
    match callee with
    | .native f => do
      checkArity f.arity values line
      applyNative readClock f values line
    | .function _ f => do
      checkArity f.arity values line
      invoke fuel f values
    | .bound _ f => do
      checkArity f.arity values line
      invoke fuel f values
    | .ofClass c => do
      checkArity c.arity values line
      let o ← allocate c
      if let some method := c.findMethod? initializerName then
        let _ ← invoke fuel (← receive method o) values
      return .object o
    | _ => fail .notCallable line

/-- Run the body of a function with its parameters, in the map that the function keeps. -/
def invoke : Nat → Closure → List Value → Run Value
  | 0, _, _ => spent
  | fuel + 1, f, values => do
    let names := f.declaration.parameters.map Token.lexeme
    let env ← extendAll ((← get).environment f).enter (names.zip values)
    let flow ← executeAll fuel env f.declaration.body
    result f flow

/-- Execute a statement.  What it declares is in the map that it yields. -/
def execute : Nat → Environment → Stmt → Run (Flow × Environment)
  | 0, _, _ => spent
  | fuel + 1, env, statement =>
    match statement with
    | .expression value => do
      let _ ← evaluate fuel env value
      return (.normal, env)
    | .print value => do
      let v ← evaluate fuel env value
      print v.toText (value.line?.getD 0)
      return (.normal, env)
    | .varDecl name initializer => do
      let v ←
        match initializer with
        | some e => evaluate fuel env e
        | none => pure .nil
      return (.normal, ← declare env name.lexeme v)
    | .block body => do
      return (← executeAll fuel env.enter body, env)
    | .ifThen condition thenBranch => do
      if (← evaluate fuel env condition).isTruthy then
        return ((← execute fuel env thenBranch).1, env)
      else return (.normal, env)
    | .ifElse condition thenBranch elseBranch => do
      if (← evaluate fuel env condition).isTruthy then
        return ((← execute fuel env thenBranch).1, env)
      else return ((← execute fuel env elseBranch).1, env)
    | .whileLoop condition body => do
      return (← repeatWhile fuel env condition body, env)
    | .funDecl declaration => do
      return (.normal, ← declareFunction env declaration)
    | .returnStmt _ value => do
      match value with
      | some e => return (.returned (← evaluate fuel env e), env)
      | none => return (.returned .nil, env)
    | .classDecl name superclass methods => do
      let parent ←
        match superclass with
        | some e => do
          match ← evaluate fuel env e with
          | .ofClass c => pure (some c)
          | _ => fail .superclassNotClass (e.line?.getD name.line)
        | none => pure none
      return (.normal, ← declareClass env name parent methods)

/-- Execute statements in order, up to the first `return`, each in the map that those before it
yield. -/
def executeAll : Nat → Environment → List Stmt → Run Flow
  | 0, _, _ => spent
  | _ + 1, _, [] => return .normal
  | fuel + 1, env, statement :: rest => do
    match ← execute fuel env statement with
    | (.returned value, _) => return .returned value
    | (.normal, env) => executeAll fuel env rest

/-- Execute a body for as long as a condition holds, up to the first `return`. -/
def repeatWhile : Nat → Environment → Expr → Stmt → Run Flow
  | 0, _, _, _ => spent
  | fuel + 1, env, condition, body => do
    if (← evaluate fuel env condition).isTruthy then
      match ← execute fuel env body with
      | (.returned value, _) => return .returned value
      | (.normal, _) => repeatWhile fuel env condition body
    else return .normal

end

/-- Run a program. -/
def interpret (fuel : Nat) (env : Environment) : List Stmt → Run Unit
  | [] => return ()
  | statement :: rest => do
    let (_, env) ← execute fuel env statement
    interpret fuel env rest

end ClassScript.Lexical
