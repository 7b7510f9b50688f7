import ClassScript.Binding.Distances
import ClassScript.Evaluation.Fault
import ClassScript.Scope.Store
import ClassScript.Value.Text

set_option autoImplicit false

/-!
# The state of a running program

Everything that running a program can change, and the actions that change it.  The state survives an
error: what was assigned, printed and declared before it stays.
-/

namespace ClassScript

/-! ## The state -/

/-- What a program meets outside of itself. -/
structure Host where
  /-- What the clock shows when it is read, by how often it was read before. -/
  clock : Nat → Float
  /-- How many lines the output takes in all, if it does not take every line. -/
  capacity : Option Nat

/-- Whether the output takes another line after some number of them. -/
def Host.accepts (host : Host) (lines : Nat) : Bool :=
  match host.capacity with
  | some limit => lines < limit
  | none => true

/-- The state of a running program. -/
structure State where
  scopes : Scopes Value
  /-- The fields of every instance, by its number. -/
  fields : Array (Bindings Value)
  /-- The scope in which the program is running. -/
  current : Nat
  distances : Distances
  /-- The lines printed so far. -/
  printed : Array String
  /-- How often the clock was read. -/
  clockReads : Nat
  /-- The identity of the next function or class. -/
  nextSerial : Nat
  host : Host

/-- The outermost scope, which encloses all others. -/
def globalScope : Nat := 0

namespace State

/-- The state before any program: one scope, which has the given functions of the host. -/
def start (host : Host) (natives : List Native) : State where
  scopes := Scopes.empty.push (Bindings.ofPairs (natives.map fun f => (f.name, .native f))) none
  fields := #[]
  current := globalScope
  distances := Distances.empty
  printed := #[]
  clockReads := 0
  nextSerial := 0
  host := host

/-- The value of a global. -/
def global? (s : State) (name : String) : Option Value :=
  s.scopes.local? globalScope name

/-- Give a global a value. -/
def defineGlobal (s : State) (name : String) (value : Value) : State :=
  { s with scopes := s.scopes.define globalScope name value }

/-- The value of a field. -/
def field? (s : State) (o : Object) (name : String) : Option Value :=
  s.fields[o.id]?.bind fun fields => fields.get? name

/-- Give a field a value, whether the instance has the field or not. -/
def setField (s : State) (o : Object) (name : String) (value : Value) : State :=
  { s with fields := s.fields.modify o.id fun fields => fields.put name value }

end State

/-! ## Actions -/

/-- Why a run stops early. -/
inductive Interrupt where
  | error (e : RuntimeError)
  /-- more steps were needed than allowed -/
  | outOfFuel
  /-- a node has an operator that its sort of node cannot have -/
  | malformed

/-- An action on a state of some sort, which may stop early but never undoes what it did. -/
abbrev Action (σ : Type) : Type → Type := EStateM Interrupt σ

/-- An action on the state of a running program. -/
abbrev Eval : Type → Type := Action State

namespace Eval

/-- Stop with a runtime error. -/
def fail {σ α : Type} (fault : RuntimeFault) (line : Nat) : Action σ α :=
  throw (.error { fault, line })

/-- Act within a scope, and be back in the present one however the action ends. -/
@[inline] def inScope {α : Type} (scope : Nat) (action : Eval α) : Eval α := fun s =>
  let outside := s.current
  match action { s with current := scope } with
  | .ok a s => .ok a { s with current := outside }
  | .error e s => .error e { s with current := outside }

/-- Make a scope the present one.  Nothing leads back by itself. -/
def switchTo (scope : Nat) : Eval Unit :=
  modify fun s => { s with current := scope }

/-- Open a scope inside another. -/
def openScope (bindings : Bindings Value) (enclosing : Nat) : Eval Nat :=
  modifyGet fun s =>
    (s.scopes.size, { s with scopes := s.scopes.push bindings (some enclosing) })

/-- An identity that nothing else has. -/
def freshSerial : Eval Nat :=
  modifyGet fun s => (s.nextSerial, { s with nextSerial := s.nextSerial + 1 })

/-- Give a name a value in the present scope. -/
def define (name : String) (value : Value) : Eval Unit :=
  modify fun s => { s with scopes := s.scopes.define s.current name value }

/-- Change the value of a name in a scope that has it, if there is one. -/
def assignIn (owner : Option Nat) (name : Token) (value : Value) : Eval Unit := do
  match owner with
  | some scope =>
    modify fun s => { s with scopes := s.scopes.define scope name.lexeme value }
  | none => fail (.undefinedVariable name.lexeme) name.line

/-- The value of a reference: in the scope at its distance, or among the globals. -/
def lookUp (id : Nat) (name : Token) : Eval Value := do
  let s ← get
  let found :=
    match s.distances.get? id with
    | some distance => s.scopes.getAt? s.current distance name.lexeme
    | none => s.scopes.get? globalScope name.lexeme
  match found with
  | some value => return value
  | none => fail (.undefinedVariable name.lexeme) name.line

/-- Assign to a reference: in the scope at its distance, or among the globals. -/
def assign (id : Nat) (name : Token) (value : Value) : Eval Unit := do
  let s ← get
  let owner :=
    match s.distances.get? id with
    | some distance => s.scopes.ownerAt? s.current distance name.lexeme
    | none => s.scopes.owner? globalScope name.lexeme
  assignIn owner name value

/-- Assign to a name by the dynamic way from the present scope. -/
def assignOutward (name : Token) (value : Value) : Eval Unit := do
  let s ← get
  assignIn (s.scopes.owner? s.current name.lexeme) name value

/-- Print a line, if the output takes it. -/
def print (text : String) (line : Nat) : Eval Unit := do
  let s ← get
  if s.host.accepts s.printed.size then
    modify fun s => { s with printed := s.printed.push text }
  else
    fail .outputFull line

/-- Read the clock. -/
def readClock : Eval Float :=
  modifyGet fun s => (s.host.clock s.clockReads, { s with clockReads := s.clockReads + 1 })

/-- Make an instance without fields. -/
def allocate (type : Class) : Eval Object :=
  modifyGet fun s => ({ id := s.fields.size, type }, { s with fields := s.fields.push [] })

/-- A method whose own scope lies in a new scope that holds nothing but the receiver. -/
def receive (method : Closure) (receiver : Object) : Eval Closure := do
  let scope ← openScope [("this", .object receiver)] method.scope
  return { method with scope }

/-- A method bound to an instance, as a value. -/
def bind (method : Closure) (receiver : Object) : Eval Value := do
  let f ← receive method receiver
  return .bound (← freshSerial) f

/-- The property of an instance: a field, or else a method bound to it. -/
def property (o : Object) (name : Token) : Eval Value := do
  let s ← get
  match s.field? o name.lexeme with
  | some value => return value
  | none =>
    match o.type.findMethod? name.lexeme with
    | some method => bind method o
    | none => fail (.undefinedProperty name.lexeme) name.line

/-- The number of arguments must be the number of parameters. -/
def checkArity {σ : Type} (expected : Nat) (values : List Value) (line : Nat) : Action σ Unit :=
  if values.length = expected then return ()
  else fail (.arityMismatch expected values.length) line

/-- What a function outside the language yields for arguments whose number has been checked. -/
def applyNative {σ : Type} (clock : Action σ Float) (f : Native) (values : List Value)
    (line : Nat) : Action σ Value := do
  let first := values.getD 0 .nil
  match f with
  | .clock => return .number (← clock)
  | .typeName => return .text first.typeName
  | .text => return .text first.toText
  | .inspected => return .text first.toInspected
  | .truthy => return .bool first.isTruthy
  | .equal => return .bool (first.equals (values.getD 1 .nil))
  | .fail => fail (.native first.toText) line

end Eval

end ClassScript
