import ClassScript.Scope.Bindings
import ClassScript.Tree.Basic

set_option autoImplicit false

/-!
# Values

Numbers, truth values, texts and `nil` are themselves.  Functions, classes and instances have an
identity: a function value and a class carry the serial number of the moment they were made, an
instance its own number.  What can change about an instance, its fields, is not part of the value;
it is kept by number, like the scopes that functions are closed over.
-/

namespace ClassScript

/-! ## Functions -/

/-- The functions that are not written in the language: the clock, and those that show a program
how its host sees a value. -/
inductive Native where
  | clock
  | typeName
  | text
  | inspected
  | truthy
  | equal
  | fail
  deriving DecidableEq, Repr

namespace Native

/-- The name under which a program finds the function. -/
def name : Native → String
  | clock => "clock"
  | typeName => "host_type"
  | text => "host_str"
  | inspected => "host_debug"
  | truthy => "host_truthy"
  | equal => "host_eq"
  | fail => "host_fail"

/-- How many arguments the function takes. -/
def arity : Native → Nat
  | clock => 0
  | equal => 2
  | typeName | text | inspected | truthy | fail => 1

/-- The functions that show a program how its host sees a value. -/
def hostFunctions : List Native := [typeName, text, inspected, truthy, equal, fail]

end Native

/-- A declaration and the scope it was found in. -/
structure Closure where
  declaration : FunctionDecl
  scope : Nat
  /-- Calling it yields the instance it is bound to, whatever its body returns. -/
  isInitializer : Bool
  deriving Inhabited

namespace Closure

/-- The name under which the function was declared. -/
def name (f : Closure) : String := f.declaration.name.lexeme

/-- How many arguments the function takes. -/
def arity (f : Closure) : Nat := f.declaration.parameters.length

end Closure

/-! ## Classes -/

/-- What one class declaration contributes: its name and its methods. -/
structure ClassLayer where
  serial : Nat
  name : String
  methods : Bindings Closure
  deriving Inhabited

/-- A class: the layer of its own declaration and those of its superclasses, nearest first.  It
never changes once it is made. -/
structure Class where
  own : ClassLayer
  inherited : List ClassLayer
  deriving Inhabited

namespace Class

/-- All layers, nearest first. -/
def layers (c : Class) : List ClassLayer := c.own :: c.inherited

/-- The name under which the class was declared. -/
def name (c : Class) : String := c.own.name

/-- The number that tells the class from others of its name. -/
def serial (c : Class) : Nat := c.own.serial

/-- A class on top of another, if it has a superclass. -/
def declare (own : ClassLayer) (superclass : Option Class) : Class where
  own := own
  inherited := (superclass.map layers).getD []

/-- The method that the nearest layer has under a name. -/
def findMethod? (c : Class) (name : String) : Option Closure :=
  c.layers.findSome? fun layer => layer.methods.get? name

/-- How many arguments making an instance takes. -/
def arity (c : Class) : Nat :=
  ((c.findMethod? initializerName).map Closure.arity).getD 0

/-- The names of the class and its superclasses, nearest first. -/
def chain (c : Class) : List String :=
  c.layers.map ClassLayer.name

/-- A class without a superclass looks into its own layer only. -/
theorem findMethod?_declare_none (own : ClassLayer) (name : String) :
    (declare own none).findMethod? name = own.methods.get? name := by
  simp [findMethod?, declare, layers]

/-- A class looks where its superclass looks once its own layer has nothing. -/
theorem findMethod?_declare (own : ClassLayer) (superclass : Class) (name : String) :
    (declare own (some superclass)).findMethod? name =
      (own.methods.get? name).or (superclass.findMethod? name) := by
  simp only [findMethod?, declare, layers, Option.map_some, Option.getD_some, List.findSome?_cons]
  cases own.methods.get? name <;> rfl

end Class

/-! ## Values -/

/-- An instance: its number and its class. -/
structure Object where
  id : Nat
  type : Class
  deriving Inhabited

/-- The values of the language. -/
inductive Value where
  | nil
  | bool (b : Bool)
  | number (x : Float)
  | text (s : String)
  | native (f : Native)
  | function (serial : Nat) (f : Closure)
  /-- a method together with the instance it was read from, which is the `this` of its scope -/
  | bound (serial : Nat) (f : Closure)
  | ofClass (c : Class)
  | object (o : Object)
  deriving Inhabited

namespace Value

/-- All values hold but `nil` and `false`. -/
def isTruthy : Value → Bool
  | nil => false
  | bool b => b
  | _ => true

/-- The name of the type of a value. -/
def typeName : Value → String
  | nil => "nil"
  | bool _ => "boolean"
  | number _ => "number"
  | text _ => "string"
  | native _ => "function"
  | function _ _ => "function"
  | bound _ _ => "function"
  | ofClass _ => "class"
  | object _ => "instance"

/-- Equality: of numbers as numbers, of texts by their characters, of functions, classes and
instances by identity.  Values of different sorts are never equal. -/
def equals : Value → Value → Bool
  | nil, nil => true
  | bool a, bool b => a == b
  | number a, number b => a == b
  | text a, text b => a == b
  | native a, native b => a == b
  | function a _, function b _ => a == b
  | bound a _, bound b _ => a == b
  | ofClass a, ofClass b => a.serial == b.serial
  | object a, object b => a.id == b.id
  | _, _ => false

/-- The value that a constant stands for. -/
def ofConstant : Constant → Value
  | .number x => number x
  | .text s => text s
  | .true => bool Bool.true
  | .false => bool Bool.false
  | .nil => nil

end Value

end ClassScript
