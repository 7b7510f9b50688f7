set_option autoImplicit false

/-!
# Runtime errors

What can go wrong while a program runs.  An error is a cause and the line of the token that the
failing operation is placed by; the wording is made from the cause here and nowhere else.
-/

namespace ClassScript

/-- Why an operation cannot be carried out. -/
inductive RuntimeFault where
  | undefinedVariable (name : String)
  | undefinedProperty (name : String)
  | operandNotNumber
  | operandsNotNumbers
  /-- a sum of anything but two numbers or two texts -/
  | operandsNotAddable
  | notCallable
  | arityMismatch (expected got : Nat)
  | propertyOfNonInstance
  | fieldOfNonInstance
  | superclassNotClass
  /-- a function outside the language refused, with a message of its own -/
  | native (message : String)
  /-- the output takes no more lines -/
  | outputFull
  deriving DecidableEq, Repr

/-- What is said of a fault. -/
def RuntimeFault.message : RuntimeFault → String
  | undefinedVariable name => "Undefined variable '" ++ name ++ "'."
  | undefinedProperty name => "Undefined property '" ++ name ++ "'."
  | operandNotNumber => "Operand must be a number."
  | operandsNotNumbers => "Operands must be numbers."
  | operandsNotAddable => "Operands must be two numbers or two strings."
  | notCallable => "Can only call functions and classes."
  | arityMismatch expected got =>
    "Expected " ++ toString expected ++ " arguments but got " ++ toString got ++ "."
  | propertyOfNonInstance => "Only instances have properties."
  | fieldOfNonInstance => "Only instances have fields."
  | superclassNotClass => "Superclass must be a class."
  | native message => message
  | outputFull => "Output error: sink full"

/-- A cause at a line. -/
structure RuntimeError where
  fault : RuntimeFault
  line : Nat
  deriving DecidableEq, Repr

namespace RuntimeError

/-- What an error says, without the line. -/
def message (e : RuntimeError) : String := e.fault.message

/-- The two lines that report an error. -/
def report (e : RuntimeError) : String :=
  e.message ++ "\n[line " ++ toString e.line ++ "]"

end RuntimeError

end ClassScript
