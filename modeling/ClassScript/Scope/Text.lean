import ClassScript.Scope.Store
import ClassScript.Text.Quoted

set_option autoImplicit false

/-!
# Scopes as text

The inspection form of a scope shows its names in the order of their bytes and whether a scope
encloses it.  It shows no values, since a value may lead back to the scope.
-/

namespace ClassScript

/-- A list of parts between brackets. -/
def bracketed (parts : List String) : String :=
  "[" ++ ", ".intercalate parts ++ "]"

/-- Names in the order of their bytes, which is that of their code points. -/
def sortedNames (names : List String) : List String :=
  names.mergeSort fun a b => decide (a ≤ b)

/-- The inspection form of a scope. -/
def Scope.inspected {α : Type} (scope : Scope α) : String :=
  "Environment \x7b names: "
    ++ bracketed ((sortedNames scope.bindings.names).map Text.inspected)
    ++ ", has_enclosing: " ++ (if scope.enclosing.isSome then "true" else "false") ++ " \x7d"

end ClassScript
