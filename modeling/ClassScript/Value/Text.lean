import ClassScript.Number
import ClassScript.Text.Quoted
import ClassScript.Value.Basic

set_option autoImplicit false

/-!
# Values as text

The text of a value is what `print` shows.  The inspection form differs for texts only, which it
quotes.
-/

namespace ClassScript.Value

/-- How a function of the language shows. -/
def functionText (f : Closure) : String :=
  "<fn " ++ f.name ++ ">"

/-- What `print` shows. -/
def toText : Value → String
  | nil => "nil"
  | bool true => "true"
  | bool false => "false"
  | number x => Number.output x
  | text s => s
  | native _ => "<native fn>"
  | function _ f => functionText f
  | bound _ f => functionText f
  | ofClass c => c.name
  | object o => o.type.name ++ " instance"

/-- The inspection form. -/
def toInspected : Value → String
  | text s => Text.inspected s
  | v => v.toText

end ClassScript.Value
