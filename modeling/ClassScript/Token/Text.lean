import ClassScript.Token.Basic
import ClassScript.Number
import ClassScript.Text.Quoted

set_option autoImplicit false

/-!
# Tokens as text

The listing form shows the kind, the lexeme and the value of a literal, with one blank between
them.  The exchange form is an object with one member for each part of the token.
-/

namespace ClassScript

/-- The value of a literal in the listing form. -/
def Literal.listing : Literal → String
  | .text s => s
  | .number x => Number.tokenText x

/-- The value of a literal in the exchange form, under the name of its sort. -/
def Literal.exchange : Literal → String
  | .text s => "\x7b\"Str\":" ++ Text.exchanged s ++ "\x7d"
  | .number x => "\x7b\"Number\":" ++ Number.exchangeText x ++ "\x7d"

/-- The word for an absent literal in both forms. -/
def absentLiteral : String := "null"

namespace Token

/-- One line of a token listing. -/
def listing (t : Token) : String :=
  t.kind.name ++ " " ++ t.lexeme ++ " " ++ (t.literal.map Literal.listing).getD absentLiteral

/-- The token as an object. -/
def exchange (t : Token) : String :=
  "\x7b\"token_type\":" ++ Text.exchanged t.kind.name
    ++ ",\"lexeme\":" ++ Text.exchanged t.lexeme
    ++ ",\"literal\":" ++ (t.literal.map Literal.exchange).getD absentLiteral
    ++ ",\"line\":" ++ toString t.line ++ "\x7d"

end Token

end ClassScript
