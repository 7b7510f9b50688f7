import ClassScript.Text.Printable

set_option autoImplicit false

/-!
# Text: quoted forms

A text is quoted in two ways.  The inspection form is for people: what has no shape of its own is
written as its code point.  The exchange form is for programs: only the quote, the backslash and the
control characters are escaped.
-/

namespace ClassScript.Text

/-- The hexadecimal digits of a code point, in lower case. -/
def hexDigits (code : Nat) : List Char :=
  Nat.toDigits 16 code

/-- How one character is written inside the quotes of the inspection form. -/
def inspectedChar (c : Char) : List Char :=
  match c with
  | '\x00' => ['\\', '0']
  | '\t' => ['\\', 't']
  | '\r' => ['\\', 'r']
  | '\n' => ['\\', 'n']
  | '\\' => ['\\', '\\']
  | '"' => ['\\', '"']
  | c =>
    if isPrintable c then [c]
    else ['\\', 'u', '\x7b'] ++ hexDigits c.toNat ++ ['\x7d']

/-- The inspection form of a text. -/
def inspected (s : String) : String :=
  String.ofList ('"' :: s.toList.flatMap inspectedChar ++ ['"'])

/-- How one character is written inside the quotes of the exchange form. -/
def exchangedChar (c : Char) : List Char :=
  match c with
  | '"' => ['\\', '"']
  | '\\' => ['\\', '\\']
  | '\n' => ['\\', 'n']
  | '\r' => ['\\', 'r']
  | '\t' => ['\\', 't']
  | '\x08' => ['\\', 'b']
  | '\x0c' => ['\\', 'f']
  | c =>
    if c.toNat < 0x20 then
      ['\\', 'u', '0', '0'] ++ (if c.toNat < 0x10 then ['0'] else []) ++ hexDigits c.toNat
    else [c]

/-- The exchange form of a text. -/
def exchanged (s : String) : String :=
  String.ofList ('"' :: s.toList.flatMap exchangedChar ++ ['"'])

end ClassScript.Text
