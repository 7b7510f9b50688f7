import ClassScript.Decimal.Layout

set_option autoImplicit false

/-!
# Numbers as text

A number appears in four places, and each has its own form.  Programs print the output form; the
token listing, the tree listing and the exchange form of tokens each write literals their own way.
All four show the fewest digits that read back to the same double, except that the token listing
and the tree listing write whole values with all their digits and `.0`.
-/

namespace ClassScript.Number

open ClassScript.Decimal

/-- The sign of a number, in front of `text`. -/
def signed (x : Float) (text : List Char) : String :=
  String.ofList (if isNegative x then '-' :: text else text)

/-- The fewest digits that read back, written in full; of two equally near candidates the one
further from zero. -/
def plainDigits (x : Binary) : List Char :=
  (x.shortest .awayFromZero).positional false

/-- A whole value with all its digits and one fractional zero. -/
def wholeDigits (n : Nat) : List Char :=
  digitChars n ++ ['.', '0']

/-- What `print` shows: no fractional zero for whole values, never an exponent, and the sign of a
negative zero. -/
def output (x : Float) : String :=
  match magnitude x with
  | .notANumber => "NaN"
  | .infinite => signed x "Infinity".toList
  | .finite b => signed x (plainDigits b)

/-- The form of values that the listings have no better form for. -/
def listed (x : Float) : String :=
  match magnitude x with
  | .notANumber => "NaN"
  | .infinite => signed x "inf".toList
  | .finite b => signed x (plainDigits b)

/-- A whole value, if the double has no fractional part. -/
def whole? (x : Float) : Option Nat :=
  match magnitude x with
  | .finite b => b.whole?
  | _ => none

/-- What the token listing shows: whole values below `2 ^ 63` with all digits and `.0`, where a
negative zero is written without its sign. -/
def tokenText (x : Float) : String :=
  match whole? x with
  | some n =>
    if n = 0 then String.ofList (wholeDigits 0)
    else if n < Nat.pow 2 63 then signed x (wholeDigits n)
    else listed x
  | none => listed x

/-- What the tree listing shows: every whole value with all its digits and `.0`. -/
def treeText (x : Float) : String :=
  match whole? x with
  | some n => signed x (wholeDigits n)
  | none => listed x

/-- The exchange form: the fewest digits that read back, of two equally near candidates the even
one; in full when the first digit counts between `10 ^ -5` and `10 ^ 15`, else with an exponent.
What is not finite has no such form and is `null`. -/
def exchangeText (x : Float) : String :=
  match magnitude x with
  | .finite b =>
    let d := b.shortest .toEven
    signed x
      (if -5 ≤ d.leadingExponent && d.leadingExponent ≤ 15 then d.positional true
       else d.scientific)
  | _ => "null"

end ClassScript.Number
