import ClassScript.Decimal.Shortest

set_option autoImplicit false

/-!
# Decimal: laying out digits

A decimal `digits * 10 ^ exponent` is written either in full, with the point where it belongs and
zeros for the places the digits do not reach, or in scientific form with one digit before the
point.  Signs are not part of a layout.
-/

namespace ClassScript.Decimal

/-- The decimal digits of a natural, without leading zeros; zero has one digit. -/
def digitChars (n : Nat) : List Char :=
  Nat.toDigits 10 n

/-- How many decimal digits a natural is written with. -/
def digitCount (n : Nat) : Nat :=
  (digitChars n).length

namespace Scaled

/-- The power of ten that the first digit counts. -/
def leadingExponent (d : Scaled) : Int :=
  d.exponent + digitCount d.digits - 1

/-- All digits in their places, with no exponent.  A value without fractional digits has a point
only if `pointZero` asks for `.0`. -/
def positional (d : Scaled) (pointZero : Bool) : List Char :=
  let ds := digitChars d.digits
  if 0 ≤ d.exponent then
    ds ++ List.replicate d.exponent.toNat '0' ++ (if pointZero then ['.', '0'] else [])
  else
    let places := (-d.exponent).toNat
    if places < ds.length then
      ds.take (ds.length - places) ++ '.' :: ds.drop (ds.length - places)
    else
      '0' :: '.' :: List.replicate (places - ds.length) '0' ++ ds

/-- One digit, the others after a point if there are any, and the exponent with its sign. -/
def scientific (d : Scaled) : List Char :=
  let ds := digitChars d.digits
  let e := d.leadingExponent
  ds.take 1 ++ (if ds.length = 1 then [] else '.' :: ds.drop 1)
    ++ 'e' :: (if 0 ≤ e then '+' else '-') :: digitChars e.natAbs

end Scaled

end ClassScript.Decimal
