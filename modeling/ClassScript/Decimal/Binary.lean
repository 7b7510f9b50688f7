set_option autoImplicit false

/-!
# Decimal: what the bits of a double say

A finite double is an integer times a power of two.  Everything that is written about a number is
decided on that integer and that power, in exact arithmetic on naturals; the operations of the
floating-point unit are not used for it.
-/

namespace ClassScript.Decimal

/-- The non-negative real `mantissa * 2 ^ exponent`. -/
structure Binary where
  mantissa : Nat
  exponent : Int
  /-- The double below lies half as far away as the double above. -/
  narrowBelow : Bool
  deriving DecidableEq, Repr, Inhabited

/-- What a double stands for once its sign is set aside. -/
inductive Magnitude where
  | notANumber
  | infinite
  | finite (x : Binary)
  deriving DecidableEq, Repr, Inhabited

/-- The value of the fifty-two fraction bits under the eleven exponent bits.  The exponent field
zero holds the subnormal values, which have no hidden leading one. -/
def Magnitude.ofFields (exponentField fraction : Nat) : Magnitude :=
  if exponentField = 2047 then
    if fraction = 0 then .infinite else .notANumber
  else if exponentField = 0 then
    .finite { mantissa := fraction, exponent := -1074, narrowBelow := false }
  else
    .finite
      { mantissa := Nat.pow 2 52 + fraction
        exponent := (exponentField : Int) - 1075
        narrowBelow := fraction == 0 && exponentField > 1 }

/-- A double without its sign. -/
def magnitude (x : Float) : Magnitude :=
  let bits := x.toBits.toNat
  Magnitude.ofFields (bits / Nat.pow 2 52 % Nat.pow 2 11) (bits % Nat.pow 2 52)

/-- The sign bit, which negative zero carries as well. -/
def isNegative (x : Float) : Bool :=
  x.toBits.toNat / Nat.pow 2 63 == 1

namespace Binary

/-- The value as a natural, if it has no fractional part. -/
def whole? (x : Binary) : Option Nat :=
  if 0 ≤ x.exponent then
    some (x.mantissa * Nat.pow 2 x.exponent.toNat)
  else
    let parts := Nat.pow 2 (-x.exponent).toNat
    if x.mantissa % parts = 0 then some (x.mantissa / parts) else none

theorem whole?_of_nonneg (x : Binary) (h : 0 ≤ x.exponent) :
    x.whole? = some (x.mantissa * Nat.pow 2 x.exponent.toNat) := by
  simp [whole?, h]

/-- A whole value below zero exponent is the mantissa with that many halvings, none of them lossy. -/
theorem mantissa_eq_of_whole? {x : Binary} {n : Nat} (h : ¬ 0 ≤ x.exponent)
    (hn : x.whole? = some n) : x.mantissa = n * Nat.pow 2 (-x.exponent).toNat := by
  simp only [whole?, h, if_false] at hn
  split at hn
  · rename_i hm
    simp only [Option.some.injEq] at hn
    subst hn
    exact (Nat.div_mul_cancel (Nat.dvd_of_mod_eq_zero hm)).symm
  · cases hn

end Binary

end ClassScript.Decimal
