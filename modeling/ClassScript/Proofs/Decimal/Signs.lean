import ClassScript.Decimal.Binary
import ClassScript.Token.Scan
import Mathlib

set_option autoImplicit false

/-!
# Number literals have no sign

A literal is a natural that is divided by a power of ten, or rounded from the exact quotient.  Neither
makes a negative number, nor a negative zero, out of what is not negative; so the sign bit of a literal
is never set.
-/

open Float.Model (UnpackedFloat Format)
open Float.Model.UnpackedFloat (Sign Accuracy)

namespace ClassScript.Decimal

/-! ## The sign bit -/

/-- The sign is positive, if there is any. -/
def Unsigned : UnpackedFloat → Prop
  | .notANumber => True
  | .infinity s => s = .positive
  | .zero s => s = .positive
  | .finite s _ _ _ => s = .positive

theorem isNegative_eq_msb (x : Float) : isNegative x = x.toBits.toBitVec.msb := by
  have size := x.toBits.toNat_lt
  rw [isNegative, BitVec.msb_eq_decide, Bool.eq_iff_iff, beq_iff_eq, decide_eq_true_eq]
  change x.toBits.toNat / 2 ^ 63 = 1 ↔ 2 ^ 63 ≤ x.toBits.toNat
  omega

theorem msb_packComponents (s : Sign) (exponent : BitVec 11) (mantissa : BitVec 52) :
    (UnpackedFloat.packComponents .binary64 s exponent mantissa).msb = s.toBitVec.msb := by
  change (s.toBitVec ++ exponent ++ mantissa).msb = _
  rw [BitVec.msb_append, BitVec.msb_append]
  rfl

/-- What is not negative is packed without a sign. -/
theorem Unsigned.msb_pack {u : UnpackedFloat} (h : Unsigned u) :
    (UnpackedFloat.pack .binary64 u).msb = false := by
  cases u with
  | notANumber => exact msb_packComponents .positive _ _
  | infinity s =>
    cases h
    exact msb_packComponents .positive _ _
  | zero s =>
    cases h
    exact msb_packComponents .positive _ _
  | finite s m e positive =>
    cases h
    unfold UnpackedFloat.pack
    dsimp only
    split
    · exact msb_packComponents .positive _ _
    · split <;> exact msb_packComponents .positive _ _

theorem Unsigned.isNegative {u : UnpackedFloat} (h : Unsigned u) :
    isNegative ⟨Float.Model.pack u⟩ = false := by
  rw [isNegative_eq_msb]
  exact h.msb_pack

/-- The sign that is unpacked is that of the bits. -/
theorem unpackSign_of_msb {b : BitVec Format.binary64.numBits} (h : b.msb = false) :
    Sign.ofBitVec (UnpackedFloat.unpackSign b) = .positive := by
  have clear : UnpackedFloat.unpackSign b = 0#1 := by
    apply BitVec.eq_of_getLsbD_eq
    intro i bound
    obtain rfl : i = 0 := by omega
    rw [BitVec.msb_eq_getLsbD_last] at h
    simpa [UnpackedFloat.unpackSign, BitVec.extractLsb] using h
  rw [clear]
  rfl

theorem Unsigned.unpack {x : Float} (h : Decimal.isNegative x = false) : Unsigned x.toModel.unpack := by
  rw [isNegative_eq_msb] at h
  have sign := unpackSign_of_msb h
  unfold Float.Model.unpack UnpackedFloat.unpack
  dsimp only
  split
  · split
    · exact sign
    · trivial
  · split
    · split <;> exact sign
    · exact sign

/-! ## Rounding and dividing -/

theorem Unsigned.roundWithAccuracy (m : Nat) (e : Int) (accuracy : Accuracy) :
    Unsigned (UnpackedFloat.roundWithAccuracy .binary64 .positive m e accuracy) := by
  unfold UnpackedFloat.roundWithAccuracy
  dsimp only
  split
  · rfl
  · rfl

theorem Unsigned.div {u v : UnpackedFloat} (hu : Unsigned u) (hv : Unsigned v) :
    Unsigned (UnpackedFloat.div .binary64 u v) := by
  fun_cases UnpackedFloat.div .binary64 u v with
  | case1 | case2 | case3 | case10 => trivial
  | case11 =>
    cases hu
    cases hv
    exact .roundWithAccuracy ..
  | case4 | case5 | case6 | case7 | case8 | case9 =>
    -- an infinity or a zero has the quotient of the two signs
    cases hu
    cases hv
    rfl

theorem Unsigned.mul {u v : UnpackedFloat} (hu : Unsigned u) (hv : Unsigned v) :
    Unsigned (UnpackedFloat.mul .binary64 u v) := by
  fun_cases UnpackedFloat.mul .binary64 u v with
  | case1 | case2 | case6 | case7 => trivial
  | case11 =>
    cases hu
    cases hv
    exact .roundWithAccuracy ..
  | case3 | case4 | case5 | case8 | case9 | case10 =>
    cases hu
    cases hv
    rfl

/-- A natural is rounded to what is not negative. -/
theorem Unsigned.ofNat (n : Nat) : Unsigned (UnpackedFloat.ofNat .binary64 n) := by
  unfold UnpackedFloat.ofNat UnpackedFloat.ofInt UnpackedFloat.normalize
  split
  · rename_i less
    exact absurd (Int.compare_eq_lt.1 less) (Int.not_lt.2 (Int.natCast_nonneg n))
  · rfl
  · exact .roundWithAccuracy _ _ _

theorem Unsigned.ofScientific (m : Nat) (e : Int) :
    Unsigned (UnpackedFloat.ofScientific .binary64 m e) := by
  unfold UnpackedFloat.ofScientific
  split
  · rfl
  · split
    · rfl
    · split
      · rfl
      · split
        · exact .mul rfl rfl
        · exact .div rfl rfl

/-! ## Literals -/

theorem isNegative_toFloat (n : UInt64) : isNegative n.toFloat = false :=
  (Unsigned.ofNat n.toNat).isNegative

theorem isNegative_div {x y : Float} (hx : isNegative x = false) (hy : isNegative y = false) :
    isNegative (x / y) = false :=
  ((Unsigned.unpack hx).div (.unpack hy)).isNegative

theorem isNegative_mul {x y : Float} (hx : isNegative x = false) (hy : isNegative y = false) :
    isNegative (x * y) = false :=
  ((Unsigned.unpack hx).mul (.unpack hy)).isNegative

theorem isNegative_powerOfTen : ∀ i : Fin 23,
    isNegative (Float.exactlyRepresentablePowersOfTen[i]) = false := by
  decide +kernel

theorem isNegative_ofScientific (m : Nat) (s : Bool) (e : Nat) :
    isNegative (Float.ofScientific m s e) = false := by
  unfold Float.ofScientific
  split
  · rename_i small
    have power := isNegative_powerOfTen ⟨e, Nat.lt_succ_of_le small.2⟩
    dsimp only
    split
    · exact isNegative_div (isNegative_toFloat _) power
    · exact isNegative_mul (isNegative_toFloat _) power
  · exact (Unsigned.ofScientific _ _).isNegative

/-- The sign bit of a number literal is clear. -/
theorem isNegative_decimalValue (before after : List Char) :
    isNegative (decimalValue before after) = false :=
  isNegative_ofScientific ..

end ClassScript.Decimal
