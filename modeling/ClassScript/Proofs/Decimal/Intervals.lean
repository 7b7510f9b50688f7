import ClassScript.Decimal.Shortest
import Mathlib

set_option autoImplicit false

/-!
# The numbers that read back to a double

The numbers that round to a double are those between the middles to its two neighbours, the middles
themselves exactly if its mantissa is even.  Of two neighbours one has an odd mantissa, so no number
rounds to both: a decimal that reads back to a double says which double it is.
-/

namespace ClassScript.Decimal

/-- The number that a decimal stands for. -/
def Scaled.value (d : Scaled) : ℚ :=
  d.digits * 10 ^ d.exponent

namespace Binary

/-- The number that a double stands for. -/
def value (x : Binary) : ℚ :=
  x.mantissa * 2 ^ x.exponent

/-- A quarter of the last place. -/
def quarter (x : Binary) : ℚ :=
  2 ^ (x.exponent - 2)

/-- The number rounds to the double. -/
structure Holds (x : Binary) (q : ℚ) : Prop where
  low : x.lowerEnd * x.quarter ≤ q
  high : q ≤ x.upperEnd * x.quarter
  /-- the ends round to the neighbours if the mantissa is odd -/
  inner : x.mantissa % 2 = 1 → x.lowerEnd * x.quarter < q ∧ q < x.upperEnd * x.quarter

theorem quarter_pos (x : Binary) : 0 < x.quarter :=
  zpow_pos two_pos _

/-- The value lies four quarters of the last place for each of its units from zero. -/
theorem value_eq (x : Binary) : x.value = ↑(4 * x.mantissa) * x.quarter := by
  have place : (2 : ℚ) ^ x.exponent = 4 * x.quarter := by
    rw [quarter, zpow_sub₀ two_ne_zero]
    ring
  rw [value, place, Nat.cast_mul]
  ring

/-- A double is within its own interval. -/
theorem holds_value (x : Binary) : x.Holds x.value := by
  have low : x.lowerEnd ≤ 4 * x.mantissa := by
    unfold lowerEnd
    split <;> omega
  have high : 4 * x.mantissa ≤ x.upperEnd := Nat.le_add_right _ 2
  have positive := x.quarter_pos
  rw [value_eq]
  refine ⟨?_, ?_, fun odd => ⟨?_, ?_⟩⟩
  · exact mul_le_mul_of_nonneg_right (Nat.cast_le.2 low) positive.le
  · exact mul_le_mul_of_nonneg_right (Nat.cast_le.2 high) positive.le
  · have below : x.lowerEnd < 4 * x.mantissa := by
      unfold lowerEnd
      split <;> omega
    exact mul_lt_mul_of_pos_right (Nat.cast_lt.2 below) positive
  · have above : 4 * x.mantissa < x.upperEnd := Nat.lt_add_of_pos_right two_pos
    exact mul_lt_mul_of_pos_right (Nat.cast_lt.2 above) positive

end Binary

/-! ## What the search finds -/

/-- Of an exponent and its opposite, one is no natural. -/
theorem zpow_mul_pow_toNat {a : ℚ} (h : a ≠ 0) (n : ℤ) : a ^ n * a ^ (-n).toNat = a ^ n.toNat := by
  rcases Int.le_total 0 n with positive | negative
  · rw [Int.toNat_of_nonpos (Int.neg_nonpos_of_nonneg positive), pow_zero, mul_one, ← zpow_natCast,
      Int.toNat_of_nonneg positive]
  · rw [Int.toNat_of_nonpos negative, pow_zero, ← zpow_natCast,
      Int.toNat_of_nonneg (Int.neg_nonneg_of_nonpos negative), ← zpow_add₀ h, add_neg_cancel,
      zpow_zero]

/-- A ruler measures quarters and steps in one unit. -/
theorem Ruler.unit (binary decimal : ℤ) :
    ∃ unit : ℚ, 0 < unit ∧ ((Ruler.of binary decimal).quarter : ℚ) = 2 ^ (binary - 2) * unit ∧
      ((Ruler.of binary decimal).step : ℚ) = 10 ^ decimal * unit := by
  have twos := zpow_mul_pow_toNat (two_ne_zero (α := ℚ)) (binary - 2)
  have tens := zpow_mul_pow_toNat (show (10 : ℚ) ≠ 0 by norm_num) decimal
  rw [neg_sub] at twos
  refine ⟨10 ^ (-decimal).toNat * 2 ^ (2 - binary).toNat, by positivity, ?_, ?_⟩
  · rw [mul_left_comm, twos]
    simp [Ruler.of, mul_comm]
  · rw [← mul_assoc, tens]
    simp [Ruler.of]

namespace Binary

variable {x y : Binary} {q : ℚ}

/-- Multiples of two lengths compare as they do on a ruler that shows both. -/
theorem le_iff_of_unit {unit s t : ℚ} {a b m n : ℕ} (positive : 0 < unit)
    (hm : (m : ℚ) = s * unit) (hn : (n : ℚ) = t * unit) : a * m ≤ b * n ↔ a * s ≤ b * t := by
  rw [← Nat.cast_le (α := ℚ), Nat.cast_mul, Nat.cast_mul, hm, hn, ← mul_assoc, ← mul_assoc,
    mul_le_mul_iff_left₀ positive]

/-- What reads back is within the interval. -/
theorem holds_of_readsBack {k : ℤ} {point : ℕ}
    (h : x.readsBack (Ruler.of x.exponent k) point = true) : x.Holds (point * 10 ^ k) := by
  obtain ⟨unit, positive, quarter, step⟩ := Ruler.unit x.exponent k
  have le_iff (a b : ℕ) := le_iff_of_unit (a := a) (b := b) positive quarter step
  have ge_iff (a b : ℕ) := le_iff_of_unit (a := a) (b := b) positive step quarter
  unfold readsBack at h
  dsimp only at h
  split at h
  · rename_i even
    rw [Bool.and_eq_true, decide_eq_true_eq, decide_eq_true_eq] at h
    exact ⟨(le_iff _ _).1 h.1, (ge_iff _ _).1 h.2, fun odd => by omega⟩
  · rw [Bool.and_eq_true, decide_eq_true_eq, decide_eq_true_eq] at h
    have above := (lt_iff_lt_of_le_iff_le (ge_iff _ _)).1 h.1
    have below := (lt_iff_lt_of_le_iff_le (le_iff _ _)).1 h.2
    exact ⟨above.le, below.le, fun _ => ⟨above, below⟩⟩

/-- The exact decimal stands for the same number. -/
theorem value_exactDecimal (x : Binary) : x.exactDecimal.value = x.value := by
  unfold exactDecimal Scaled.value value
  split
  · rename_i whole
    obtain ⟨n, same⟩ := Int.eq_ofNat_of_zero_le whole
    simp [same]
  · rename_i negative
    obtain ⟨n, same⟩ := Int.eq_ofNat_of_zero_le (show 0 ≤ -x.exponent by omega)
    have below : x.exponent = -n := by omega
    have tens : (10 : ℚ) ^ n = 5 ^ n * 2 ^ n := by
      rw [← mul_pow]
      norm_num
    simp only [below, neg_neg, Int.toNat_natCast, Nat.pow_eq, Nat.cast_mul, Nat.cast_pow, zpow_neg,
      zpow_natCast, tens, Nat.cast_ofNat]
    field_simp

/-- A whole value is the number that the double stands for. -/
theorem value_of_whole? {n : ℕ} (h : x.whole? = some n) : x.value = n := by
  unfold value
  by_cases whole : 0 ≤ x.exponent
  · rw [whole?_of_nonneg x whole] at h
    obtain ⟨k, same⟩ := Int.eq_ofNat_of_zero_le whole
    cases h
    simp [same]
  · rw [mantissa_eq_of_whole? whole h]
    obtain ⟨k, same⟩ := Int.eq_ofNat_of_zero_le (show 0 ≤ -x.exponent by omega)
    have below : x.exponent = -k := by omega
    simp [below]

/-- The shortest decimal reads back. -/
theorem holds_shortest (x : Binary) (tie : Tie) : x.Holds (x.shortest tie).value := by
  unfold shortest
  split
  · rename_i zero
    have none : Scaled.value ⟨0, 0⟩ = x.value := by simp [Scaled.value, value, zero]
    rw [none]
    exact x.holds_value
  · cases found : x.searchFrom tie 24 x.decimalCeiling with
    | none =>
      rw [Option.getD_none, value_exactDecimal]
      exact x.holds_value
    | some d => exact holds_of_readsBack (readsBack_of_searchFrom found)

/-! ## Doubles -/

/-- The mantissa and the exponent are those of a double: all fifty-three bits of the mantissa are
there unless the exponent is the least, and only the double below a power of two is nearer than the
one above. -/
structure Canonical (x : Binary) : Prop where
  below : x.mantissa < 2 ^ 53
  least : -1074 ≤ x.exponent
  full : -1074 < x.exponent → 2 ^ 52 ≤ x.mantissa
  narrow : x.narrowBelow = true ↔ x.mantissa = 2 ^ 52 ∧ -1074 < x.exponent

/-- The interval of the one ends no later than that of the other starts, and not both of them have
the place where they meet. -/
structure Before (x y : Binary) : Prop where
  le : x.upperEnd * x.quarter ≤ y.lowerEnd * y.quarter
  lt : x.mantissa % 2 = 0 → y.mantissa % 2 = 0 →
    x.upperEnd * x.quarter < y.lowerEnd * y.quarter

theorem Before.not_holds (before : x.Before y) (h : x.Holds q) : ¬y.Holds q := by
  intro k
  have meet : q = x.upperEnd * x.quarter ∧ q = y.lowerEnd * y.quarter := by
    constructor
    · exact le_antisymm h.high (before.le.trans k.low)
    · exact le_antisymm (h.high.trans before.le) k.low
  rcases Nat.mod_two_eq_zero_or_one x.mantissa with even | odd
  · rcases Nat.mod_two_eq_zero_or_one y.mantissa with even' | odd'
    · exact absurd (before.lt even even') (not_lt_of_ge (meet.2.symm.trans meet.1).le)
    · exact absurd (k.inner odd').1 (not_lt_of_ge meet.2.le)
  · exact absurd (h.inner odd).2 (not_lt_of_ge meet.1.ge)

/-- Intervals are compared by counting in the quarters of the first. -/
theorem before_of_ends {c : ℕ} (unit : c * x.quarter ≤ y.quarter) (le : x.upperEnd ≤ y.lowerEnd * c)
    (lt : x.mantissa % 2 = 0 → y.mantissa % 2 = 0 → x.upperEnd < y.lowerEnd * c) : x.Before y := by
  have positive := x.quarter_pos
  have scaled : ↑(y.lowerEnd * c) * x.quarter ≤ y.lowerEnd * y.quarter := by
    rw [Nat.cast_mul, mul_assoc]
    exact mul_le_mul_of_nonneg_left unit (Nat.cast_nonneg _)
  constructor
  · exact (mul_le_mul_of_nonneg_right (Nat.cast_le.2 le) positive.le).trans scaled
  · intro even even'
    exact (mul_lt_mul_of_pos_right (Nat.cast_lt.2 (lt even even')) positive).trans_le scaled

/-- Of two doubles with one exponent, the one with the smaller mantissa comes first. -/
theorem before_of_mantissa (same : x.exponent = y.exponent) (less : x.mantissa < y.mantissa) :
    x.Before y := by
  have unit : ((1 : ℕ) : ℚ) * x.quarter ≤ y.quarter := by
    rw [quarter, same, Nat.cast_one, one_mul, quarter]
  have ends : 4 * y.mantissa - 2 ≤ y.lowerEnd := by
    unfold lowerEnd
    split <;> omega
  have top : x.upperEnd = 4 * x.mantissa + 2 := rfl
  apply before_of_ends unit
  · omega
  · omega

/-- Of two exponents, the smaller one comes first: even the last double with the one is followed by
the first with the other, which is twice as far from those above it. -/
theorem Canonical.before_of_exponent (hx : x.Canonical) (hy : y.Canonical)
    (less : x.exponent < y.exponent) : x.Before y := by
  have above : -1074 < y.exponent := Int.lt_of_le_of_lt hx.least less
  have unit : ((2 : ℕ) : ℚ) * x.quarter ≤ y.quarter := by
    have next : ((2 : ℕ) : ℚ) * x.quarter = 2 ^ (x.exponent - 2 + 1) := by
      rw [zpow_add_one₀ two_ne_zero, mul_comm]
      rfl
    rw [next, quarter]
    apply zpow_le_zpow_right₀ one_le_two
    omega
  have bits := hx.below
  have bits' := hy.full above
  have ends : 2 ^ 54 - 1 ≤ y.lowerEnd := by
    have narrow := hy.narrow
    unfold lowerEnd
    split
    · omega
    · rename_i wide
      have more : y.mantissa ≠ 2 ^ 52 := fun power => wide (narrow.2 ⟨power, above⟩)
      omega
  have top : x.upperEnd = 4 * x.mantissa + 2 := rfl
  apply before_of_ends unit
  · omega
  · omega

/-- A number rounds to no more than one double. -/
theorem Canonical.eq_of_holds (hx : x.Canonical) (hy : y.Canonical) (h : x.Holds q)
    (k : y.Holds q) : x = y := by
  rcases lt_trichotomy x.exponent y.exponent with less | same | more
  · exact absurd k ((hx.before_of_exponent hy less).not_holds h)
  · rcases lt_trichotomy x.mantissa y.mantissa with less | same' | more
    · exact absurd k ((before_of_mantissa same less).not_holds h)
    · have narrow : x.narrowBelow = y.narrowBelow := by
        rw [Bool.eq_iff_iff, hx.narrow, hy.narrow, same, same']
      obtain ⟨m, e, n⟩ := x
      obtain ⟨m', e', n'⟩ := y
      cases same
      cases same'
      cases narrow
      rfl
    · exact absurd h ((before_of_mantissa same.symm more).not_holds k)
  · exact absurd h ((hy.before_of_exponent hx more).not_holds k)

end Binary

end ClassScript.Decimal
