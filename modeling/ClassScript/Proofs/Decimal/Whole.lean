import ClassScript.Proofs.Decimal.Text

set_option autoImplicit false

/-!
# How whole values are written

Below `2 ^ 63` both listings write a whole value with all its digits and `.0`.  From there on only the
tree listing does.  The token listing then has the fewest digits that read back, and since a double as
large as that has no places after the point, these digits stand without one.
-/

namespace ClassScript.Decimal

namespace Binary

variable {x : Binary} {n : ℕ}

/-- A double that stands for a natural has it as its whole value. -/
theorem whole?_of_value (h : x.value = n) : x.whole? = some n := by
  unfold value at h
  by_cases whole : 0 ≤ x.exponent
  · obtain ⟨k, same⟩ := Int.eq_ofNat_of_zero_le whole
    rw [same, zpow_natCast] at h
    have product : x.mantissa * 2 ^ k = n := by exact_mod_cast h
    rw [whole?_of_nonneg x whole, same, Int.toNat_natCast, ← product]
    rfl
  · obtain ⟨k, same⟩ := Int.eq_ofNat_of_zero_le (show 0 ≤ -x.exponent by omega)
    have below : x.exponent = -(k : ℤ) := by omega
    rw [below, zpow_neg, zpow_natCast, ← div_eq_mul_inv, div_eq_iff (by positivity)] at h
    have product : x.mantissa = n * 2 ^ k := by exact_mod_cast h
    have positive : 0 < 2 ^ k := Nat.two_pow_pos k
    have parts : Nat.pow 2 (-x.exponent).toNat = 2 ^ k := by rw [same]; rfl
    unfold whole?
    rw [if_neg whole]
    dsimp only
    rw [parts, product, if_pos (Nat.mul_mod_left n _), Nat.mul_div_cancel n positive]

/-! ## Doubles without places after the point -/

/-- The mantissa of a large double has no bits after the point. -/
theorem Canonical.exponent_nonneg (h : x.Canonical) (large : 2 ^ 53 ≤ x.value) : 0 ≤ x.exponent := by
  by_contra negative
  have part : (2 : ℚ) ^ x.exponent ≤ 1 := zpow_le_one_of_nonpos₀ one_le_two (by omega)
  have bits : (x.mantissa : ℚ) < 2 ^ 53 := by exact_mod_cast h.below
  have small : x.value < 2 ^ 53 := by
    calc x.value ≤ x.mantissa * 1 := mul_le_mul_of_nonneg_left part (Nat.cast_nonneg _)
      _ = x.mantissa := mul_one _
      _ < 2 ^ 53 := bits
  exact absurd large (not_le_of_gt small)

section Whole

variable (whole : 0 ≤ x.exponent) (tie : Tie)
include whole

/-- The value is one of the points of the grid of the naturals. -/
theorem step_dvd_value :
    (Ruler.of x.exponent 0).step ∣ 4 * x.mantissa * (Ruler.of x.exponent 0).quarter := by
  have places : 2 + (x.exponent - 2).toNat = x.exponent.toNat + (2 - x.exponent).toNat := by omega
  have quarters : 4 * 2 ^ (x.exponent - 2).toNat =
      2 ^ x.exponent.toNat * 2 ^ (2 - x.exponent).toNat := by
    rw [← pow_add, ← places, pow_add]
    rfl
  refine ⟨x.mantissa * 2 ^ x.exponent.toNat, ?_⟩
  simp only [Ruler.of, Nat.pow_eq, neg_zero, Int.toNat_zero, pow_zero, mul_one, one_mul]
  calc 4 * x.mantissa * 2 ^ (x.exponent - 2).toNat
      = x.mantissa * (4 * 2 ^ (x.exponent - 2).toNat) := by ring
    _ = 2 ^ (2 - x.exponent).toNat * (x.mantissa * 2 ^ x.exponent.toNat) := by
      rw [quarters]
      ring

/-- A point of that grid reads back: at least the value itself does. -/
theorem onGrid?_zero_ne_none (some : x.mantissa ≠ 0) : x.onGrid? tie 0 ≠ none := by
  have meets : 4 * x.mantissa * (Ruler.of x.exponent 0).quarter / (Ruler.of x.exponent 0).step *
      (Ruler.of x.exponent 0).step = 4 * x.mantissa * (Ruler.of x.exponent 0).quarter :=
    Nat.div_mul_cancel (step_dvd_value whole)
  have positive : 0 < (Ruler.of x.exponent 0).quarter := by
    simp [Ruler.of]
  have low : x.lowerEnd < 4 * x.mantissa := by
    unfold lowerEnd
    split <;> omega
  have high : 4 * x.mantissa < x.upperEnd := Nat.lt_add_of_pos_right two_pos
  have above := Nat.mul_lt_mul_of_pos_right low positive
  have below := Nat.mul_lt_mul_of_pos_right high positive
  have reads : x.readsBack (Ruler.of x.exponent 0)
      (4 * x.mantissa * (Ruler.of x.exponent 0).quarter / (Ruler.of x.exponent 0).step) = true := by
    unfold readsBack
    dsimp only
    rw [meets]
    split
    · simp [above.le, below.le]
    · simp [above, below]
  unfold onGrid?
  dsimp only
  rw [reads]
  generalize x.readsBack _ (_ + 1) = next
  cases next with
  | false => exact Option.some_ne_none _
  | true =>
    dsimp only
    split <;> exact Option.some_ne_none _

/-- The shortest decimal for a double without places after the point has none either. -/
theorem shortest_exponent_nonneg : 0 ≤ (x.shortest tie).exponent := by
  unfold shortest
  split
  · exact Int.le_refl 0
  · rename_i some
    cases found : x.searchFrom tie 24 x.decimalCeiling with
    | none =>
      rw [Option.getD_none, exactDecimal, if_pos whole]
    | some d =>
      rw [Option.getD_some]
      by_contra negative
      -- the search comes to places after the point only if the grid of the naturals has no point for it
      have start : 0 ≤ x.decimalCeiling := by
        unfold decimalCeiling
        omega
      exact onGrid?_zero_ne_none whole tie some
        (onGrid?_eq_none_of_searchFrom found (by omega) start)

end Whole

end Binary

/-- Without places after the point, the digits stand in full. -/
theorem Scaled.isDigit_positional {d : Scaled} (whole : 0 ≤ d.exponent) :
    ∀ c ∈ d.positional false, c.isDigit := by
  unfold positional
  dsimp only
  rw [if_pos whole, if_neg Bool.false_ne_true, List.append_nil]
  exact List.forall_mem_append.2 ⟨isDigit_digitChars _, isDigit_zeros _⟩

end ClassScript.Decimal

namespace ClassScript.Number

open ClassScript.Decimal

/-! ## Numbers that are not negative -/

/-- The number that a double stands for, unless it is infinite or none at all. -/
def value? (x : Float) : Option ℚ :=
  match magnitude x with
  | .finite b => some (if isNegative x then -b.value else b.value)
  | _ => none

/-- A natural with all its digits and `.0`. -/
def exactText (n : ℕ) : String :=
  toString n ++ ".0"

theorem whole?_of_value {x : Float} {b : Binary} {n : ℕ} (finite : magnitude x = .finite b)
    (same : b.value = n) : whole? x = some n := by
  unfold whole?
  rw [finite]
  exact Binary.whole?_of_value same

theorem ofList_wholeDigits (n : ℕ) : String.ofList (wholeDigits n) = exactText n := by
  rw [wholeDigits, String.ofList_append]
  rfl

section Positive

variable {x : Float} (positive : isNegative x = false)
include positive

/-- A whole value that is not negative is a natural. -/
theorem exists_of_value? {z : ℤ} (h : value? x = some (z : ℚ)) :
    ∃ (b : Binary) (n : ℕ), magnitude x = .finite b ∧ z = n ∧ b.value = n := by
  unfold value? at h
  split at h
  · rename_i b finite
    rw [positive, if_neg Bool.false_ne_true] at h
    have same : b.value = z := Option.some.inj h
    have above : 0 ≤ (z : ℚ) := by
      rw [← same, Binary.value]
      positivity
    obtain ⟨n, rfl⟩ := Int.eq_ofNat_of_zero_le (Int.cast_nonneg_iff.1 above)
    exact ⟨b, n, finite, rfl, same⟩
  · cases h

theorem signed_of_positive (text : List Char) : signed x text = String.ofList text := by
  rw [signed, positive]
  rfl

variable {b : Binary} {n : ℕ} (finite : magnitude x = .finite b) (same : b.value = n)
include finite same

/-- The tree listing has all the digits. -/
theorem treeText_whole : treeText x = exactText n := by
  unfold treeText
  rw [whole?_of_value finite same]
  dsimp only
  rw [signed_of_positive positive, ofList_wholeDigits]

/-- So has the token listing, as far as it goes. -/
theorem tokenText_small (small : n < 2 ^ 63) : tokenText x = exactText n := by
  unfold tokenText
  rw [whole?_of_value finite same]
  dsimp only
  split
  · rename_i zero
    rw [zero, ofList_wholeDigits]
  · rw [if_pos (by simpa using small), signed_of_positive positive, ofList_wholeDigits]

/-- Beyond that it has digits only. -/
theorem tokenText_large (large : 2 ^ 63 ≤ n) :
    ∃ digits, tokenText x = String.ofList digits ∧ ∀ c ∈ digits, c.isDigit := by
  have value : (2 : ℚ) ^ 53 ≤ b.value := by
    rw [same]
    exact_mod_cast Nat.le_trans (by norm_num) large
  have whole := (canonical_of_magnitude finite).exponent_nonneg value
  refine ⟨plainDigits b, ?_, Scaled.isDigit_positional (Binary.shortest_exponent_nonneg whole _)⟩
  unfold tokenText listed
  rw [whole?_of_value finite same, finite]
  dsimp only
  rw [if_neg (by omega), if_neg (by simpa using large), signed_of_positive positive]

/-- So the token listing has the same as the tree listing exactly below `2 ^ 63`. -/
theorem tokenText_eq_iff : tokenText x = exactText n ↔ n < 2 ^ 63 := by
  refine ⟨fun text => ?_, tokenText_small positive finite same⟩
  by_contra large
  obtain ⟨digits, plain, all⟩ := tokenText_large positive finite same (Nat.le_of_not_lt large)
  have point : '.' ∈ digits := by
    rw [plain, ← ofList_wholeDigits] at text
    rw [String.ofList_inj.1 text, wholeDigits]
    simp
  exact absurd (all '.' point) (by decide)

end Positive

end ClassScript.Number
