import ClassScript.Number
import ClassScript.Proofs.Decimal.Intervals

set_option autoImplicit false

/-!
# Different numbers have different texts

The tree listing writes a finite number as digits around one point.  Read as a decimal, the text
rounds to the double that it was written for, and to no other one; the sign stands in front.  So no
two finite doubles are listed the same.
-/

namespace ClassScript.Decimal

/-! ## Digits around a point -/

/-- The text is of digits, at most one point apart, and starts with a digit. -/
def IsUnsigned (cs : List Char) : Prop :=
  (∃ d ds, cs = d :: ds ∧ d.isDigit) ∧ ∀ c ∈ cs, c.isDigit ∨ c = '.'

/-- The number that digits around a point stand for. -/
def textValue (cs : List Char) : ℚ :=
  let after := (cs.dropWhile (· ≠ '.')).tail
  Nat.ofDigitChars 10 (cs.takeWhile (· ≠ '.') ++ after) 0 / 10 ^ after.length

theorem isDigit_digitChars (n : Nat) : ∀ c ∈ digitChars n, c.isDigit :=
  fun _ inside => Nat.isDigit_of_mem_toDigits (by decide) (by decide) inside

theorem digitChars_ne_nil (n : Nat) : digitChars n ≠ [] :=
  Nat.toDigits_ne_nil

theorem isDigit_zeros (n : Nat) : ∀ c ∈ List.replicate n '0', c.isDigit := by
  intro c inside
  rw [List.eq_of_mem_replicate inside]
  rfl

section TextValue

variable {ds fs : List Char} (whole : ∀ c ∈ ds, c.isDigit)
include whole

theorem ne_point_of_digits : ∀ c ∈ ds, decide (c ≠ '.') = true := by
  intro c inside
  apply decide_eq_true
  rintro rfl
  exact absurd (whole '.' inside) (by decide)

theorem textValue_point :
    textValue (ds ++ '.' :: fs) = Nat.ofDigitChars 10 (ds ++ fs) 0 / 10 ^ fs.length := by
  have before := ne_point_of_digits whole
  unfold textValue
  rw [List.takeWhile_append_of_pos before, List.dropWhile_append_of_pos before]
  simp

theorem textValue_digits : textValue ds = Nat.ofDigitChars 10 ds 0 := by
  have before := ne_point_of_digits whole
  unfold textValue
  rw [List.takeWhile_eq_self_iff.2 before, List.dropWhile_eq_nil_iff.2 before]
  simp

theorem IsUnsigned.of_digits (some_digit : ds ≠ []) : IsUnsigned ds := by
  obtain ⟨d, ds, rfl⟩ := List.exists_cons_of_ne_nil some_digit
  exact ⟨⟨d, ds, rfl, whole d List.mem_cons_self⟩, fun c inside => .inl (whole c inside)⟩

theorem IsUnsigned.of_point (some_digit : ds ≠ []) (part : ∀ c ∈ fs, c.isDigit) :
    IsUnsigned (ds ++ '.' :: fs) := by
  obtain ⟨d, ds, rfl⟩ := List.exists_cons_of_ne_nil some_digit
  refine ⟨⟨d, ds ++ '.' :: fs, rfl, whole d List.mem_cons_self⟩, fun c inside => ?_⟩
  rcases List.mem_append.1 inside with before | after
  · exact .inl (whole c before)
  · rcases List.mem_cons.1 after with rfl | after
    · exact .inr rfl
    · exact .inl (part c after)

end TextValue

/-! ## Layouts -/

/-- A whole value is written with all its digits. -/
theorem textValue_wholeDigits (n : Nat) : textValue (Number.wholeDigits n) = n := by
  have tenfold : Nat.ofDigitChars 10 (digitChars n ++ ['0']) 0 = 10 * n := by
    rw [Nat.ofDigitChars_append, digitChars, Nat.ofDigitChars_ten_toDigits]
    rfl
  unfold Number.wholeDigits
  rw [textValue_point (isDigit_digitChars n), tenfold]
  simp

theorem isUnsigned_wholeDigits (n : Nat) : IsUnsigned (Number.wholeDigits n) :=
  .of_point (isDigit_digitChars n) (digitChars_ne_nil n) (isDigit_zeros 1)

/-- Digits that are read back as a natural. -/
structure Spells (cs : List Char) (n : Nat) : Prop where
  digits : ∀ c ∈ cs, c.isDigit
  number : Nat.ofDigitChars 10 cs 0 = n

theorem spells_digitChars (n : Nat) : Spells (digitChars n) n where
  digits := isDigit_digitChars n
  number := Nat.ofDigitChars_ten_toDigits

/-- Zeros in front change nothing. -/
theorem Spells.zeros {cs : List Char} {n : Nat} (h : Spells cs n) (k : Nat) :
    Spells (List.replicate k '0' ++ cs) n where
  digits := List.forall_mem_append.2 ⟨isDigit_zeros k, h.digits⟩
  number := by
    rw [Nat.ofDigitChars_append, Nat.ofDigitChars_replicate_zero]
    exact h.number

namespace Scaled

/-- The layouts: without a point, or with the point where it belongs, among the digits or after the
first of the zeros before them. -/
theorem positional_cases (d : Scaled) :
    (∃ n : ℕ, d.exponent = n ∧ d.positional false = digitChars d.digits ++ List.replicate n '0') ∨
    ∃ ds fs, ds ≠ [] ∧ Spells (ds ++ fs) d.digits ∧ d.exponent = -(fs.length : ℤ) ∧
      d.positional false = ds ++ '.' :: fs := by
  have spells := spells_digitChars d.digits
  unfold positional
  dsimp only
  split
  · rename_i whole
    left
    exact ⟨d.exponent.toNat, (Int.toNat_of_nonneg whole).symm, by simp⟩
  · rename_i negative
    right
    split
    · rename_i among
      refine ⟨_, _, ?_, ?_, ?_, rfl⟩
      · apply List.ne_nil_of_length_pos
        rw [List.length_take]
        omega
      · rwa [List.take_append_drop]
      · rw [List.length_drop]
        omega
    · rename_i before
      refine ⟨['0'], _, List.cons_ne_nil _ _, (spells.zeros _).zeros 1, ?_, rfl⟩
      rw [List.length_append, List.length_replicate]
      omega

/-- The digits in their places stand for the decimal. -/
theorem textValue_positional (d : Scaled) : textValue (d.positional false) = d.value := by
  rcases d.positional_cases with ⟨n, same, text⟩ | ⟨ds, fs, -, spells, places, text⟩
  · have spells := spells_digitChars d.digits
    have all := List.forall_mem_append.2 ⟨spells.digits, isDigit_zeros n⟩
    rw [text, textValue_digits all, Nat.ofDigitChars_append, spells.number,
      Nat.ofDigitChars_replicate_zero, value, same, zpow_natCast, mul_comm, Nat.cast_mul,
      Nat.cast_pow]
    rfl
  · rw [text, textValue_point (List.forall_mem_append.1 spells.digits).1, spells.number, value,
      places, zpow_neg, zpow_natCast, div_eq_mul_inv]

theorem isUnsigned_positional (d : Scaled) : IsUnsigned (d.positional false) := by
  rcases d.positional_cases with ⟨n, -, text⟩ | ⟨ds, fs, nonempty, spells, -, text⟩
  · rw [text]
    apply IsUnsigned.of_digits
    · exact List.forall_mem_append.2 ⟨isDigit_digitChars d.digits, isDigit_zeros n⟩
    · exact List.append_ne_nil_of_left_ne_nil (digitChars_ne_nil d.digits) _
  · obtain ⟨before, after⟩ := List.forall_mem_append.1 spells.digits
    rw [text]
    exact .of_point before nonempty after

end Scaled

/-! ## Doubles -/

section Double

variable {field field' fraction fraction' : ℕ} {b : Binary} {x y : Float}

/-- A finite double has a mantissa and an exponent as doubles have. -/
theorem canonical_of_fields (bits : fraction < 2 ^ 52)
    (h : Magnitude.ofFields field fraction = .finite b) : b.Canonical := by
  unfold Magnitude.ofFields at h
  split at h
  · split at h <;> cases h
  · split at h
    · cases h
      exact ⟨by dsimp only; omega, by dsimp only; omega, by dsimp only; omega, by simp⟩
    · cases h
      refine ⟨?_, ?_, ?_, ?_⟩
      · dsimp only
        rw [Nat.pow_eq]
        omega
      · dsimp only
        omega
      · intro _
        exact Nat.le_add_right _ _
      · simp
        omega

/-- The bits of a finite double are found again in its mantissa and its exponent. -/
theorem fields_inj (bits : fraction < 2 ^ 52) (bits' : fraction' < 2 ^ 52)
    (h : Magnitude.ofFields field fraction = .finite b)
    (h' : Magnitude.ofFields field' fraction' = .finite b) :
    field = field' ∧ fraction = fraction' := by
  unfold Magnitude.ofFields at h h'
  split at h
  · split at h <;> cases h
  split at h'
  · split at h' <;> cases h'
  -- the mantissa tells whether the exponent field is zero
  split at h <;> split at h' <;> cases h <;> simp at h' <;> omega

/-- A finite double is known from its magnitude and its sign. -/
theorem eq_of_magnitude (hx : magnitude x = .finite b) (hy : magnitude y = .finite b)
    (sign : isNegative x = isNegative y) : x = y := by
  have positive : 0 < Nat.pow 2 52 := by decide
  obtain ⟨field, fraction⟩ := fields_inj (Nat.mod_lt _ positive) (Nat.mod_lt _ positive) hx hy
  have size := x.toBits.toNat_lt
  have size' := y.toBits.toNat_lt
  rw [isNegative, isNegative, Bool.eq_iff_iff, beq_iff_eq, beq_iff_eq] at sign
  simp only [Nat.pow_eq] at *
  apply Float.toBits_inj.1
  apply UInt64.toNat_inj.1
  omega

theorem canonical_of_magnitude (h : magnitude x = .finite b) : b.Canonical :=
  canonical_of_fields (Nat.mod_lt _ (by decide)) h

end Double

end ClassScript.Decimal

namespace ClassScript.Number

open ClassScript.Decimal

/-- The number is neither infinite nor none at all. -/
def IsFinite (x : Float) : Prop :=
  ∃ b, magnitude x = .finite b

/-- The text of a finite number in the tree listing, but for the sign. -/
def unsigned (b : Binary) : List Char :=
  match b.whole? with
  | some n => wholeDigits n
  | none => plainDigits b

variable {x y : Float} {b : Binary}

theorem treeText_of_finite (h : magnitude x = .finite b) : treeText x = signed x (unsigned b) := by
  unfold treeText unsigned whole? listed
  rw [h]
  dsimp only
  cases b.whole? <;> rfl

theorem isUnsigned_unsigned (b : Binary) : IsUnsigned (unsigned b) := by
  unfold unsigned
  split
  · exact isUnsigned_wholeDigits _
  · exact Scaled.isUnsigned_positional _

/-- The text rounds to the double. -/
theorem holds_unsigned (b : Binary) : b.Holds (textValue (unsigned b)) := by
  unfold unsigned
  split
  · rename_i n whole
    rw [textValue_wholeDigits, ← Binary.value_of_whole? whole]
    exact b.holds_value
  · rw [plainDigits, Scaled.textValue_positional]
    exact b.holds_shortest .awayFromZero

/-- The sign of a number can be told from its text. -/
theorem signed_inj {cs ds : List Char} (hcs : IsUnsigned cs) (hds : IsUnsigned ds)
    (same : signed x cs = signed y ds) : isNegative x = isNegative y ∧ cs = ds := by
  obtain ⟨⟨c, cs', rfl, digit⟩, -⟩ := hcs
  obtain ⟨⟨d, ds', rfl, digit'⟩, -⟩ := hds
  have sign : ∀ e : Char, e.isDigit = true → e ≠ '-' := by
    rintro e isDigit rfl
    exact absurd isDigit (by decide)
  have text := String.ofList_inj.1 same
  cases negative : isNegative x <;> cases negative' : isNegative y <;>
    rw [negative, negative'] at text <;> simp at text
  · exact ⟨rfl, List.cons_eq_cons.2 text⟩
  · exact absurd text.1 (sign c digit)
  · exact absurd text.1.symm (sign d digit')
  · exact ⟨rfl, List.cons_eq_cons.2 text⟩

/-- Different finite numbers are listed with different texts. -/
theorem treeText_injOn : Set.InjOn treeText {x | IsFinite x} := by
  rintro x ⟨b, hx⟩ y ⟨b', hy⟩ same
  rw [treeText_of_finite hx, treeText_of_finite hy] at same
  obtain ⟨sign, text⟩ := signed_inj (isUnsigned_unsigned b) (isUnsigned_unsigned b') same
  have rounds := holds_unsigned b'
  rw [← text] at rounds
  obtain rfl := (canonical_of_magnitude hx).eq_of_holds (canonical_of_magnitude hy)
    (holds_unsigned b) rounds
  exact eq_of_magnitude hx hy sign

/-- The text of a finite number starts with a digit or with a sign, and goes on with digits and a
point. -/
theorem treeText_chars (h : IsFinite x) :
    ∃ c cs, (treeText x).toList = c :: cs ∧ (c.isDigit ∨ c = '-') ∧
      ∀ d ∈ cs, d.isDigit ∨ d = '.' := by
  obtain ⟨b, h⟩ := h
  obtain ⟨⟨c, cs, text, digit⟩, all⟩ := isUnsigned_unsigned b
  rw [treeText_of_finite h, signed, String.toList_ofList]
  split
  · exact ⟨'-', _, rfl, .inr rfl, all⟩
  · rw [text] at all ⊢
    exact ⟨c, cs, rfl, .inl digit, fun d inside => all d (.tail c inside)⟩

end ClassScript.Number
