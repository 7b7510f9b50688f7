import ClassScript.Proofs.Token.Items
import ClassScript.Token.Reader

set_option autoImplicit false

/-!
# Characters and their bytes

A character of seven bits is one byte, and the byte reads as the character.  Any other character has
a first byte and continuations; none of these bytes reads as a character of seven bits.  So a
run of characters of some class is a run of bytes of the same class, as long as the characters
beyond seven bits are all in the class or all outside it.
-/

namespace ClassScript

/-! ## Encoding -/

/-- The bytes of some characters. -/
def encode (cs : List Char) : List UInt8 :=
  cs.flatMap String.utf8EncodeChar

@[simp] theorem encode_nil : encode [] = [] := rfl

theorem encode_cons (c : Char) (cs : List Char) :
    encode (c :: cs) = String.utf8EncodeChar c ++ encode cs := rfl

theorem encode_append (cs ds : List Char) : encode (cs ++ ds) = encode cs ++ encode ds :=
  List.flatMap_append

theorem length_encode (cs : List Char) : (encode cs).length = byteLength cs := by
  induction cs with
  | nil => rfl
  | cons c cs ih => rw [encode_cons, List.length_append, String.length_utf8EncodeChar, ih, byteLength]

theorem byteLength_append (cs ds : List Char) :
    byteLength (cs ++ ds) = byteLength cs + byteLength ds := by
  simp only [← length_encode, encode_append, List.length_append]

theorem byteLength_pos {cs : List Char} (h : cs ≠ []) : 0 < byteLength cs := by
  obtain ⟨c, cs, rfl⟩ := List.exists_cons_of_ne_nil h
  exact Nat.add_pos_left c.utf8Size_pos _

theorem utf8Bytes_eq (source : String) : utf8Bytes source = encode source.toList := by
  rw [utf8Bytes, ← String.utf8Encode_toList]
  exact List.toList_data_toByteArray

/-! ## One character -/

/-- A character of seven bits is a byte. -/
theorem ofUInt8_toUInt8 {c : Char} (h : c.val ≤ 127) : Char.ofUInt8 c.toUInt8 = c := by
  have small : c.val.toNat ≤ 127 := UInt32.le_iff_toNat_le.1 h
  apply Char.ext
  apply UInt32.toNat_inj.1
  simp only [Char.ofUInt8, Char.toUInt8, UInt8.toNat_toUInt32, UInt32.toNat_toUInt8]
  omega

theorem toUInt8_ofUInt8 (b : UInt8) : (Char.ofUInt8 b).toUInt8 = b := by
  simp [Char.ofUInt8, Char.toUInt8]

/-- A byte is that of a character of seven bits if it reads as the character. -/
theorem beq_toUInt8 {c : Char} (h : c.val ≤ 127) (b : UInt8) :
    (b == c.toUInt8) = (Char.ofUInt8 b == c) := by
  rw [Bool.eq_iff_iff, beq_iff_eq, beq_iff_eq]
  constructor
  · rintro rfl
    exact ofUInt8_toUInt8 h
  · rintro rfl
    exact (toUInt8_ofUInt8 b).symm

theorem utf8EncodeChar_narrow {c : Char} (h : c.val ≤ 127) :
    String.utf8EncodeChar c = [c.toUInt8] :=
  String.utf8EncodeChar_eq_singleton (Char.utf8Size_eq_one_iff.2 h)

/-- The upper bits of a byte are those of its mark if the rest of it is in the lower bits. -/
theorem upper_bits {low mark : UInt8} (apart : low &&& 0xc0 = 0) (x : UInt8) :
    (x &&& low ||| mark) &&& 0xc0 = mark &&& 0xc0 := by
  rw [← UInt8.toBitVec_inj] at apart ⊢
  simp only [UInt8.toBitVec_and, UInt8.toBitVec_or] at apart ⊢
  rw [BitVec.and_or_distrib_right, BitVec.and_assoc, apart, UInt8.toBitVec_ofNat, BitVec.and_zero,
    BitVec.zero_or]

theorem isContinuation_mark (x : UInt8) : isContinuation (x &&& 0x3f ||| 0x80) = true :=
  beq_iff_eq.2 (upper_bits rfl x)

theorem mark_le (x y : UInt8) : y ≤ x ||| y := by
  rw [UInt8.le_iff_toNat_le, UInt8.toNat_or]
  exact Nat.right_le_or

/-- Continuations have eight bits. -/
theorem le_of_isContinuation {b : UInt8} (h : isContinuation b = true) : 128 ≤ b := by
  have upper : b &&& 0xc0 ≤ b := by
    rw [UInt8.le_iff_toNat_le, UInt8.toNat_and]
    exact Nat.and_le_left
  rwa [beq_iff_eq.1 h] at upper

/-- A byte of eight bits does not read as a character of seven bits. -/
theorem wide_of_le {b : UInt8} (h : 128 ≤ b) : 127 < (Char.ofUInt8 b).val := by
  rw [UInt32.lt_iff_toNat_lt, Char.ofUInt8, UInt8.toNat_toUInt32]
  exact UInt8.le_iff_toNat_le.1 h

/-- A character beyond seven bits has a first byte and continuations. -/
theorem utf8EncodeChar_wide {c : Char} (h : 127 < c.val) :
    ∃ b bs, String.utf8EncodeChar c = b :: bs ∧ 128 ≤ b ∧ isContinuation b = false ∧
      ∀ x ∈ bs, isContinuation x = true := by
  have more : c.utf8Size ≠ 1 := fun one => by
    exact absurd (Char.utf8Size_eq_one_iff.1 one) (UInt32.not_le.2 h)
  -- the first byte has the mark of its length, the others that of a continuation
  have first : ∀ low mark x : UInt8, low &&& 0xc0 = 0 → mark &&& 0xc0 = 0xc0 →
      128 ≤ mark → 128 ≤ x &&& low ||| mark ∧ isContinuation (x &&& low ||| mark) = false := by
    intro low mark x apart upper le
    refine ⟨UInt8.le_trans le (mark_le _ _), ?_⟩
    rw [isContinuation, upper_bits apart, upper]
    rfl
  rcases Char.utf8Size_eq c with one | two | three | four
  · exact absurd one more
  · obtain ⟨le, other⟩ := first 0x1f 0xc0 (c.val >>> 6).toUInt8 rfl rfl
      (by decide)
    refine ⟨_, _, String.utf8EncodeChar_eq_cons_cons two, le, other, ?_⟩
    simp only [List.forall_mem_cons, isContinuation_mark, List.not_mem_nil, false_implies,
      implies_true, and_self]
  · obtain ⟨le, other⟩ := first 0x0f 0xe0 (c.val >>> 12).toUInt8 rfl rfl
      (by decide)
    refine ⟨_, _, String.utf8EncodeChar_eq_cons_cons_cons three, le, other, ?_⟩
    simp only [List.forall_mem_cons, isContinuation_mark, List.not_mem_nil, false_implies,
      implies_true, and_self]
  · obtain ⟨le, other⟩ := first 0x07 0xf0 (c.val >>> 18).toUInt8 rfl rfl
      (by decide)
    refine ⟨_, _, String.utf8EncodeChar_eq_cons_cons_cons_cons four, le, other, ?_⟩
    simp only [List.forall_mem_cons, isContinuation_mark, List.not_mem_nil, false_implies,
      implies_true, and_self]

/-- The bytes of a character beyond seven bits do not read as characters of seven bits. -/
theorem wide_bytes {c : Char} (h : 127 < c.val) :
    ∀ b ∈ String.utf8EncodeChar c, 127 < (Char.ofUInt8 b).val := by
  obtain ⟨first, others, bytes, le, -, continuations⟩ := utf8EncodeChar_wide h
  rw [bytes]
  exact List.forall_mem_cons.2 ⟨wide_of_le le, fun b inside =>
    wide_of_le (le_of_isContinuation (continuations b inside))⟩

/-- Every character has one first byte, and the others go on with it. -/
theorem utf8EncodeChar_cons (c : Char) : ∃ b bs, String.utf8EncodeChar c = b :: bs ∧
    isContinuation b = false ∧ ∀ x ∈ bs, isContinuation x = true := by
  by_cases narrow : c.val ≤ 127
  · refine ⟨_, [], utf8EncodeChar_narrow narrow, ?_, List.forall_mem_nil _⟩
    by_contra continuation
    have le := wide_of_le (le_of_isContinuation (Bool.not_eq_false _ ▸ continuation))
    rw [ofUInt8_toUInt8 narrow] at le
    exact absurd narrow (UInt32.not_le.2 le)
  · obtain ⟨b, bs, bytes, -, first, others⟩ := utf8EncodeChar_wide (UInt32.not_le.1 narrow)
    exact ⟨b, bs, bytes, first, others⟩

/-! ## Runs of characters -/

section Runs

variable {q : Char → Bool} {wide : Bool}

/-- A run of characters is a run of bytes. -/
theorem takeWhile_encode (uniform : ∀ c : Char, 127 < c.val → q c = wide) (cs : List Char) :
    (encode cs).takeWhile (fun b => q (Char.ofUInt8 b)) = encode (cs.takeWhile q) := by
  induction cs with
  | nil => rfl
  | cons c cs ih =>
    rw [encode_cons, List.takeWhile_cons]
    by_cases narrow : c.val ≤ 127
    · have bytes := utf8EncodeChar_narrow narrow
      rw [bytes, List.singleton_append, List.takeWhile_cons, ofUInt8_toUInt8 narrow, ih]
      split
      · rw [encode_cons, bytes, List.singleton_append]
      · rfl
    · have far : 127 < c.val := UInt32.not_le.1 narrow
      have same : ∀ b ∈ String.utf8EncodeChar c, q (Char.ofUInt8 b) = wide := fun b inside =>
        uniform _ (wide_bytes far b inside)
      rw [uniform c far]
      cases wide with
      | true => rw [List.takeWhile_append_of_pos same, ih, if_pos rfl, encode_cons]
      | false =>
        obtain ⟨b, bs, bytes, -⟩ := utf8EncodeChar_wide far
        rw [bytes] at same ⊢
        rw [List.cons_append, List.takeWhile_cons, same b List.mem_cons_self]
        rfl

/-- The first byte tells whether the first character is in the class. -/
theorem headD_encode (uniform : ∀ c : Char, 127 < c.val → q c = false) (zero : q '\x00' = false)
    (cs : List Char) : q (Char.ofUInt8 ((encode cs).headD 0)) = cs.head?.any q := by
  cases cs with
  | nil => exact zero
  | cons c cs =>
    rw [encode_cons, List.head?_cons, Option.any_some]
    by_cases narrow : c.val ≤ 127
    · rw [utf8EncodeChar_narrow narrow, List.singleton_append, List.headD_cons,
        ofUInt8_toUInt8 narrow]
    · have far : 127 < c.val := UInt32.not_le.1 narrow
      obtain ⟨b, bs, bytes, -⟩ := utf8EncodeChar_wide far
      have inside : b ∈ String.utf8EncodeChar c := bytes ▸ List.mem_cons_self
      rw [bytes, List.cons_append, List.headD_cons, uniform _ (wide_bytes far b inside),
        uniform c far]

end Runs

/-- Where a character begins, no other goes on. -/
theorem takeWhile_isContinuation (cs : List Char) : (encode cs).takeWhile isContinuation = [] := by
  cases cs with
  | nil => rfl
  | cons c cs =>
    obtain ⟨b, bs, bytes, first, -⟩ := utf8EncodeChar_cons c
    rw [encode_cons, bytes, List.cons_append, List.takeWhile_cons, first]
    rfl

/-- A first byte of seven bits is the first character. -/
theorem head?_encode {c : Char} (h : c.val ≤ 127) (cs : List Char) :
    (encode cs).head? = some c.toUInt8 ↔ cs.head? = some c := by
  cases cs with
  | nil => simp
  | cons d cs =>
    rw [encode_cons, List.head?_cons]
    by_cases narrow : d.val ≤ 127
    · rw [utf8EncodeChar_narrow narrow, List.singleton_append, List.head?_cons, Option.some_inj,
        Option.some_inj, ← beq_iff_eq, beq_toUInt8 h, ofUInt8_toUInt8 narrow, beq_iff_eq]
    · have far : 127 < d.val := UInt32.not_le.1 narrow
      obtain ⟨b, bs, bytes, -⟩ := utf8EncodeChar_wide far
      have far' : 127 < (Char.ofUInt8 b).val := wide_bytes far b (bytes ▸ List.mem_cons_self)
      rw [bytes, List.cons_append, List.head?_cons, Option.some_inj, Option.some_inj, ← beq_iff_eq,
        beq_toUInt8 h, beq_iff_eq]
      refine iff_of_false ?_ ?_ <;> rintro rfl
      · exact UInt32.not_le.2 far' h
      · exact narrow h

/-- Every line end is a byte. -/
theorem countP_encode (cs : List Char) :
    (encode cs).countP (fun b => Char.ofUInt8 b == '\n') = lineEnds cs := by
  induction cs with
  | nil => rfl
  | cons c cs ih =>
    rw [encode_cons, List.countP_append, ih, lineEnds, lineEnds, List.count_cons, Nat.add_comm]
    congr 1
    by_cases narrow : c.val ≤ 127
    · rw [utf8EncodeChar_narrow narrow, List.countP_singleton, ofUInt8_toUInt8 narrow]
    · have far : 127 < c.val := UInt32.not_le.1 narrow
      have apart : ∀ d : Char, 127 < d.val → (d == '\n') = false := by
        intro d far
        rw [beq_eq_false_iff_ne]
        rintro rfl
        exact absurd far (by decide)
      have none_inside : (String.utf8EncodeChar c).countP (Char.ofUInt8 · == '\n') = 0 :=
        List.countP_eq_zero.2 fun b inside => by simp [apart _ (wide_bytes far b inside)]
      rw [apart c far, none_inside]
      rfl

end ClassScript
