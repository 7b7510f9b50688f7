import ClassScript.Proofs.Token.Utf8

set_option autoImplicit false

/-!
# Reading in place finds the same

The reader is at a place of the source when as many bytes are read as the characters before it take.
From any place it gets where the cut leads, with the lexeme and the line of the cut
(`scanToken_eq_cut`), and no byte or text is taken out of range on the way.  So its calls yield the
items of the source one after another, and then nothing, however often they are repeated.
-/

namespace ClassScript

theorem lineEnds_append (cs ds : List Char) : lineEnds (cs ++ ds) = lineEnds cs + lineEnds ds :=
  List.count_append

theorem lineEnds_singleton {c : Char} (h : c ≠ '\n') : lineEnds [c] = 0 :=
  List.count_eq_zero.2 fun inside => h (List.mem_singleton.1 inside).symm

/-- A run of a class without line ends. -/
theorem lineEnds_takeWhile {q : Char → Bool} (h : q '\n' = false) (cs : List Char) :
    lineEnds (cs.takeWhile q) = 0 := by
  refine List.count_eq_zero.2 fun inside => ?_
  rw [List.mem_takeWhile_imp inside] at h
  cases h

/-! ## Classes within seven bits -/

/-- A class of characters of seven bits has no others. -/
theorem wide_of_narrow {q : Char → Bool} (narrow : ∀ c, q c = true → c.val ≤ 127) (c : Char)
    (wide : 127 < c.val) : q c = false := by
  by_contra inside
  exact UInt32.not_le.2 wide (narrow c (Bool.not_eq_false _ ▸ inside))

theorem narrow_of_isWordChar {c : Char} (h : isWordChar c = true) : c.val ≤ 127 := by
  simp only [isWordChar, Char.isAlphanum, Char.isAlpha, Char.isUpper, Char.isLower, Char.isDigit,
    Bool.or_eq_true, Bool.and_eq_true, decide_eq_true_eq, beq_iff_eq, UInt32.le_iff_toNat_le] at h ⊢
  have upper : 'Z'.val.toNat ≤ 127 := by decide
  have lower : 'z'.val.toNat ≤ 127 := by decide
  have digit : '9'.val.toNat ≤ 127 := by decide
  rcases h with ((h | h) | h) | rfl
  · exact le_trans h.2 upper
  · exact le_trans h.2 lower
  · exact le_trans h.2 digit
  · decide

theorem isWordChar_of_isDigit {c : Char} (h : c.isDigit = true) : isWordChar c = true := by
  simp [isWordChar, Char.isAlphanum, h]

theorem narrow_of_isDigit {c : Char} (h : c.isDigit = true) : c.val ≤ 127 :=
  narrow_of_isWordChar (isWordChar_of_isDigit h)

theorem narrow_of_isBlank {c : Char} (h : isBlank c = true) : c.val ≤ 127 := by
  simp only [isBlank, Bool.or_eq_true, beq_iff_eq] at h
  rcases h with ((rfl | rfl) | rfl) | rfl <;> decide

theorem narrow_of_punctuation {c : Char} {kind : TokenKind} (h : punctuation? c = some kind) :
    c.val ≤ 127 := by
  unfold punctuation? at h
  split at h <;> cases h <;> decide

theorem narrow_of_beforeEqual {c : Char} {operators : TokenKind × TokenKind}
    (h : beforeEqual? c = some operators) : c.val ≤ 127 := by
  unfold beforeEqual? at h
  split at h <;> cases h <;> decide

/-! ## Texts between places -/

theorem utf8ByteSize_ofList (cs : List Char) : (String.ofList cs).utf8ByteSize = byteLength cs := by
  have bytes := utf8Bytes_eq (String.ofList cs)
  rw [String.toList_ofList] at bytes
  rw [← length_encode, ← bytes]
  rfl

/-- Between two characters there is a place. -/
theorem isValid_byteLength {source : String} {before after : List Char}
    (split : source.toList = before ++ after) :
    String.Pos.Raw.IsValid source ⟨byteLength before⟩ := by
  refine String.Pos.Raw.isValid_iff_exists_append.2
    ⟨String.ofList before, String.ofList after, ?_, ?_⟩
  · rw [← String.toList_inj, String.toList_append, String.toList_ofList, String.toList_ofList, split]
  · rw [← utf8ByteSize_ofList]
    rfl

/-- The text between two places can be taken. -/
theorem slice?_of_toList {source : String} {before text after : List Char}
    (split : source.toList = before ++ text ++ after) :
    slice? source (byteLength before) (byteLength (before ++ text)) = some (String.ofList text) := by
  have split' : source.toList = before ++ (text ++ after) := split.trans (List.append_assoc ..)
  have le : byteLength before ≤ byteLength (before ++ text) := by
    rw [byteLength_append]
    exact Nat.le_add_right ..
  rw [slice?, dif_pos ⟨le, isValid_byteLength split', isValid_byteLength split⟩, Option.some_inj,
    ← String.toByteArray_inj, String.toByteArray_extract]
  apply ByteArray.ext
  apply Array.toList_inj.1
  have part : (String.ofList text).toByteArray.data.toList = encode text :=
    (utf8Bytes_eq (String.ofList text)).trans (by rw [String.toList_ofList])
  have whole : source.toByteArray.data.toList = encode before ++ (encode text ++ encode after) := by
    rw [← encode_append, ← encode_append, ← split']
    exact utf8Bytes_eq source
  rw [part, ByteArray.data_extract, Array.toList_extract, whole]
  simp only [List.extract, String.offset_pos, byteLength_append, Nat.add_sub_cancel_left]
  rw [← length_encode, ← length_encode, List.drop_left, List.take_left]

namespace Reader

/-! ## Moves over bytes -/

section Bytes

variable {bytes bs : List UInt8} {b : UInt8} {c : Reader}

theorem drop_succ (h : bytes.drop c.curr = b :: bs) : bytes.drop (c.curr + 1) = bs := by
  rw [← List.drop_drop, h]
  rfl

theorem peek_eq (h : bytes.drop c.curr = bs) : c.peek bytes = bs.headD 0 := by
  rw [peek, ← h, List.getD_eq_getElem?_getD, List.headD_eq_head?_getD, List.head?_drop]

theorem peekNext_eq (h : bytes.drop c.curr = b :: bs) : c.peekNext bytes = bs.headD 0 := by
  rw [peekNext, ← drop_succ h, List.getD_eq_getElem?_getD, List.headD_eq_head?_getD, List.head?_drop]

theorem advance_eq (h : bytes.drop c.curr = b :: bs) :
    c.advance bytes = some (b, { c with curr := c.curr + 1 }) := by
  rw [advance, ← List.head?_drop, h]
  rfl

theorem lt_length_iff (h : bytes.drop c.curr = bs) : c.curr < bytes.length ↔ bs ≠ [] := by
  rw [← h, ne_eq, List.drop_eq_nil_iff, Nat.not_le]

theorem match?_of_eq (h : bytes.drop c.curr = b :: bs) :
    c.match? bytes b = some (true, { c with curr := c.curr + 1 }) := by
  have inside : c.curr < bytes.length := (lt_length_iff h).2 (List.cons_ne_nil b bs)
  rw [match?, peek_eq h, advance_eq h]
  simp [inside]

theorem match?_of_ne {expected : UInt8} (h : bytes.drop c.curr = bs)
    (other : bs.head? ≠ some expected) : c.match? bytes expected = some (false, c) := by
  rw [match?, if_neg]
  rw [Bool.and_eq_true, decide_eq_true_iff, lt_length_iff h, peek_eq h, beq_iff_eq]
  rintro ⟨nonempty, same⟩
  obtain ⟨b, bs, rfl⟩ := List.exists_cons_of_ne_nil nonempty
  exact other (congrArg some same)

theorem advanceWhile_of_advance {p : UInt8 → Bool} {d : Reader} (more : p (c.peek bytes) = true)
    (read : c.advance bytes = some (b, d)) : c.advanceWhile bytes p = d.advanceWhile bytes p := by
  rw [advanceWhile, if_pos more]
  split
  · rename_i read'
    cases read.symm.trans read'
    rfl
  · rename_i none
    cases read.symm.trans none

theorem advanceText_of_advance {d : Reader}
    (more : (c.curr < bytes.length && c.peek bytes != '"'.toUInt8) = true)
    (read : c.advance bytes = some (b, d)) :
    c.advanceText bytes =
      (if b == '\n'.toUInt8 then { d with line := d.line + 1 } else d).advanceText bytes := by
  rw [advanceText, if_pos more]
  split
  · rename_i read'
    cases read.symm.trans read'
    rfl
  · rename_i none
    cases read.symm.trans none

/-- A loop over bytes of some kind stops after the run of them. -/
theorem advanceWhile_eq {p : UInt8 → Bool} (zero : p 0 = false) (h : bytes.drop c.curr = bs) :
    c.advanceWhile bytes p = some { c with curr := c.curr + (bs.takeWhile p).length } := by
  induction bs generalizing c with
  | nil =>
    rw [advanceWhile, peek_eq h, List.headD_nil, zero]
    rfl
  | cons b bs ih =>
    have head : c.peek bytes = b := peek_eq h
    rw [List.takeWhile_cons]
    split
    · rename_i more
      have later := ih (c := { c with curr := c.curr + 1 }) (drop_succ h)
      rw [advanceWhile_of_advance (head ▸ more) (advance_eq h), later]
      simp only [List.length_cons, Nat.add_assoc, Nat.add_comm 1]
    · rename_i other
      rw [advanceWhile, head, if_neg other]
      rfl

/-- The loop over a text stops before a quote or at the end, and has counted its lines. -/
theorem advanceText_eq (h : bytes.drop c.curr = bs) :
    c.advanceText bytes = some
      { c with
        curr := c.curr + (bs.takeWhile fun b => Char.ofUInt8 b != '"').length
        line := c.line + (bs.takeWhile fun b => Char.ofUInt8 b != '"').countP
          fun b => Char.ofUInt8 b == '\n' } := by
  induction bs generalizing c with
  | nil =>
    rw [advanceText, if_neg]
    · rfl
    · simp [lt_length_iff h]
  | cons b bs ih =>
    have inside : c.curr < bytes.length := (lt_length_iff h).2 (List.cons_ne_nil b bs)
    have head : (c.peek bytes != '"'.toUInt8) = (Char.ofUInt8 b != '"') := by
      rw [peek_eq h, List.headD_cons, bne, beq_toUInt8 (by decide)]
      rfl
    rw [List.takeWhile_cons]
    by_cases quote : Char.ofUInt8 b = '"'
    · rw [advanceText, head]
      simp [quote]
    · have more : (Char.ofUInt8 b != '"') = true := bne_iff_ne.2 quote
      rw [advanceText_of_advance (by simp [head, inside, quote]) (advance_eq h), if_pos more,
        List.length_cons, List.countP_cons, beq_toUInt8 (by decide)]
      split
      · have later := ih (c := { c with curr := c.curr + 1, line := c.line + 1 }) (drop_succ h)
        simp only [later, Nat.add_assoc, Nat.add_comm 1]
      · have later := ih (c := { c with curr := c.curr + 1 }) (drop_succ h)
        simp only [later, Nat.add_assoc, Nat.add_comm 1, Nat.add_zero]

/-- The end of the line is found where the loop over its bytes would stop. -/
theorem advanceLine_eq (le : c.curr ≤ bytes.length) (h : bytes.drop c.curr = bs) :
    c.advanceLine bytes = some
      { c with curr := c.curr + (bs.takeWhile fun b => Char.ofUInt8 b != '\n').length } := by
  have run : (bs.takeWhile fun b => Char.ofUInt8 b != '\n').length =
      bs.findIdx (· == '\n'.toUInt8) := by
    rw [List.takeWhile_eq_take_findIdx_not, List.length_take, Nat.min_eq_left List.findIdx_le_length]
    simp only [bne, Bool.not_not, ← beq_toUInt8 (c := '\n') (by decide)]
  have size : c.curr + bs.length = bytes.length := by
    rw [← h, List.length_drop]
    omega
  rw [advanceLine, if_pos le, h, run]
  split
  · rename_i n found
    rw [(List.findIdx?_eq_some_iff_findIdx_eq.1 found).2]
  · rename_i none
    rw [List.findIdx_eq_length.2 (List.findIdx?_eq_none_iff.1 none), size]

end Bytes

/-! ## Moves over characters -/

/-- The reader after some text. -/
def past (c : Reader) (text : List Char) : Reader :=
  { c with curr := c.curr + byteLength text, line := c.line + lineEnds text }

@[simp] theorem past_start (c : Reader) (text : List Char) : (c.past text).start = c.start := rfl

theorem past_append (c : Reader) (s t : List Char) : c.past (s ++ t) = (c.past s).past t := by
  simp only [past, byteLength_append, lineEnds_append, Nat.add_assoc]

/-- The reader is between two parts of the source. -/
structure At (source : String) (c : Reader) (before rest : List Char) : Prop where
  split : source.toList = before ++ rest
  curr : c.curr = byteLength before

section Characters

variable {source : String} {c : Reader} {before rest : List Char}

theorem At.past (text : List Char) (h : At source c before (text ++ rest)) :
    At source (c.past text) (before ++ text) rest where
  split := by rw [h.split, List.append_assoc]
  curr := by rw [byteLength_append, ← h.curr]; rfl

theorem At.drop (h : At source c before rest) :
    (utf8Bytes source).drop c.curr = encode rest := by
  rw [utf8Bytes_eq, h.split, encode_append, h.curr, ← length_encode, List.drop_left]

theorem At.drop_narrow {ch : Char} (h : At source c before (ch :: rest)) (narrow : ch.val ≤ 127) :
    (utf8Bytes source).drop c.curr = ch.toUInt8 :: encode rest := by
  rw [h.drop, encode_cons, utf8EncodeChar_narrow narrow, List.singleton_append]

theorem At.length (h : At source c before rest) :
    (utf8Bytes source).length = c.curr + byteLength rest := by
  rw [utf8Bytes_eq, h.split, length_encode, byteLength_append, h.curr]

/-- The lexeme is the text since the start. -/
theorem At.slice (text : List Char) (h : At source c before (text ++ rest))
    (start : c.start = c.curr) :
    slice? source (c.past text).start (c.past text).curr = some (String.ofList text) := by
  rw [past_start, start, (h.past text).curr, h.curr]
  exact slice?_of_toList (h.past text).split

theorem past_singleton {ch : Char} (narrow : ch.val ≤ 127) (line : ch ≠ '\n') :
    c.past [ch] = { c with curr := c.curr + 1 } := by
  rw [past, byteLength_singleton, Char.utf8Size_eq_one_iff.2 narrow, lineEnds_singleton line]
  rfl

/-- A loop over a class of characters takes the run of them. -/
theorem At.advanceWhile {q : Char → Bool} {p : UInt8 → Bool} (h : At source c before rest)
    (bytes : p = fun b => q (Char.ofUInt8 b)) (narrow : ∀ ch, q ch = true → ch.val ≤ 127)
    (zero : q '\x00' = false) (line : q '\n' = false) :
    c.advanceWhile (utf8Bytes source) p = some (c.past (rest.takeWhile q)) := by
  subst bytes
  rw [advanceWhile_eq zero h.drop, takeWhile_encode (wide_of_narrow narrow), length_encode,
    Reader.past, lineEnds_takeWhile line]
  rfl

theorem At.advanceText (h : At source c before rest) :
    c.advanceText (utf8Bytes source) = some (c.past (rest.takeWhile (· != '"'))) := by
  have others : ∀ ch : Char, 127 < ch.val → (ch != '"') = true := by
    intro ch wide
    rw [bne_iff_ne]
    rintro rfl
    exact absurd wide (by decide)
  rw [advanceText_eq h.drop, takeWhile_encode others, length_encode, countP_encode]
  rfl

theorem At.advanceLine (h : At source c before rest) :
    c.advanceLine (utf8Bytes source) = some (c.past (rest.takeWhile (· != '\n'))) := by
  have others : ∀ ch : Char, 127 < ch.val → (ch != '\n') = true := by
    intro ch wide
    rw [bne_iff_ne]
    rintro rfl
    exact absurd wide (by decide)
  have le : c.curr ≤ (utf8Bytes source).length := by
    rw [h.length]
    exact Nat.le_add_right ..
  rw [advanceLine_eq le h.drop, takeWhile_encode others, length_encode, Reader.past,
    lineEnds_takeWhile rfl]
  rfl

/-- Reading a byte that is a character. -/
theorem At.advance {ch : Char} (h : At source c before (ch :: rest)) (narrow : ch.val ≤ 127)
    (line : ch ≠ '\n') : c.advance (utf8Bytes source) = some (ch.toUInt8, c.past [ch]) := by
  rw [past_singleton narrow line]
  exact advance_eq (h.drop_narrow narrow)

/-- An expected character is read. -/
theorem At.match?_of_eq {ch : Char} (h : At source c before (ch :: rest)) (narrow : ch.val ≤ 127)
    (line : ch ≠ '\n') : c.match? (utf8Bytes source) ch.toUInt8 = some (true, c.past [ch]) := by
  rw [past_singleton narrow line]
  exact Reader.match?_of_eq (h.drop_narrow narrow)

/-- No other character is read for it. -/
theorem At.match?_of_ne {ch : Char} (h : At source c before rest) (narrow : ch.val ≤ 127)
    (other : rest.head? ≠ some ch) : c.match? (utf8Bytes source) ch.toUInt8 = some (false, c) :=
  Reader.match?_of_ne h.drop fun same => other ((head?_encode narrow rest).1 same)

end Characters

/-! ## Each lexeme -/

end Reader

/-- What reading makes of a piece that ends on some line. -/
def PieceKind.found (line : Nat) : PieceKind → Reader.Found
  | .blank => .ok none
  | .lexeme kind literal => .ok (some (kind, literal))
  | .unexpected c => .error (.lexical line (.unexpectedCharacter c))
  | .unterminated => .error (.lexical line .unterminatedString)

namespace Reader

/-- What is found in place of a cut, and where the reader is then. -/
def found (c : Reader) (cut : Cut) : Found × Reader :=
  (cut.1.kind.found (c.past cut.1.chars).line, c.past cut.1.chars)

section Lexemes

variable {source : String} {c : Reader} {before cs : List Char}

/-- A string is read up to its closing quote, or up to the end. -/
theorem string_eq (h : At source c before ('"' :: cs)) (start : c.start = c.curr) :
    (c.past ['"']).string source = some (c.found (cutString cs)) := by
  have opened : At source (c.past ['"']) (before ++ ['"']) cs := h.past ['"']
  rw [← List.takeWhile_append_dropWhile (p := (· != '"')) (l := cs)] at opened
  have inside := opened.past _
  have body := (h.past ['"']).advanceText
  rw [← past_append, List.singleton_append] at body inside
  simp only [Reader.string, body, Option.bind_eq_bind, Option.bind_some, cutString]
  cases rest : cs.dropWhile (· != '"') with
  | nil =>
    rw [rest] at inside
    rw [if_pos (by rw [inside.length]; rfl)]
    rfl
  | cons quote rest' =>
    rw [rest] at inside
    obtain rfl : quote = '"' := by
      have head := List.head?_dropWhile_not (· != '"') cs
      simp only [rest, List.head?_cons, bne_eq_false_iff_eq] at head
      exact head
    have more : ¬(utf8Bytes source).length ≤ (c.past ('"' :: cs.takeWhile (· != '"'))).curr := by
      rw [inside.length, byteLength]
      have := Char.utf8Size_pos '"'
      omega
    have contents : slice? source (c.start + 1)
        ((c.past ('"' :: cs.takeWhile (· != '"') ++ ['"'])).curr - 1) =
          some (String.ofList (cs.takeWhile (· != '"'))) := by
      have split := inside.split
      have first : c.start + 1 = byteLength (before ++ ['"']) := by
        rw [start, h.curr, byteLength_append]
        rfl
      have last : (c.past ('"' :: cs.takeWhile (· != '"') ++ ['"'])).curr - 1 =
          byteLength (before ++ ['"'] ++ cs.takeWhile (· != '"')) := by
        rw [past_append, ← inside.curr]
        rfl
      rw [first, last]
      apply slice?_of_toList
      rw [split, List.append_assoc before, List.singleton_append]
    rw [if_neg more, inside.advance (by decide) (by decide), ← past_append]
    simp only [Option.bind_some, past_start, contents]
    rfl

/-- The value of a number is that of its digits before and after the point. -/
theorem numberValue_integer {digits : List Char} (digit : ∀ d ∈ digits, d.isDigit) :
    numberValue (String.ofList digits) = decimalValue digits [] := by
  rw [numberValue, String.toList_ofList, List.takeWhile_eq_self_iff.2 digit,
    List.dropWhile_eq_nil_iff.2 digit, List.drop_nil]

theorem numberValue_decimal {whole part : List Char} (digit : ∀ d ∈ whole, d.isDigit) :
    numberValue (String.ofList (whole ++ '.' :: part)) = decimalValue whole part := by
  rw [numberValue, String.toList_ofList, List.takeWhile_append_of_pos digit,
    List.dropWhile_append_of_pos digit]
  simp [Char.isDigit]

/-- The two bytes that are looked at are a point and a digit. -/
theorem point_iff {rest : List Char} (h : At source c before rest) :
    (c.peek (utf8Bytes source) == '.'.toUInt8 && isDigitByte (c.peekNext (utf8Bytes source))) = true ↔
      ∃ d tail, rest = '.' :: d :: tail ∧ d.isDigit = true := by
  have dot : (c.peek (utf8Bytes source) == '.'.toUInt8) = true ↔ rest.head? = some '.' := by
    rw [peek_eq h.drop, ← head?_encode (by decide)]
    cases encode rest with
    | nil => decide
    | cons b bs => simp
  rw [Bool.and_eq_true, dot]
  cases rest with
  | nil => simp
  | cons x tail =>
    have next : x = '.' →
        isDigitByte (c.peekNext (utf8Bytes source)) = tail.head?.any Char.isDigit := by
      rintro rfl
      rw [peekNext_eq (b := '.'.toUInt8) h.drop]
      exact headD_encode (wide_of_narrow fun _ => narrow_of_isDigit) rfl tail
    constructor
    · rintro ⟨same, digit⟩
      obtain rfl : x = '.' := Option.some.inj same
      rw [next rfl] at digit
      cases tail with
      | nil => cases digit
      | cons d tail => exact ⟨d, tail, rfl, digit⟩
    · rintro ⟨d, tail', same, digit⟩
      obtain ⟨rfl, rfl⟩ := List.cons.inj same
      exact ⟨rfl, (next rfl).trans digit⟩

/-- A number is read with its point if a digit follows. -/
theorem number_eq {d : Char} (h : At source c before (d :: cs)) (start : c.start = c.curr)
    (digit : d.isDigit) : (c.past [d]).number source = some (c.found (cutNumber (d :: cs))) := by
  have run : (d :: cs).takeWhile Char.isDigit = d :: cs.takeWhile Char.isDigit := by
    rw [List.takeWhile_cons, if_pos digit]
  have moved := (h.past [d]).advanceWhile (p := isDigitByte) rfl
    (fun _ => narrow_of_isDigit) rfl rfl
  rw [← past_append, List.singleton_append, ← run] at moved
  have all : ∀ x ∈ (d :: cs).takeWhile Char.isDigit, x.isDigit = true := fun x =>
    List.mem_takeWhile_imp
  have whole : At source c before
      ((d :: cs).takeWhile Char.isDigit ++ (d :: cs).dropWhile Char.isDigit) := by
    rwa [List.takeWhile_append_dropWhile]
  simp only [Reader.number, moved, Option.bind_eq_bind, Option.bind_some, cutNumber]
  generalize (d :: cs).takeWhile Char.isDigit = digits at all whole
  generalize (d :: cs).dropWhile Char.isDigit = rest at whole
  by_cases pointed : ∃ e tail, rest = '.' :: e :: tail ∧ e.isDigit = true
  · rw [if_pos ((point_iff (whole.past digits)).2 pointed)]
    obtain ⟨e, tail, rfl, digit'⟩ := pointed
    have behind := (whole.past digits).past ['.']
    have moved := behind.advanceWhile (p := isDigitByte) rfl (fun _ => narrow_of_isDigit) rfl rfl
    rw [(whole.past digits).advance (by decide) (by decide)]
    simp only [Option.bind_some, moved]
    have decimal : At source c before
        (digits ++ '.' :: (e :: tail).takeWhile Char.isDigit ++
          (e :: tail).dropWhile Char.isDigit) := by
      rw [List.append_assoc, List.cons_append, List.takeWhile_append_dropWhile]
      exact whole
    rw [← past_append, ← past_append, List.singleton_append, decimal.slice _ start, if_pos digit']
    simp only [Option.bind_some, numberValue_decimal all]
    rfl
  · rw [if_neg fun point => pointed ((point_iff (whole.past digits)).1 point), whole.slice _ start]
    simp only [Option.bind_some, numberValue_integer all]
    split
    · rename_i e tail
      rw [if_neg fun digit' => pointed ⟨e, tail, rfl, digit'⟩]
      rfl
    · rfl

/-- A word is read to its end. -/
theorem word_eq {ch : Char} (h : At source c before (ch :: cs)) (start : c.start = c.curr)
    (letter : isWordStart ch) : (c.past [ch]).word source = some (c.found (cutWord (ch :: cs))) := by
  have all : isWordChar ch = true := isWordChar_of_isWordStart letter
  have run : (ch :: cs).takeWhile isWordChar = ch :: cs.takeWhile isWordChar := by
    rw [List.takeWhile_cons, if_pos all]
  have moved := (h.past [ch]).advanceWhile (p := isWordByte) rfl
    (fun _ => narrow_of_isWordChar) rfl rfl
  rw [← past_append, List.singleton_append, ← run] at moved
  have whole :
      At source c before ((ch :: cs).takeWhile isWordChar ++ (ch :: cs).dropWhile isWordChar) := by
    rwa [List.takeWhile_append_dropWhile]
  simp only [Reader.word, moved, Option.bind_eq_bind, Option.bind_some, whole.slice _ start]
  rfl

/-- A comment is passed over up to the end of the line. -/
theorem comment_eq (h : At source c before ('/' :: '/' :: cs)) :
    ((c.past ['/']).past ['/']).advanceLine (utf8Bytes source) =
      some (c.past (cutComment cs).1.chars) := by
  have opened := (h.past ['/']).past ['/']
  rw [opened.advanceLine, ← past_append, ← past_append]
  rfl

/-- A character that starts nothing is read as a whole. -/
theorem unexpected_eq {ch : Char} (h : At source c before (ch :: cs)) (start : c.start = c.curr)
    (line : ch ≠ '\n') : ({ c with curr := c.curr + 1 } : Reader).unexpected source =
      some (c.found (⟨.unexpected ch, [ch]⟩, cs)) := by
  have text := h.slice [ch] start
  obtain ⟨b, bs, bytes, first, others⟩ := utf8EncodeChar_cons ch
  have drop : (utf8Bytes source).drop (c.curr + 1) = bs ++ encode cs := by
    apply drop_succ (b := b)
    rw [h.drop, encode_cons, bytes, List.cons_append]
  have run : (bs ++ encode cs).takeWhile isContinuation = bs := by
    rw [List.takeWhile_append_of_pos others, takeWhile_isContinuation, List.append_nil]
  have moved : ({ c with curr := c.curr + 1 } : Reader).advanceWhile (utf8Bytes source)
      isContinuation = some (c.past [ch]) := by
    rw [advanceWhile_eq rfl drop, run, Reader.past, lineEnds_singleton line, byteLength_singleton,
      ← String.length_utf8EncodeChar, bytes, List.length_cons, Nat.add_assoc, Nat.add_comm 1]
    rfl
  simp only [Reader.unexpected, moved, Option.bind_eq_bind, Option.bind_some, text,
    String.toList_ofList]
  rfl

end Lexemes

/-! ## One step -/

/-- What starts nothing: no blank, no comment and no lexeme. -/
structure Startless (ch : Char) : Prop where
  punctuation : punctuation? ch = none
  operator : beforeEqual? ch = none
  line : ch ≠ '\n'
  blank : isBlank ch = false
  slash : ch ≠ '/'
  quote : ch ≠ '"'
  digit : ch.isDigit = false
  word : isWordStart ch = false

/-- Nothing starts with a character beyond seven bits. -/
theorem Startless.of_wide {ch : Char} (wide : 127 < ch.val) : Startless ch where
  punctuation := Option.eq_none_iff_forall_not_mem.2 fun _ found =>
    UInt32.not_le.2 wide (narrow_of_punctuation found)
  operator := Option.eq_none_iff_forall_not_mem.2 fun _ found =>
    UInt32.not_le.2 wide (narrow_of_beforeEqual found)
  line := by rintro rfl; exact absurd wide (by decide)
  blank := wide_of_narrow (fun _ => narrow_of_isBlank) ch wide
  slash := by rintro rfl; exact absurd wide (by decide)
  quote := by rintro rfl; exact absurd wide (by decide)
  digit := wide_of_narrow (fun _ => narrow_of_isDigit) ch wide
  word := wide_of_narrow
    (fun _ start => narrow_of_isWordChar (isWordChar_of_isWordStart start)) ch wide

theorem Startless.cut {ch : Char} (h : Startless ch) (cs : List Char) :
    cut ch cs = (⟨.unexpected ch, [ch]⟩, cs) := by
  simp [ClassScript.cut, h.punctuation, h.operator, h.blank, h.slash, h.quote, h.digit, h.word]

/-- What starts nothing is left to be read as a whole character. -/
theorem Startless.startedBy {ch : Char} (h : Startless ch) (source : String) (c : Reader) :
    c.startedBy source ch = c.unexpected source := by
  simp only [Reader.startedBy, h.punctuation, h.operator, h.line, h.blank, h.slash, h.quote, h.digit,
    h.word, if_false, Bool.false_eq_true]

section Steps

variable {source : String} {c : Reader} {before cs : List Char} {ch : Char}

/-- An operator is read with the equals sign after it. -/
theorem operator_eq {short long : TokenKind} (h : At source c before (ch :: cs))
    (punctuation : punctuation? ch = none) (operator : beforeEqual? ch = some (short, long)) :
    (c.past [ch]).startedBy source ch = some (c.found (cut ch cs)) := by
  have behind : At source (c.past [ch]) (before ++ [ch]) cs := h.past [ch]
  simp only [Reader.startedBy, punctuation, operator]
  by_cases equals : cs.head? = some '='
  · obtain ⟨rest, rfl⟩ := List.head?_eq_some_iff.1 equals
    rw [behind.match?_of_eq (by decide) (by decide), (cut_of_operator operator).1 rest, ← past_append]
    rfl
  · have alone : ∀ rest, cs ≠ '=' :: rest := fun rest same =>
      equals (List.head?_eq_some_iff.2 ⟨rest, same⟩)
    rw [behind.match?_of_ne (by decide) equals, (cut_of_operator operator).2 cs alone]
    rfl

/-- Two slashes start a comment, and one is a lexeme. -/
theorem slash_eq (h : At source c before ('/' :: cs)) :
    (c.past ['/']).startedBy source '/' = some (c.found (cut '/' cs)) := by
  have behind : At source (c.past ['/']) (before ++ ['/']) cs := h.past ['/']
  have started : (c.past ['/']).startedBy source '/' =
      ((c.past ['/']).match? (utf8Bytes source) '/'.toUInt8).bind fun r =>
        if r.1 then (r.2.advanceLine (utf8Bytes source)).bind fun c => some (.ok none, c)
        else some (.ok (some (.slash, none)), r.2) := rfl
  rw [started]
  by_cases comment : cs.head? = some '/'
  · obtain ⟨rest, rfl⟩ := List.head?_eq_some_iff.1 comment
    rw [behind.match?_of_eq (by decide) (by decide), Option.bind_some, if_pos rfl, comment_eq h]
    rfl
  · have alone : ∀ rest, cs ≠ '/' :: rest := fun rest same =>
      comment (List.head?_eq_some_iff.2 ⟨rest, same⟩)
    rw [behind.match?_of_ne (by decide) comment, cut_slash_alone alone]
    rfl

/-- What a character of seven bits starts is read as it is cut. -/
theorem startedBy_eq (h : At source c before (ch :: cs)) (start : c.start = c.curr)
    (narrow : ch.val ≤ 127) (line : ch ≠ '\n') :
    (c.past [ch]).startedBy source ch = some (c.found (cut ch cs)) := by
  by_cases startless : Startless ch
  · rw [startless.startedBy, startless.cut, past_singleton narrow line, unexpected_eq h start line]
  rcases punctuation : punctuation? ch with _ | kind
  swap
  · rw [cut_of_punctuation punctuation]
    simp only [startedBy, punctuation]
    rfl
  rcases operator : beforeEqual? ch with _ | ⟨short, long⟩
  swap
  · exact operator_eq h punctuation operator
  by_cases blank : isBlank ch = true
  · simp only [startedBy, punctuation, operator, line, blank, if_false, if_true, cut]
    rfl
  by_cases slash : ch = '/'
  · subst slash
    exact slash_eq h
  by_cases quote : ch = '"'
  · subst quote
    exact string_eq h start
  by_cases digit : ch.isDigit = true
  · rw [cut_of_isDigit digit, ← number_eq h start digit]
    simp only [startedBy, punctuation, operator, line, blank, slash, quote, digit, if_false, if_true,
      Bool.false_eq_true]
  have word : isWordStart ch = true := by
    by_contra word
    exact startless ⟨punctuation, operator, line, Bool.eq_false_iff.2 blank, slash, quote,
      Bool.eq_false_iff.2 digit, Bool.eq_false_iff.2 word⟩
  rw [cut_of_isWordStart word, ← word_eq h start word]
  simp only [startedBy, punctuation, operator, line, blank, slash, quote, digit, word, if_false,
    if_true, Bool.false_eq_true]

/-- One step of reading is one cut. -/
theorem scanToken_eq_cut (h : At source c before (ch :: cs)) (start : c.start = c.curr) :
    c.scanToken source = some (c.found (cut ch cs)) := by
  obtain ⟨b, bs, bytes, -⟩ := utf8EncodeChar_cons ch
  have byte : c.advance (utf8Bytes source) = some (b, { c with curr := c.curr + 1 }) := by
    have drop : (utf8Bytes source).drop c.curr = b :: (bs ++ encode cs) := by
      rw [h.drop, encode_cons, bytes, List.cons_append]
    exact advance_eq drop
  have started : c.scanToken source =
      ({ c with curr := c.curr + 1 } : Reader).startedBy source (Char.ofUInt8 b) := by
    rw [scanToken, byte]
    rfl
  rw [started]
  by_cases narrow : ch.val ≤ 127
  · have single := utf8EncodeChar_narrow narrow
    rw [bytes] at single
    obtain ⟨rfl, -⟩ := List.cons.inj single
    rw [ofUInt8_toUInt8 narrow]
    by_cases line : ch = '\n'
    · subst line
      rfl
    · rw [← past_singleton narrow line, startedBy_eq h start narrow line]
  · have wide : 127 < ch.val := UInt32.not_le.1 narrow
    have wide' : 127 < (Char.ofUInt8 b).val := wide_bytes wide b (bytes ▸ List.mem_cons_self)
    have startless : Startless ch := .of_wide wide
    rw [(Startless.of_wide wide').startedBy, startless.cut, unexpected_eq h start startless.line]

end Steps

/-! ## All items -/

end Reader

/-- The item of a piece at a place.  Trivia has none. -/
def Piece.item? (piece : Piece) (start line : Nat) : Option Item :=
  let stop := start + byteLength piece.chars
  let endLine := line + lineEnds piece.chars
  match piece.kind with
  | .blank => none
  | .lexeme kind literal =>
    some ⟨start, stop, .ok ⟨kind, String.ofList piece.chars, literal, endLine⟩⟩
  | .unexpected c => some ⟨start, stop, .error (.lexical endLine (.unexpectedCharacter c))⟩
  | .unterminated => some ⟨start, stop, .error (.lexical endLine .unterminatedString)⟩

theorem locate_cons (start line : Nat) (piece : Piece) (rest : List Piece) :
    locate start line (piece :: rest) = (piece.item? start line).toList ++
      locate (start + byteLength piece.chars) (line + lineEnds piece.chars) rest := by
  rw [locate, Piece.item?]
  cases piece.kind <;> rfl

namespace Reader

/-- The item of a step is that of the piece. -/
theorem item?_eq {source : String} {c : Reader} {before rest : List Char} {piece : Piece}
    (h : At source c before (piece.chars ++ rest)) (start : c.start = c.curr) :
    (c.past piece.chars).item? source (piece.kind.found (c.past piece.chars).line) =
      some (piece.item? c.curr c.line) := by
  have lexeme := h.slice _ start
  rw [past_start, start] at lexeme
  rw [Piece.item?]
  cases piece.kind with
  | blank => rfl
  | lexeme kind literal =>
    simp only [PieceKind.found, Reader.item?, past_start, start, lexeme, Option.bind_eq_bind,
      Option.bind_some]
    rfl
  | unexpected | unterminated =>
    simp only [PieceKind.found, Reader.item?, start, past_start]
    rfl

variable {source : String} {c : Reader}

/-- Once the closing token is read there is nothing more. -/
theorem nth_past (n : Nat) (h : (utf8Bytes source).length < c.curr) : nth source n c = some none := by
  have ended : c.next source = some (none, c) := by
    rw [next, if_neg (Nat.not_le.2 h)]
  induction n with
  | zero =>
    rw [nth, ended]
    rfl
  | succ n ih =>
    rw [nth, ended]
    exact ih

/-- Two readers whose next calls agree yield the same. -/
theorem nth_congr {c c' : Reader} (same : c.next source = c'.next source) (n : Nat) :
    nth source n c = nth source n c' := by
  cases n <;> rw [nth, nth, same]

/-- An item is followed by what the next reader yields. -/
theorem nth_cons {c c' : Reader} {item : Item} (first : c.next source = some (some item, c'))
    (items : List Item) (more : ∀ n, nth source n c' = some items[n]?) (n : Nat) :
    nth source n c = some (item :: items)[n]? := by
  cases n with
  | zero =>
    rw [nth, first]
    rfl
  | succ n =>
    rw [nth, first]
    exact more n

theorem next_of_scanToken {found : Found} {d : Reader} (inside : c.curr < (utf8Bytes source).length)
    (read : ({ c with start := c.curr } : Reader).scanToken source = some (found, d)) :
    c.next source = (d.item? source found).bind fun
      | some item => some (some item, d)
      | none => d.next source := by
  rw [next, if_pos inside.le, if_neg inside.ne]
  split
  · rename_i read'
    cases read.symm.trans read'
    rfl
  · rename_i none
    cases read.symm.trans none

/-- Before the end, a call takes the step of the cut, and another one if that was trivia. -/
theorem next_eq {before cs : List Char} {ch : Char} (h : At source c before (ch :: cs)) :
    c.next source =
      match (cut ch cs).1.item? c.curr c.line with
      | some item => some (some item, { c with start := c.curr }.past (cut ch cs).1.chars)
      | none => ({ c with start := c.curr } : Reader).past (cut ch cs).1.chars |>.next source := by
  have le : c.curr < (utf8Bytes source).length := by
    rw [h.length, byteLength]
    have := ch.utf8Size_pos
    omega
  have opened : At source { c with start := c.curr } before (ch :: cs) := ⟨h.split, h.curr⟩
  have step := scanToken_eq_cut opened rfl
  rw [← cut_append ch cs] at opened
  have item := item?_eq opened rfl
  rw [next_of_scanToken le step]
  cases which : (cut ch cs).1.item? c.curr c.line <;>
    simp only [Option.bind_some, item, which]

/-- The calls from a place of the source yield the items of the pieces after it, in their order. -/
theorem nth_eq {before rest : List Char} (h : At source c before rest) (n : Nat) :
    nth source n c = some (locate c.curr c.line (pieces rest))[n]? := by
  fun_induction pieces rest generalizing c before n with
  | case1 =>
    have size : (utf8Bytes source).length = c.curr := h.length
    have closing : c.next source =
        some (some ⟨c.curr, c.curr, .ok (.closing c.line)⟩, { c with curr := c.curr + 1 }) := by
      rw [next, size, if_pos (Nat.le_refl _), if_pos rfl]
    refine nth_cons closing [] (fun n => nth_past n ?_) n
    rw [size]
    exact Nat.lt_succ_self _
  | case2 ch cs ih =>
    have first := next_eq h
    have after : At source (({ c with start := c.curr } : Reader).past (cut ch cs).1.chars)
        (before ++ (cut ch cs).1.chars) (cut ch cs).2 := by
      apply At.past
      rw [cut_append]
      exact ⟨h.split, h.curr⟩
    rw [locate_cons]
    cases found : (cut ch cs).1.item? c.curr c.line with
    | some item =>
      rw [found] at first
      exact nth_cons first _ (ih after) n
    | none =>
      rw [found] at first
      rw [nth_congr first]
      exact ih after n

end Reader

end ClassScript
