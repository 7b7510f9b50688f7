import ClassScript.Proofs.Token.Reader

set_option autoImplicit false

/-!
# The items of a source lie side by side

Every item takes up a stretch of whole characters.  Between two of them, and before the first, there
are blanks and comments only, and the closing token takes up nothing at the very end.  So with what
is skipped the items cover the source, and the lines that they carry can be counted in it.
-/

namespace ClassScript

/-- What is skipped between two items. -/
inductive Skipped : List Char → Prop where
  | nothing : Skipped []
  | more {skipped s : List Char} (before : Skipped skipped) (trivia : Trivia s) :
      Skipped (skipped ++ s)

/-- The line of a token or of a diagnostic. -/
def Item.line (item : Item) : Nat :=
  match item.found with
  | .ok t => t.line
  | .error d => d.line

/-- The item is where it says: there are whole characters between its ends, it is on the line where
they end, and a token has them as its lexeme. -/
structure Item.InPlace (source : String) (item : Item) : Prop where
  lexeme : ∃ text, slice? source item.start item.stop = some text ∧
    ∀ t, item.found = .ok t → t.lexeme = text
  line : ∃ upTo, slice? source 0 item.stop = some upTo ∧ item.line = 1 + lineEnds upTo.toList

/-- The items cover the source from a place on: what lies before each of them is skipped, and the
last one ends where the source ends. -/
def Covers (source : String) (place : Nat) : List Item → Prop
  | [] => place = source.utf8ByteSize
  | item :: items =>
    (∃ gap, slice? source place item.start = some gap ∧ Skipped gap.toList) ∧
      item.InPlace source ∧ Covers source item.stop items

/-! ## The item of a piece -/

section Pieces

variable {source : String} {piece : Piece} {item : Item} {start line : Nat}

theorem item?_eq_some (h : piece.item? start line = some item) :
    item.start = start ∧ item.stop = start + byteLength piece.chars ∧
      item.line = line + lineEnds piece.chars ∧
      ∀ t, item.found = .ok t → t.lexeme = String.ofList piece.chars ∧
        ∃ literal, piece.kind = .lexeme t.kind literal := by
  rw [Piece.item?] at h
  cases kind : piece.kind with
  | blank =>
    rw [kind] at h
    cases h
  | lexeme =>
    rw [kind] at h
    cases h
    refine ⟨rfl, rfl, rfl, fun t same => ?_⟩
    cases same
    exact ⟨rfl, _, rfl⟩
  | unexpected | unterminated =>
    rw [kind] at h
    cases h
    refine ⟨rfl, rfl, rfl, fun t same => ?_⟩
    cases same

theorem item?_eq_none : piece.item? start line = none ↔ piece.kind = .blank := by
  rw [Piece.item?]
  cases piece.kind <;> simp

/-- The item of a piece of the source is in its place. -/
theorem inPlace_of_item? {before after : List Char}
    (split : source.toList = before ++ piece.chars ++ after)
    (h : piece.item? (byteLength before) (1 + lineEnds before) = some item) :
    item.InPlace source := by
  obtain ⟨start, stop, line, found⟩ := item?_eq_some h
  rw [← byteLength_append] at stop
  rw [Nat.add_assoc, ← lineEnds_append] at line
  constructor
  · refine ⟨String.ofList piece.chars, ?_, fun t same => (found t same).1⟩
    rw [start, stop]
    exact slice?_of_toList split
  · refine ⟨String.ofList (before ++ piece.chars), ?_, ?_⟩
    · rw [stop]
      have split' : source.toList = [] ++ (before ++ piece.chars) ++ after := split
      exact slice?_of_toList split'
    · rw [line, String.toList_ofList]

end Pieces

/-- The closing token is in its place at the end of the source. -/
theorem inPlace_closing (source : String) :
    Item.InPlace source ⟨byteLength source.toList, byteLength source.toList,
      .ok (.closing (1 + lineEnds source.toList))⟩ := by
  have nothing : source.toList = source.toList ++ [] ++ [] := by simp
  have everything : source.toList = [] ++ source.toList ++ [] := by simp
  constructor
  · refine ⟨"", ?_, fun t same => ?_⟩
    · have text := slice?_of_toList nothing
      rwa [List.append_nil] at text
    · cases same
      rfl
  · exact ⟨_, slice?_of_toList everything, by rw [String.toList_ofList]; rfl⟩

theorem slice?_skipped {source : String} {before gap rest : List Char} (skipped : Skipped gap)
    (split : source.toList = before ++ gap ++ rest) :
    ∃ text, slice? source (byteLength before) (byteLength (before ++ gap)) = some text ∧
      Skipped text.toList :=
  ⟨_, slice?_of_toList split, by rwa [String.toList_ofList]⟩

/-- What is located from some piece on covers the rest of the source. -/
theorem covers_locate {source : String} {before gap rest : List Char} (skipped : Skipped gap)
    (split : source.toList = before ++ gap ++ rest) :
    Covers source (byteLength before)
      (locate (byteLength (before ++ gap)) (1 + lineEnds (before ++ gap)) (pieces rest)) := by
  -- the gap grows as long as the pieces are trivia, and is empty again after an item
  fun_induction pieces rest generalizing before gap with
  | case1 =>
    have first := slice?_skipped skipped split
    rw [List.append_nil] at split
    rw [← split] at first ⊢
    refine ⟨first, inPlace_closing source, ?_⟩
    rw [Covers, ← utf8ByteSize_ofList, String.ofList_toList]
  | case2 c cs ih =>
    have first := slice?_skipped skipped split
    rw [← cut_append c cs, ← List.append_assoc] at split
    rw [locate_cons, ← byteLength_append, Nat.add_assoc, ← lineEnds_append]
    cases found : (cut c cs).1.item? (byteLength (before ++ gap)) (1 + lineEnds (before ++ gap)) with
    | none =>
      have trivia : Trivia (cut c cs).1.chars := trivia_of_cut (item?_eq_none.1 found)
      rw [List.append_assoc before] at split ⊢
      exact ih (skipped.more trivia) split
    | some item =>
      obtain ⟨start, stop, -⟩ := item?_eq_some found
      rw [← byteLength_append] at stop
      have split' : source.toList = before ++ gap ++ (cut c cs).1.chars ++ [] ++ (cut c cs).2 := by
        rwa [List.append_nil]
      have rest := ih .nothing split'
      rw [List.append_nil] at rest
      exact ⟨start ▸ first, inPlace_of_item? split found, stop ▸ rest⟩

/-! ## The end and the order -/

/-- The closing token comes last, and what comes before it takes up something. -/
theorem locate_closed (start line : Nat) (text : List Char) :
    ∃ items, locate start line (pieces text) = items ++
        [⟨start + byteLength text, start + byteLength text, .ok (.closing (line + lineEnds text))⟩] ∧
      ∀ item ∈ items, item.start < item.stop ∧
        ∀ t, item.found = .ok t → t.kind ≠ .endOfSource := by
  fun_induction pieces text generalizing start line with
  | case1 => exact ⟨[], rfl, List.forall_mem_nil _⟩
  | case2 c cs ih =>
    obtain ⟨items, rest, before⟩ := ih (start + byteLength (cut c cs).1.chars)
      (line + lineEnds (cut c cs).1.chars)
    refine ⟨((cut c cs).1.item? start line).toList ++ items, ?_, ?_⟩
    · have size : start + byteLength (cut c cs).1.chars + byteLength (cut c cs).2 =
          start + byteLength (c :: cs) := by
        rw [← cut_append c cs, byteLength_append, Nat.add_assoc]
      have lines : line + lineEnds (cut c cs).1.chars + lineEnds (cut c cs).2 =
          line + lineEnds (c :: cs) := by
        rw [← cut_append c cs, lineEnds_append, Nat.add_assoc]
      rw [locate_cons, rest, List.append_assoc, size, lines]
    · refine List.forall_mem_append.2 ⟨fun item inside => ?_, before⟩
      obtain ⟨first, last, -, found⟩ := item?_eq_some (Option.mem_toList.1 inside)
      refine ⟨?_, fun t same => ?_⟩
      · rw [first, last]
        exact Nat.lt_add_of_pos_right (byteLength_pos (cut_chars_ne_nil c cs))
      · obtain ⟨-, literal, kind⟩ := found t same
        exact (lexeme_of_cut kind).ne_endOfSource

theorem slice?_le {source text : String} {start stop : Nat}
    (h : slice? source start stop = some text) : start ≤ stop := by
  by_contra wrong
  rw [slice?, dif_neg fun valid => wrong valid.1] at h
  cases h

/-- What covers the source lies in order. -/
theorem Covers.ordered {source : String} {place : Nat} {items : List Item}
    (h : Covers source place items) :
    (∀ item ∈ items, place ≤ item.start) ∧ items.Pairwise fun a b => a.stop ≤ b.start := by
  induction items generalizing place with
  | nil => exact ⟨List.forall_mem_nil _, .nil⟩
  | cons item items ih =>
    obtain ⟨⟨gap, skipped, -⟩, ⟨⟨text, taken, -⟩, -⟩, rest⟩ := h
    obtain ⟨later, ordered⟩ := ih rest
    have le : place ≤ item.stop := Nat.le_trans (slice?_le skipped) (slice?_le taken)
    refine ⟨List.forall_mem_cons.2 ⟨slice?_le skipped, fun other inside => ?_⟩, .cons later ordered⟩
    exact Nat.le_trans le (later other inside)

/-- Scanning tiles the source: each item is where it says, on the line where it ends, and what is
skipped between the items is blanks and comments.  The closing token comes last and only there.
Reading in place never takes a byte or a text out of range; its calls yield these items in turn, and
after them nothing, however many calls there are. -/
theorem scan_tiles (source : String) :
    Covers source 0 (scan source) ∧
      ((scan source).Pairwise fun a b => a.stop ≤ b.start) ∧
      (∃ items, scan source = items ++ [⟨source.utf8ByteSize, source.utf8ByteSize,
          .ok (.closing (1 + lineEnds source.toList))⟩] ∧
        ∀ item ∈ items, item.start < item.stop ∧
          ∀ t, item.found = .ok t → t.kind ≠ .endOfSource) ∧
      ∀ n, Reader.nth source n .initial = some (scan source)[n]? := by
  have covers : Covers source 0 (scan source) := by
    have split : source.toList = [] ++ [] ++ source.toList := rfl
    exact covers_locate .nothing split
  have closed := locate_closed 0 1 source.toList
  rw [Nat.zero_add, ← utf8ByteSize_ofList, String.ofList_toList] at closed
  refine ⟨covers, covers.ordered.2, closed, fun n => ?_⟩
  have start : Reader.At source .initial [] source.toList := ⟨rfl, rfl⟩
  exact Reader.nth_eq start n

end ClassScript
