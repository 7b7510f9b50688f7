import ClassScript.Proofs.Token.Joining
import ClassScript.Proofs.Token.Tiling

set_option autoImplicit false

/-!
# The items of joined sources

Of all lexemes only a string goes on after a line end.  So what a source leaves unfinished at its
end, a comment, a number before its point, half an operator or a character at fault, is found as it
is whatever stands on the lines after it: the items of two sources, one on the lines after the other,
are the items of the first but for its closing token and then the items of the second, which have
only moved.  Nothing is asked of the sources but that the first closes its strings; either may have
other faults.
-/

namespace ClassScript

/-! ## Moving items -/

/-- The diagnostic some lines further down. -/
def Diagnostic.down (k : Nat) : Diagnostic → Diagnostic
  | .lexical line fault => .lexical (line + k) fault
  | .grammar token fault => .grammar (token.down k) fault
  | .binding token fault => .binding (token.down k) fault

/-- The item some bytes further on and some lines further down. -/
def Item.moved (bytes lines : Nat) (item : Item) : Item where
  start := item.start + bytes
  stop := item.stop + bytes
  found :=
    match item.found with
    | .ok token => .ok (token.down lines)
    | .error diagnostic => .error (diagnostic.down lines)

/-- A piece that is further on is the same item, moved. -/
theorem Piece.item?_moved (p : Piece) (start line bytes lines : Nat) :
    p.item? (start + bytes) (line + lines) = (p.item? start line).map (Item.moved bytes lines) := by
  have stop : start + bytes + byteLength p.chars = start + byteLength p.chars + bytes :=
    Nat.add_right_comm ..
  have endLine : line + lines + lineEnds p.chars = line + lineEnds p.chars + lines :=
    Nat.add_right_comm ..
  unfold Piece.item?
  rw [stop, endLine]
  cases p.kind <;> rfl

/-- Pieces that are further on are the same items, moved. -/
theorem locate_moved (start line bytes lines : Nat) (ps : List Piece) :
    locate (start + bytes) (line + lines) ps =
      (locate start line ps).map (Item.moved bytes lines) := by
  induction ps generalizing start line with
  | nil => rfl
  | cons p ps ih =>
    have first := p.item?_moved start line bytes lines
    have rest := ih (start + byteLength p.chars) (line + lineEnds p.chars)
    rw [locate_cons, locate_cons, List.map_append, ← rest, first, ← Option.toList_map,
      Nat.add_right_comm start, Nat.add_right_comm line]

/-! ## Items of some pieces and of more -/

/-- There is at least the closing token. -/
theorem locate_ne_nil (start line : Nat) (ps : List Piece) : locate start line ps ≠ [] := by
  induction ps generalizing start line with
  | nil => exact List.cons_ne_nil _ _
  | cons p ps ih =>
    rw [locate_cons]
    exact List.append_ne_nil_of_right_ne_nil _ (ih _ _)

/-- The items of more pieces come in the place of the closing token. -/
theorem locate_append (start line : Nat) (ps qs : List Piece) :
    locate start line (ps ++ qs) = (locate start line ps).dropLast ++
      locate (start + byteLength (ps.flatMap Piece.chars)) (line + lineEnds (ps.flatMap Piece.chars))
        qs := by
  induction ps generalizing start line with
  | nil => rfl
  | cons p ps ih =>
    rw [List.cons_append, locate_cons, ih, locate_cons, List.dropLast_append_of_ne_nil
      (locate_ne_nil _ _ _), List.flatMap_cons, byteLength_append, lineEnds_append,
      List.append_assoc, Nat.add_assoc, Nat.add_assoc]

/-- If no string is reported as open, no piece is an open string. -/
theorem closed_of_locate {start line : Nat} {ps : List Piece}
    (h : ∀ l, .lexical l .unterminatedString ∉ faultsOf (locate start line ps)) :
    ∀ p ∈ ps, p.kind ≠ .unterminated := by
  induction ps generalizing start line with
  | nil => exact List.forall_mem_nil _
  | cons p ps ih =>
    rw [locate_cons] at h
    have reported : faultsOf ((p.item? start line).toList ++
        locate (start + byteLength p.chars) (line + lineEnds p.chars) ps) =
        faultsOf (p.item? start line).toList ++
          faultsOf (locate (start + byteLength p.chars) (line + lineEnds p.chars) ps) :=
      List.filterMap_append
    rw [reported] at h
    have first : p.kind ≠ .unterminated := by
      intro openString
      apply h (line + lineEnds p.chars)
      simp [Piece.item?, openString, faultsOf]
    have rest := ih fun l inside => h l (List.mem_append_right _ inside)
    exact List.forall_mem_cons.2 ⟨first, rest⟩

/-- A line end is no item: what comes after it is one byte further on and one line further down. -/
theorem locate_lineEnd (start line : Nat) (ps : List Piece) :
    locate start line (lineEnd :: ps) = locate (start + 1) (line + 1) ps :=
  rfl

/-! ## Lines of tokens -/

theorem Piece.line_token? {p : Piece} {line : Nat} {t : Token} (h : p.token? line = some t) :
    t.line = line := by
  unfold Piece.token? at h
  split at h <;> cases h
  rfl

/-- The tokens of pieces lie on their lines. -/
theorem line_lexemes (line : Nat) (ps : List Piece) :
    ∀ t ∈ lexemes line ps, line ≤ t.line ∧ t.line ≤ lineAfter line ps := by
  induction ps generalizing line with
  | nil => exact List.forall_mem_nil _
  | cons p ps ih =>
    have onward : line ≤ line + lineEnds p.chars := Nat.le_add_right _ _
    rw [lexemes, lineAfter_cons, List.forall_mem_append]
    constructor
    · intro t ht
      rw [Piece.line_token? (Option.mem_toList.1 ht)]
      exact ⟨onward, Nat.le_add_right _ _⟩
    · intro t ht
      obtain ⟨after, within⟩ := ih _ t ht
      exact ⟨Nat.le_trans onward after, within⟩

/-- The tokens of a source lie on its lines, which are counted from one. -/
theorem line_bodyOf (source : String) :
    ∀ t ∈ bodyOf source, 1 ≤ t.line ∧ t.line ≤ linesOf source := by
  intro t ht
  obtain ⟨after, within⟩ := line_lexemes 1 _ t ht
  rw [lineAfter, flatten_pieces, Nat.add_comm] at within
  exact ⟨after, within⟩

/-! ## Sources -/

/-- If the first of two sources leaves no string open, joining them by a line end yields the items of
the first but for its closing token, which is on its last line, and then the items of the second,
as many lines further down as the first has lines and by its bytes and the line end further on.
Tokens and faults move alike. -/
theorem scan_joined (s t : String)
    (closed : ∀ line, .lexical line .unterminatedString ∉ faultsOf (scan s)) :
    ∃ items,
      scan s = items ++ [⟨s.utf8ByteSize, s.utf8ByteSize, .ok (.closing (linesOf s))⟩] ∧
      (∀ item ∈ items, ∀ token, item.found = .ok token → token.kind ≠ .endOfSource) ∧
      scan (joined s t) = items ++ (scan t).map (Item.moved (s.utf8ByteSize + 1) (linesOf s)) := by
  obtain ⟨-, -, ⟨items, whole, before⟩, -⟩ := scan_tiles s
  have lines : 1 + lineEnds s.toList = linesOf s := Nat.add_comm ..
  have bytes : byteLength s.toList = s.utf8ByteSize := by
    rw [← utf8ByteSize_ofList, String.ofList_toList]
  have cut : pieces (joined s t).toList = pieces s.toList ++ lineEnd :: pieces t.toList := by
    rw [toList_joined, pieces_before (closed_of_locate closed), pieces_lineEnd]
  have first : (locate 0 1 (pieces s.toList)).dropLast = items := by
    change (scan s).dropLast = items
    rw [whole, List.dropLast_concat]
  have second : locate (0 + byteLength s.toList + 1) (1 + lineEnds s.toList + 1) (pieces t.toList) =
      (scan t).map (Item.moved (s.utf8ByteSize + 1) (linesOf s)) := by
    rw [Nat.add_assoc, Nat.add_assoc, bytes, locate_moved]
    rfl
  refine ⟨items, ?_, fun item inside => (before item inside).2, ?_⟩
  · rw [whole, lines]
  · rw [scan, cut, locate_append, flatten_pieces, first, locate_lineEnd, second]

/-- A character at fault, half an operator and a number before its point, then a number that is not
part of them and a string that is left open. -/
theorem scan_joined_unfinished :
    faultsOf (scan "é =1.") = [.lexical 1 (.unexpectedCharacter 'é')] ∧
    ∃ items, scan "é =1." = items ++ [⟨6, 6, .ok (.closing 1)⟩] ∧
      scan (joined "é =1." "5 \"\n") = items ++ (scan "5 \"\n").map (Item.moved 7 1) := by
  have faults : faultsOf (scan "é =1.") = [.lexical 1 (.unexpectedCharacter 'é')] := by
    decide +kernel
  have closed : ∀ line, .lexical line .unterminatedString ∉ faultsOf (scan "é =1.") := by
    intro line inside
    rw [faults, List.mem_singleton] at inside
    cases inside
  obtain ⟨items, whole, -, both⟩ := scan_joined "é =1." "5 \"\n" closed
  exact ⟨faults, items, whole, both⟩

end ClassScript
