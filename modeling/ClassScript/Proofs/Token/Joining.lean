import ClassScript.Token.Scan
import Mathlib

set_option autoImplicit false

/-!
# Reading tokens from joined sources

A line end belongs to no lexeme but a string, so a source that leaves no string open is cut in the
same way whatever comes on the lines after it.  The tokens of two sources, one on the lines after the
other, are therefore those of the first and then those of the second, which are only further down.
-/

namespace ClassScript

/-! ## Cutting before a line end -/

section Separator

variable {α : Type} {p : α → Bool} {x : α}

/-- What is taken ends before an element that is not to be taken. -/
theorem takeWhile_append_stop (h : p x = false) (l r : List α) :
    (l ++ x :: r).takeWhile p = l.takeWhile p := by
  induction l with
  | nil => simp [h]
  | cons a l ih =>
    rw [List.cons_append, List.takeWhile_cons, List.takeWhile_cons, ih]

theorem dropWhile_append_stop (h : p x = false) (l r : List α) :
    (l ++ x :: r).dropWhile p = l.dropWhile p ++ x :: r := by
  rw [List.dropWhile_append, List.dropWhile_cons_of_neg (by simp [h])]
  split
  · rename_i nothing
    rw [List.isEmpty_iff.1 nothing]
    rfl
  · rfl

/-- What is taken ends within a list of which something is left. -/
theorem takeWhile_append_left {l rest : List α} {a : α} (h : l.dropWhile p = a :: rest)
    (r : List α) : (l ++ r).takeWhile p = l.takeWhile p := by
  induction l with
  | nil => cases h
  | cons b l ih =>
    rw [List.dropWhile_cons] at h
    rw [List.cons_append, List.takeWhile_cons, List.takeWhile_cons]
    split at h
    · rw [ih h]
    · rename_i stop
      rw [if_neg stop, if_neg stop]

theorem dropWhile_append_left {l rest : List α} {a : α} (h : l.dropWhile p = a :: rest)
    (r : List α) : (l ++ r).dropWhile p = l.dropWhile p ++ r := by
  rw [List.dropWhile_append, h]
  rfl

end Separator

/-- The cut with a line end and more after its rest. -/
def Cut.before (cut : Cut) (more : List Char) : Cut :=
  (cut.1, cut.2 ++ '\n' :: more)

theorem cutString_before {cs : List Char} (closed : (cutString cs).1.kind ≠ .unterminated)
    (more : List Char) : cutString (cs ++ '\n' :: more) = (cutString cs).before more := by
  cases found : cs.dropWhile (· != '"') with
  | nil => simp [cutString, found] at closed
  | cons quote rest =>
    simp [cutString, Cut.before, dropWhile_append_left found, takeWhile_append_left found, found]

theorem cutComment_before (cs more : List Char) :
    cutComment (cs ++ '\n' :: more) = (cutComment cs).before more := by
  have stop : (('\n' : Char) != '\n') = false := by decide
  simp only [cutComment, Cut.before, takeWhile_append_stop (p := (· != '\n')) stop,
    dropWhile_append_stop (p := (· != '\n')) stop]

theorem cutNumber_before (cs more : List Char) :
    cutNumber (cs ++ '\n' :: more) = (cutNumber cs).before more := by
  have stop : Char.isDigit '\n' = false := by decide
  simp only [cutNumber, takeWhile_append_stop stop, dropWhile_append_stop stop]
  cases found : cs.dropWhile Char.isDigit with
  | nil => rfl
  | cons d rest =>
    by_cases point : d = '.'
    · subst point
      cases rest with
      | nil => rfl
      | cons d tail =>
        simp only [List.cons_append]
        split
        · rename_i digit
          have within := takeWhile_append_stop stop (d :: tail) more
          have after := dropWhile_append_stop stop (d :: tail) more
          rw [List.cons_append] at within after
          rw [within, after]
          rfl
        · rfl
    · rw [List.cons_append]
      split
      · rename_i same
        exact absurd (List.cons.inj same).1 point
      · split
        · rename_i same
          exact absurd (List.cons.inj same).1 point
        · rfl

theorem cutWord_before (cs more : List Char) :
    cutWord (cs ++ '\n' :: more) = (cutWord cs).before more := by
  have stop : isWordChar '\n' = false := by decide
  simp only [cutWord, Cut.before, takeWhile_append_stop stop, dropWhile_append_stop stop]

/-- A line end and what follows it change nothing about the cut before, unless that is a string that
is still open. -/
theorem cut_before {c : Char} {cs : List Char} (closed : (cut c cs).1.kind ≠ .unterminated)
    (more : List Char) : cut c (cs ++ '\n' :: more) = (cut c cs).before more := by
  by_cases blank : isBlank c = true
  · simp [cut, blank, Cut.before]
  by_cases digit : c.isDigit = true
  · have number : ∀ cs, cut c cs = cutNumber (c :: cs) := fun cs => by simp [cut, blank, digit]
    rw [number, number]
    exact cutNumber_before (c :: cs) more
  by_cases start : isWordStart c = true
  · have word : ∀ cs, cut c cs = cutWord (c :: cs) := fun cs => by
      simp [cut, blank, digit, start]
    rw [word, word]
    exact cutWord_before (c :: cs) more
  by_cases quote : c = '"'
  · subst quote
    have string : ∀ cs, cut '"' cs = cutString cs := fun _ => rfl
    rw [string] at closed ⊢
    rw [string]
    exact cutString_before closed more
  simp only [cut, blank, digit, start, quote, if_false]
  by_cases slash : c = '/'
  · rw [if_pos slash, if_pos slash]
    match cs with
    | [] => rfl
    | d :: rest =>
      by_cases comment : d = '/'
      · subst comment
        exact cutComment_before rest more
      · simp [Cut.before, comment]
  · rw [if_neg slash, if_neg slash]
    cases punctuation? c with
    | some kind => rfl
    | none =>
      cases beforeEqual? c with
      | none => rfl
      | some kinds =>
        match cs with
        | [] => rfl
        | d :: rest =>
          by_cases equal : d = '='
          · subst equal
            rfl
          · simp [Cut.before, equal]

/-- The pieces of a text whose strings are closed stay what they are when lines are added. -/
theorem pieces_before {text : List Char} (closed : ∀ p ∈ pieces text, p.kind ≠ .unterminated)
    (more : List Char) : pieces (text ++ '\n' :: more) = pieces text ++ pieces ('\n' :: more) := by
  fun_induction pieces text with
  | case1 => rfl
  | case2 c cs ih =>
    have first := closed _ (List.mem_cons_self ..)
    have rest := ih fun p hp => closed p (List.mem_cons_of_mem _ hp)
    rw [List.cons_append, pieces, cut_before first]
    change (cut c cs).1 :: pieces ((cut c cs).2 ++ '\n' :: more) = _
    rw [rest, List.cons_append]

/-- A line end by itself is a piece. -/
def lineEnd : Piece := { kind := .blank, chars := ['\n'] }

theorem pieces_lineEnd (more : List Char) : pieces ('\n' :: more) = lineEnd :: pieces more := by
  rw [pieces]
  rfl

theorem pieces_lineEnds (n : Nat) (more : List Char) :
    pieces (List.replicate n '\n' ++ more) = List.replicate n lineEnd ++ pieces more := by
  induction n with
  | zero => rfl
  | succ n ih => rw [List.replicate_succ, List.cons_append, pieces_lineEnd, ih]; rfl

/-! ## Tokens and their lines -/

/-- The token some lines further down. -/
def Token.down (k : Nat) (t : Token) : Token :=
  { t with line := t.line + k }

/-- The token of a piece that ends on a line. -/
def Piece.token? (line : Nat) (p : Piece) : Option Token :=
  match p.kind with
  | .lexeme kind literal => some { kind, lexeme := String.ofList p.chars, literal, line }
  | _ => none

/-- The tokens of pieces, the first of which starts on the given line, but for the closing one. -/
def lexemes (line : Nat) : List Piece → List Token
  | [] => []
  | p :: ps =>
    let endLine := line + lineEnds p.chars
    (p.token? endLine).toList ++ lexemes endLine ps

/-- The line after pieces. -/
def lineAfter (line : Nat) (ps : List Piece) : Nat :=
  line + lineEnds (ps.flatMap Piece.chars)

/-- Neither a character nor a string of the piece is at fault. -/
def Piece.Faultless (p : Piece) : Prop :=
  p.kind ≠ .unterminated ∧ ∀ c, p.kind ≠ .unexpected c

theorem lineAfter_cons (line : Nat) (p : Piece) (ps : List Piece) :
    lineAfter line (p :: ps) = lineAfter (line + lineEnds p.chars) ps := by
  simp only [lineAfter, lineEnds, List.flatMap_cons, List.count_append, Nat.add_assoc]

/-- What is located is the tokens, and the closing one on the last line. -/
theorem tokensOf_locate (start line : Nat) (ps : List Piece) :
    tokensOf (locate start line ps) = lexemes line ps ++ [Token.closing (lineAfter line ps)] := by
  induction ps generalizing start line with
  | nil => rfl
  | cons p ps ih =>
    have rest := ih (start + byteLength p.chars) (line + lineEnds p.chars)
    rw [lineAfter_cons, lexemes, List.append_assoc, ← rest, locate]
    unfold Piece.token?
    cases p.kind <;> rfl

theorem faultsOf_locate (start line : Nat) (ps : List Piece) :
    faultsOf (locate start line ps) = [] ↔ ∀ p ∈ ps, p.Faultless := by
  induction ps generalizing start line with
  | nil => simp [locate, faultsOf]
  | cons p ps ih =>
    have rest := ih (start + byteLength p.chars) (line + lineEnds p.chars)
    rw [List.forall_mem_cons, ← rest, locate]
    unfold Piece.Faultless
    cases p.kind <;> simp [faultsOf]

theorem lexemes_append (line : Nat) (ps qs : List Piece) :
    lexemes line (ps ++ qs) = lexemes line ps ++ lexemes (lineAfter line ps) qs := by
  induction ps generalizing line with
  | nil => rfl
  | cons p ps ih =>
    rw [List.cons_append, lexemes, ih, lineAfter_cons, lexemes, List.append_assoc]

theorem lexemes_down (k line : Nat) (ps : List Piece) :
    lexemes (line + k) ps = (lexemes line ps).map (Token.down k) := by
  induction ps generalizing line with
  | nil => rfl
  | cons p ps ih =>
    have first : (p.token? (line + k + lineEnds p.chars)).toList =
        (p.token? (line + lineEnds p.chars)).toList.map (Token.down k) := by
      unfold Piece.token?
      cases p.kind <;> simp [Token.down, Nat.add_right_comm]
    rw [lexemes, lexemes, List.map_append, ← ih, ← first, Nat.add_right_comm]

theorem lexemes_lineEnds (line n : Nat) (ps : List Piece) :
    lexemes line (List.replicate n lineEnd ++ ps) = lexemes (line + n) ps := by
  induction n generalizing line with
  | zero => rfl
  | succ n ih =>
    rw [List.replicate_succ, List.cons_append, lexemes]
    change lexemes (line + 1) _ = _
    rw [ih, Nat.add_assoc, Nat.add_comm 1 n]

/-! ## Sources -/

/-- The tokens of a source but for the closing one. -/
def bodyOf (source : String) : List Token :=
  lexemes 1 (pieces source.toList)

/-- How many lines down a text comes that is put on the line after a source. -/
def linesOf (source : String) : Nat :=
  lineEnds source.toList + 1

/-- A source and another on the lines after it. -/
def joined (s t : String) : String :=
  s ++ "\n" ++ t

/-- A source after some empty lines. -/
def lowered (k : Nat) (t : String) : String :=
  String.ofList (List.replicate k '\n') ++ t

theorem tokensOf_scan (source : String) :
    tokensOf (scan source) = bodyOf source ++ [Token.closing (linesOf source)] := by
  rw [scan, tokensOf_locate, lineAfter, flatten_pieces, Nat.add_comm]
  rfl

theorem toList_joined (s t : String) : (joined s t).toList = s.toList ++ '\n' :: t.toList := by
  simp [joined]

theorem toList_lowered (k : Nat) (t : String) :
    (lowered k t).toList = List.replicate k '\n' ++ t.toList := by
  simp [lowered]

/-- If a source has no lexical fault, the pieces of the joined source are those of both. -/
theorem pieces_joined {s : String} (clean : faultsOf (scan s) = []) (t : String) :
    pieces (joined s t).toList = pieces s.toList ++ lineEnd :: pieces t.toList := by
  have closed := (faultsOf_locate _ _ _).1 clean
  rw [toList_joined, pieces_before fun p hp => (closed p hp).1, pieces_lineEnd]

theorem faultsOf_joined {s t : String} (hs : faultsOf (scan s) = [])
    (ht : faultsOf (scan t) = []) : faultsOf (scan (joined s t)) = [] := by
  apply (faultsOf_locate _ _ _).2
  rw [pieces_joined hs, List.forall_mem_append, List.forall_mem_cons]
  exact ⟨(faultsOf_locate _ _ _).1 hs, ⟨nofun, nofun⟩, (faultsOf_locate _ _ _).1 ht⟩

/-- The tokens of the joined source are those of the first, and those of the second further down. -/
theorem bodyOf_joined {s : String} (clean : faultsOf (scan s) = []) (t : String) :
    bodyOf (joined s t) = bodyOf s ++ (bodyOf t).map (Token.down (linesOf s)) := by
  rw [bodyOf, pieces_joined clean, lexemes_append]
  change _ ++ lexemes (lineAfter 1 (pieces s.toList)) (List.replicate 1 lineEnd ++ _) = _
  rw [lexemes_lineEnds, lineAfter, flatten_pieces, Nat.add_assoc, lexemes_down]
  rfl

theorem faultsOf_lowered {t : String} (k : Nat) (clean : faultsOf (scan t) = []) :
    faultsOf (scan (lowered k t)) = [] := by
  apply (faultsOf_locate _ _ _).2
  rw [toList_lowered, pieces_lineEnds, List.forall_mem_append]
  refine ⟨fun p hp => ?_, (faultsOf_locate _ _ _).1 clean⟩
  rw [List.eq_of_mem_replicate hp]
  exact ⟨nofun, nofun⟩

theorem bodyOf_lowered (k : Nat) (t : String) :
    bodyOf (lowered k t) = (bodyOf t).map (Token.down k) := by
  rw [bodyOf, toList_lowered, pieces_lineEnds, lexemes_lineEnds, lexemes_down]
  rfl

end ClassScript
