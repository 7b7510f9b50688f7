import ClassScript.Diagnostic

set_option autoImplicit false

/-!
# Reading tokens from a source

A source is cut into pieces from left to right.  A piece is the longest stretch at the head of the
text that is blank, a comment, or a lexeme; what starts none of these is a piece of one character,
and a quote that is never closed takes all that is left.  The pieces lie side by side and lose
nothing (`flatten_pieces`), so a place in the source is a sum over the pieces before it: `locate`
turns pieces into tokens and diagnostics with their byte ranges and lines.
-/

namespace ClassScript

/-! ## Character classes

The classes know the ASCII letters and digits only: any other character outside a string or a
comment is unexpected. -/

/-- Blanks separate lexemes and are otherwise ignored. -/
def isBlank (c : Char) : Bool :=
  c == ' ' || c == '\r' || c == '\t' || c == '\n'

/-- Words start with a letter or an underscore. -/
def isWordStart (c : Char) : Bool :=
  c.isAlpha || c == '_'

/-- Words go on with letters, digits and underscores. -/
def isWordChar (c : Char) : Bool :=
  c.isAlphanum || c == '_'

/-- The kinds that are one character, whatever follows it. -/
def punctuation? : Char → Option TokenKind
  | '(' => some .leftParen
  | ')' => some .rightParen
  | '\x7b' => some .leftBrace
  | '\x7d' => some .rightBrace
  | ',' => some .comma
  | '.' => some .dot
  | '-' => some .minus
  | '+' => some .plus
  | ';' => some .semicolon
  | '*' => some .star
  | _ => none

/-- The operators that an equals sign makes longer: the short kind, then the long one. -/
def beforeEqual? : Char → Option (TokenKind × TokenKind)
  | '!' => some (.bang, .bangEqual)
  | '=' => some (.equal, .equalEqual)
  | '<' => some (.less, .lessEqual)
  | '>' => some (.greater, .greaterEqual)
  | _ => none

/-! ## Pieces -/

/-- What a piece of the source is. -/
inductive PieceKind where
  | blank
  | lexeme (kind : TokenKind) (literal : Option Literal)
  | unexpected (c : Char)
  | unterminated
  deriving DecidableEq, Inhabited

/-- A stretch of the source and what it is. -/
structure Piece where
  kind : PieceKind
  chars : List Char
  deriving DecidableEq, Inhabited

/-- A piece at the head of a text and the text after it. -/
abbrev Cut : Type := Piece × List Char

/-- The value of a run of digits. -/
def digitsValue (digits : List Char) : Nat :=
  digits.foldl (fun n c => 10 * n + (c.toNat - '0'.toNat)) 0

/-- The double nearest to a number literal with the given digits before and after the point. -/
def decimalValue (before after : List Char) : Float :=
  Float.ofScientific (digitsValue (before ++ after)) true after.length

/-- The cut after a string whose opening quote is gone. -/
def cutString (cs : List Char) : Cut :=
  let body := cs.takeWhile (· != '"')
  match cs.dropWhile (· != '"') with
  | quote :: rest =>
    ({ kind := .lexeme .string (some (.text (String.ofList body)))
       chars := '"' :: body ++ [quote] }, rest)
  | [] => ({ kind := .unterminated, chars := '"' :: body }, [])

/-- The cut after a comment whose slashes are gone; the line end after it is not part of it. -/
def cutComment (cs : List Char) : Cut :=
  ({ kind := .blank, chars := '/' :: '/' :: cs.takeWhile (· != '\n') }, cs.dropWhile (· != '\n'))

/-- The cut after a number.  The point belongs to it only if a digit follows. -/
def cutNumber (cs : List Char) : Cut :=
  let before := cs.takeWhile Char.isDigit
  let rest := cs.dropWhile Char.isDigit
  let whole : Cut :=
    ({ kind := .lexeme .number (some (.number (decimalValue before []))), chars := before }, rest)
  match rest with
  | '.' :: d :: tail =>
    if d.isDigit then
      let after := (d :: tail).takeWhile Char.isDigit
      ({ kind := .lexeme .number (some (.number (decimalValue before after)))
         chars := before ++ '.' :: after }, (d :: tail).dropWhile Char.isDigit)
    else whole
  | _ => whole

/-- The cut after a word. -/
def cutWord (cs : List Char) : Cut :=
  let word := cs.takeWhile isWordChar
  ({ kind := .lexeme (wordKind (String.ofList word)) none, chars := word },
    cs.dropWhile isWordChar)

/-- The first piece of the text `c :: cs`. -/
def cut (c : Char) (cs : List Char) : Cut :=
  if isBlank c then ({ kind := .blank, chars := [c] }, cs)
  else if c.isDigit then cutNumber (c :: cs)
  else if isWordStart c then cutWord (c :: cs)
  else if c = '"' then cutString cs
  else if c = '/' then
    match cs with
    | '/' :: rest => cutComment rest
    | _ => ({ kind := .lexeme .slash none, chars := [c] }, cs)
  else match punctuation? c, beforeEqual? c with
    | some kind, _ => ({ kind := .lexeme kind none, chars := [c] }, cs)
    | none, some (short, long) =>
      match cs with
      | '=' :: rest => ({ kind := .lexeme long none, chars := [c, '='] }, rest)
      | _ => ({ kind := .lexeme short none, chars := [c] }, cs)
    | none, none => ({ kind := .unexpected c, chars := [c] }, cs)

/-! ### A cut loses nothing and is never empty -/

theorem cutString_append (cs : List Char) :
    (cutString cs).1.chars ++ (cutString cs).2 = '"' :: cs := by
  have whole := List.takeWhile_append_dropWhile (p := (· != '"')) (l := cs)
  simp only [cutString]
  split
  · rename_i quote rest h
    rw [h] at whole
    simp only [List.cons_append, List.append_assoc, List.nil_append, whole]
  · rename_i h
    rw [h, List.append_nil] at whole
    simp [whole]

theorem cutComment_append (cs : List Char) :
    (cutComment cs).1.chars ++ (cutComment cs).2 = '/' :: '/' :: cs := by
  simp [cutComment, List.takeWhile_append_dropWhile]

theorem cutNumber_append (cs : List Char) :
    (cutNumber cs).1.chars ++ (cutNumber cs).2 = cs := by
  have whole := List.takeWhile_append_dropWhile (p := Char.isDigit) (l := cs)
  simp only [cutNumber]
  split
  · rename_i d tail h
    split
    · simp only [List.append_assoc, List.cons_append, List.takeWhile_append_dropWhile]
      rw [← h]
      exact whole
    · exact whole
  · exact whole

theorem cutWord_append (cs : List Char) :
    (cutWord cs).1.chars ++ (cutWord cs).2 = cs :=
  List.takeWhile_append_dropWhile

theorem cut_append (c : Char) (cs : List Char) :
    (cut c cs).1.chars ++ (cut c cs).2 = c :: cs := by
  unfold cut
  split
  · rfl
  split
  · exact cutNumber_append _
  split
  · exact cutWord_append _
  split
  · rename_i h
    rw [cutString_append, h]
  split
  · rename_i h
    split
    · rw [cutComment_append, h]
    · rfl
  · split
    · rfl
    · split <;> rfl
    · rfl

theorem cutNumber_chars_ne_nil {c : Char} {cs : List Char} (h : c.isDigit = true) :
    (cutNumber (c :: cs)).1.chars ≠ [] := by
  have head : (c :: cs).takeWhile Char.isDigit ≠ [] := by simp [h]
  simp only [cutNumber]
  split
  · split
    · simp
    · exact head
  · exact head

theorem cutWord_chars_ne_nil {c : Char} {cs : List Char} (h : isWordStart c = true) :
    (cutWord (c :: cs)).1.chars ≠ [] := by
  have hc : isWordChar c = true := by
    simp only [isWordStart, isWordChar, Char.isAlphanum, Bool.or_eq_true] at h ⊢
    exact h.elim (fun letter => .inl (.inl letter)) .inr
  simp [cutWord, hc]

theorem cutString_chars_ne_nil (cs : List Char) : (cutString cs).1.chars ≠ [] := by
  simp only [cutString]
  split <;> simp

theorem cut_chars_ne_nil (c : Char) (cs : List Char) : (cut c cs).1.chars ≠ [] := by
  unfold cut
  split
  · simp
  split
  · exact cutNumber_chars_ne_nil (by assumption)
  split
  · exact cutWord_chars_ne_nil (by assumption)
  split
  · exact cutString_chars_ne_nil cs
  split
  · split
    · simp [cutComment]
    · simp
  · split
    · simp
    · split <;> simp
    · simp

/-- What is left after a cut is shorter. -/
theorem length_cut_rest_lt (c : Char) (cs : List Char) : (cut c cs).2.length < (c :: cs).length := by
  have whole := congrArg List.length (cut_append c cs)
  have nonempty := List.length_pos_iff.2 (cut_chars_ne_nil c cs)
  simp only [List.length_append] at whole
  omega

/-- The pieces of a text. -/
def pieces : List Char → List Piece
  | [] => []
  | c :: cs => (cut c cs).1 :: pieces (cut c cs).2
termination_by text => text.length
decreasing_by exact length_cut_rest_lt c cs

/-- The pieces of a text lie side by side and cover it. -/
theorem flatten_pieces (text : List Char) : (pieces text).flatMap Piece.chars = text := by
  fun_induction pieces text with
  | case1 => rfl
  | case2 c cs ih => rw [List.flatMap_cons, ih, cut_append]

/-! ## Places -/

/-- What was found at a place of the source, given by the bytes before its start and its end. -/
structure Item where
  start : Nat
  stop : Nat
  found : Except Diagnostic Token

/-- How many bytes a text takes in UTF-8. -/
def byteLength : List Char → Nat
  | [] => 0
  | c :: cs => c.utf8Size + byteLength cs

/-- How many lines end within a text. -/
def lineEnds (chars : List Char) : Nat :=
  chars.count '\n'

/-- The tokens and diagnostics of some pieces, where the first piece starts after `start` bytes on
the line `line`.  Each is placed on the line it ends on, and the closing token comes last. -/
def locate (start line : Nat) : List Piece → List Item
  | [] => [{ start, stop := start, found := .ok (Token.closing line) }]
  | piece :: rest =>
    let stop := start + byteLength piece.chars
    let endLine := line + lineEnds piece.chars
    match piece.kind with
    | .blank => locate stop endLine rest
    | .lexeme kind literal =>
      { start, stop
        found := .ok { kind, lexeme := String.ofList piece.chars, literal, line := endLine } }
        :: locate stop endLine rest
    | .unexpected c =>
      { start, stop, found := .error (.lexical endLine (.unexpectedCharacter c)) }
        :: locate stop endLine rest
    | .unterminated =>
      { start, stop, found := .error (.lexical endLine .unterminatedString) }
        :: locate stop endLine rest

/-- The tokens and diagnostics of a source in order, with their places. -/
def scan (source : String) : List Item :=
  locate 0 1 (pieces source.toList)

/-- The tokens of a source, whatever else was found. -/
def tokensOf (items : List Item) : List Token :=
  items.filterMap fun item => item.found.toOption

/-- The diagnostics of a source. -/
def faultsOf (items : List Item) : List Diagnostic :=
  items.filterMap fun item =>
    match item.found with
    | .error d => some d
    | .ok _ => none

end ClassScript
