import ClassScript.Token.Scan

set_option autoImplicit false

/-!
# Reading in place

A source can be read without cutting it into pieces: a reader runs over its bytes, and a lexeme is
the text between two places.  Every byte is fetched by its index and every text by its ends, and
each of these is checked; where a check fails, there is no result at all.  The reader moves by
bytes, while a text may only be taken between whole characters.  It never moves back, which is why
its loops end.
-/

namespace ClassScript

/-- The bytes of a text. -/
def utf8Bytes (source : String) : List UInt8 :=
  source.toByteArray.data.toList

/-- The text between two places.  There is none if a place is out of range or inside a character, or
if the second place comes before the first. -/
def slice? (source : String) (start stop : Nat) : Option String :=
  if h : start ≤ stop ∧ String.Pos.Raw.IsValid source ⟨start⟩ ∧
      String.Pos.Raw.IsValid source ⟨stop⟩ then
    some (String.extract (source.pos ⟨start⟩ h.2.1) (source.pos ⟨stop⟩ h.2.2))
  else none

/-- Bytes after the first one of a character have these upper bits. -/
def isContinuation (b : UInt8) : Bool :=
  b &&& 0xc0 == 0x80

/-- Where reading is in the bytes of a source. -/
structure Reader where
  /-- where the lexeme starts -/
  start : Nat
  /-- how many bytes are read -/
  curr : Nat
  line : Nat
  deriving DecidableEq, Repr

namespace Reader

/-- Reading starts before the first byte. -/
def initial : Reader := { start := 0, curr := 0, line := 1 }

/-! ## Looking and moving -/

section
variable (bytes : List UInt8)

/-- The byte to be read next, or zero after the last one. -/
def peek (c : Reader) : UInt8 :=
  bytes.getD c.curr 0

/-- The byte after it. -/
def peekNext (c : Reader) : UInt8 :=
  bytes.getD (c.curr + 1) 0

/-- Read a byte. -/
def advance (c : Reader) : Option (UInt8 × Reader) :=
  bytes[c.curr]?.map fun b => (b, { c with curr := c.curr + 1 })

/-- Read a byte if it is the expected one. -/
def match? (expected : UInt8) (c : Reader) : Option (Bool × Reader) :=
  if c.curr < bytes.length && c.peek bytes == expected then do
    let (_, c) ← c.advance bytes
    some (true, c)
  else some (false, c)

theorem advance_eq_some {bytes : List UInt8} {c d : Reader} {b : UInt8}
    (h : c.advance bytes = some (b, d)) :
    c.curr < bytes.length ∧ d = { c with curr := c.curr + 1 } := by
  obtain ⟨b', at_, same⟩ := Option.map_eq_some_iff.1 h
  cases same
  exact ⟨(List.getElem?_eq_some_iff.1 at_).1, rfl⟩

/-- Read bytes as long as they are of some kind. -/
def advanceWhile (p : UInt8 → Bool) (c : Reader) : Option Reader :=
  if p (c.peek bytes) then
    match _ : c.advance bytes with
    | some (_, d) => d.advanceWhile p
    | none => none
  else some c
termination_by bytes.length - c.curr
decreasing_by
  obtain ⟨inside, rfl⟩ := advance_eq_some ‹_›
  exact Nat.sub_succ_lt_self _ _ inside

/-- Read up to a quote or to the end, and count lines. -/
def advanceText (c : Reader) : Option Reader :=
  if c.curr < bytes.length && c.peek bytes != '"'.toUInt8 then
    match _ : c.advance bytes with
    | some (b, d) => advanceText (if b == '\n'.toUInt8 then { d with line := d.line + 1 } else d)
    | none => none
  else some c
termination_by bytes.length - c.curr
decreasing_by
  obtain ⟨inside, rfl⟩ := advance_eq_some ‹_›
  split <;> exact Nat.sub_succ_lt_self _ _ inside

/-- Move to the end of the line without a look at each byte. -/
def advanceLine (c : Reader) : Option Reader :=
  if c.curr ≤ bytes.length then
    match (bytes.drop c.curr).findIdx? (· == '\n'.toUInt8) with
    | some n => some { c with curr := c.curr + n }
    | none => some { c with curr := bytes.length }
  else none

end

/-! ## Lexemes -/

/-- What a step of reading finds: a fault, trivia, or a lexeme. -/
abbrev Found : Type := Except Diagnostic (Option (TokenKind × Option Literal))

/-- The value of a number literal. -/
def numberValue (text : String) : Float :=
  decimalValue (text.toList.takeWhile Char.isDigit) ((text.toList.dropWhile Char.isDigit).drop 1)

/-- A digit as a byte. -/
def isDigitByte (b : UInt8) : Bool :=
  (Char.ofUInt8 b).isDigit

/-- A byte that goes on with a word. -/
def isWordByte (b : UInt8) : Bool :=
  isWordChar (Char.ofUInt8 b)

/-- The reader is behind an opening quote. -/
def string (source : String) (c : Reader) : Option (Found × Reader) := do
  let bytes := utf8Bytes source
  let c ← c.advanceText bytes
  if bytes.length ≤ c.curr then some (.error (.lexical c.line .unterminatedString), c)
  else
    let (_, c) ← c.advance bytes
    let contents ← slice? source (c.start + 1) (c.curr - 1)
    some (.ok (some (.string, some (.text contents))), c)

/-- The reader is behind a digit. -/
def number (source : String) (c : Reader) : Option (Found × Reader) := do
  let bytes := utf8Bytes source
  let c ← c.advanceWhile bytes isDigitByte
  let c ←
    if c.peek bytes == '.'.toUInt8 && isDigitByte (c.peekNext bytes) then do
      let (_, c) ← c.advance bytes
      c.advanceWhile bytes isDigitByte
    else some c
  let text ← slice? source c.start c.curr
  some (.ok (some (.number, some (.number (numberValue text)))), c)

/-- The reader is behind the first byte of a word. -/
def word (source : String) (c : Reader) : Option (Found × Reader) := do
  let c ← c.advanceWhile (utf8Bytes source) isWordByte
  let text ← slice? source c.start c.curr
  some (.ok (some (wordKind text, none)), c)

/-- The reader is behind the first byte of a character that starts nothing. -/
def unexpected (source : String) (c : Reader) : Option (Found × Reader) := do
  let c ← c.advanceWhile (utf8Bytes source) isContinuation
  let text ← slice? source c.start c.curr
  match text.toList with
  | [ch] => some (.error (.lexical c.line (.unexpectedCharacter ch)), c)
  | _ => none

/-- Read what the byte before the reader starts; the byte is given as a character. -/
def startedBy (source : String) (ch : Char) (c : Reader) : Option (Found × Reader) :=
  let bytes := utf8Bytes source
  match punctuation? ch, beforeEqual? ch with
  | some kind, _ => some (.ok (some (kind, none)), c)
  | none, some (short, long) => do
    let (longer, c) ← c.match? bytes '='.toUInt8
    some (.ok (some (if longer then long else short, none)), c)
  | none, none =>
    if ch = '\n' then some (.ok none, { c with line := c.line + 1 })
    else if isBlank ch then some (.ok none, c)
    else if ch = '/' then do
      let (comment, c) ← c.match? bytes '/'.toUInt8
      if comment then
        let c ← c.advanceLine bytes
        some (.ok none, c)
      else some (.ok (some (.slash, none)), c)
    else if ch = '"' then c.string source
    else if ch.isDigit then c.number source
    else if isWordStart ch then c.word source
    else c.unexpected source

/-- Read what comes next. -/
def scanToken (source : String) (c : Reader) : Option (Found × Reader) := do
  let (b, c) ← c.advance (utf8Bytes source)
  c.startedBy source (Char.ofUInt8 b)

/-! ## Items -/

/-- What a step adds to the items: a token has the text since the start, and trivia adds nothing. -/
def item? (source : String) (c : Reader) : Found → Option (Option Item)
  | .ok none => some none
  | .ok (some (kind, literal)) => do
    let lexeme ← slice? source c.start c.curr
    some (some ⟨c.start, c.curr, .ok ⟨kind, lexeme, literal, c.line⟩⟩)
  | .error d => some (some ⟨c.start, c.curr, .error d⟩)

/-! ## Reading moves on -/

section
variable {bytes : List UInt8} {source : String} {c d : Reader} {found : Found}

theorem match?_onward {expected : UInt8} {same : Bool}
    (h : c.match? bytes expected = some (same, d)) : c.curr ≤ d.curr := by
  rw [match?] at h
  split at h
  · obtain ⟨⟨b, e⟩, read, same⟩ := Option.bind_eq_some_iff.1 h
    cases same
    rw [(advance_eq_some read).2]
    exact Nat.le_succ _
  · cases h
    exact Nat.le_refl _

theorem advanceWhile_onward {p : UInt8 → Bool} (h : c.advanceWhile bytes p = some d) :
    c.curr ≤ d.curr := by
  fun_induction advanceWhile bytes p c with
  | case1 c _ b e read ih =>
    obtain ⟨-, rfl⟩ := advance_eq_some read
    exact Nat.le_of_succ_le (ih h)
  | case2 => cases h
  | case3 =>
    cases h
    exact Nat.le_refl _

theorem advanceText_onward (h : c.advanceText bytes = some d) : c.curr ≤ d.curr := by
  fun_induction advanceText bytes c with
  | case1 c _ b e read ih =>
    have later := ih h
    rw [(advance_eq_some read).2] at later
    split at later <;> exact Nat.le_of_succ_le later
  | case2 => cases h
  | case3 =>
    cases h
    exact Nat.le_refl _

theorem advanceLine_onward (h : c.advanceLine bytes = some d) : c.curr ≤ d.curr := by
  rw [advanceLine] at h
  split at h
  · split at h <;> cases h
    · exact Nat.le_add_right _ _
    · assumption
  · cases h

theorem string_onward (h : c.string source = some (found, d)) : c.curr ≤ d.curr := by
  obtain ⟨e, text, h⟩ := Option.bind_eq_some_iff.1 h
  have moved := advanceText_onward text
  split at h
  · cases h
    exact moved
  · obtain ⟨⟨b, e'⟩, read, h⟩ := Option.bind_eq_some_iff.1 h
    obtain ⟨contents, -, h⟩ := Option.bind_eq_some_iff.1 h
    cases h
    rw [(advance_eq_some read).2]
    exact Nat.le_succ_of_le moved

theorem number_onward (h : c.number source = some (found, d)) : c.curr ≤ d.curr := by
  obtain ⟨e, whole, h⟩ := Option.bind_eq_some_iff.1 h
  refine Nat.le_trans (advanceWhile_onward whole) ?_
  dsimp only at h
  split at h
  · obtain ⟨⟨b, e'⟩, read, h⟩ := Option.bind_eq_some_iff.1 h
    obtain ⟨e'', fraction, h⟩ := Option.bind_eq_some_iff.1 h
    obtain ⟨text, -, h⟩ := Option.bind_eq_some_iff.1 h
    cases h
    obtain ⟨-, rfl⟩ := advance_eq_some read
    exact Nat.le_of_succ_le (advanceWhile_onward fraction)
  · obtain ⟨e', same, h⟩ := Option.bind_eq_some_iff.1 h
    obtain ⟨text, -, h⟩ := Option.bind_eq_some_iff.1 h
    cases same
    cases h
    exact Nat.le_refl _

theorem word_onward (h : c.word source = some (found, d)) : c.curr ≤ d.curr := by
  obtain ⟨e, run, h⟩ := Option.bind_eq_some_iff.1 h
  obtain ⟨text, -, h⟩ := Option.bind_eq_some_iff.1 h
  cases h
  exact advanceWhile_onward run

theorem unexpected_onward (h : c.unexpected source = some (found, d)) : c.curr ≤ d.curr := by
  obtain ⟨e, run, h⟩ := Option.bind_eq_some_iff.1 h
  obtain ⟨text, -, h⟩ := Option.bind_eq_some_iff.1 h
  split at h <;> cases h
  exact advanceWhile_onward run

theorem startedBy_onward {ch : Char} (h : c.startedBy source ch = some (found, d)) :
    c.curr ≤ d.curr := by
  rw [startedBy] at h
  split at h
  · cases h
    exact Nat.le_refl _
  · obtain ⟨⟨longer, e⟩, second, h⟩ := Option.bind_eq_some_iff.1 h
    cases h
    exact match?_onward second
  split at h
  · cases h
    exact Nat.le_refl _
  split at h
  · cases h
    exact Nat.le_refl _
  split at h
  · obtain ⟨⟨comment, e⟩, second, h⟩ := Option.bind_eq_some_iff.1 h
    refine Nat.le_trans (match?_onward second) ?_
    dsimp only at h
    split at h
    · obtain ⟨e', line, h⟩ := Option.bind_eq_some_iff.1 h
      cases h
      exact advanceLine_onward line
    · cases h
      exact Nat.le_refl _
  split at h
  · exact string_onward h
  split at h
  · exact number_onward h
  split at h
  · exact word_onward h
  · exact unexpected_onward h

/-- Every step takes up a byte at least. -/
theorem scanToken_onward (h : c.scanToken source = some (found, d)) : c.curr < d.curr := by
  obtain ⟨⟨b, e⟩, read, h⟩ := Option.bind_eq_some_iff.1 h
  have moved := startedBy_onward h
  rw [(advance_eq_some read).2] at moved
  exact moved

end

/-- Read the next item.  After the closing token there are no more. -/
def next (source : String) (c : Reader) : Option (Option Item × Reader) :=
  let size := (utf8Bytes source).length
  if c.curr ≤ size then
    if c.curr = size then
      some (some ⟨c.curr, c.curr, .ok (.closing c.line)⟩, { c with curr := c.curr + 1 })
    else
      match _ : { c with start := c.curr }.scanToken source with
      | some (found, d) => do
        match ← d.item? source found with
        | some item => some (some item, d)
        | none => d.next source
      | none => none
  else some (none, c)
termination_by (utf8Bytes source).length - c.curr
decreasing_by
  have moved := scanToken_onward ‹_›
  dsimp only at moved
  omega

/-- What is read after `n` other items or ends. -/
def nth (source : String) : Nat → Reader → Option (Option Item)
  | 0, c => do
    let (item, _) ← c.next source
    some item
  | n + 1, c => do
    let (_, c) ← c.next source
    nth source n c

end Reader

end ClassScript
