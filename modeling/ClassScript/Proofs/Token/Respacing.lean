import ClassScript.Proofs.Token.Items
import ClassScript.Proofs.Token.Joining

set_option autoImplicit false

/-!
# Scanning the lexemes of a source again

A blank after a lexeme ends it: only a string has blanks in it, and a string is over at its closing
quote.  The lexemes of a source with one blank between any two are therefore scanned as what they
were, whatever stood between them in the source, and nothing of them is at fault.
-/

namespace ClassScript

/-! ## Lexemes before a blank -/

section Lexeme

variable {kind : TokenKind} {literal : Option Literal} {s : List Char}

theorem blank_notMem_symbols : ∀ p ∈ symbols, ' ' ∉ p.1.toList := by
  decide

/-- Strings are the only lexemes with blanks in them. -/
theorem Lexeme.blank_notMem (h : Lexeme kind literal s) (other : kind ≠ .string) : ' ' ∉ s := by
  have digitless : Char.isDigit ' ' = false := by decide
  have wordless : isWordChar ' ' = false := by decide
  cases h with
  | symbol listed => exact blank_notMem_symbols _ listed
  | string => exact absurd rfl other
  | integer _ digit => exact fun inside => absurd (digit ' ' inside) (by simp [digitless])
  | decimal _ _ whole part =>
    intro inside
    rcases List.mem_append.1 inside with before | after
    · exact absurd (whole ' ' before) (by simp [digitless])
    · have after := (List.mem_cons.1 after).resolve_left (by decide)
      exact absurd (part ' ' after) (by simp [digitless])
  | keyword listed =>
    obtain ⟨⟨first, others, text, -, word⟩, -⟩ := mem_keywords listed
    rw [text]
    exact fun inside => absurd (List.all_eq_true.1 word ' ' inside) (by simp [wordless])
  | @name first others start word free =>
    have all : ∀ c ∈ first :: others, isWordChar c :=
      List.forall_mem_cons.2 ⟨isWordChar_of_isWordStart start, word⟩
    exact fun inside => absurd (all ' ' inside) (by simp [wordless])

/-- Two slashes start a comment and no lexeme. -/
theorem Lexeme.ne_comment (h : Lexeme kind literal s) (body : List Char) :
    s ≠ '/' :: '/' :: body := by
  rintro rfl
  have comment : (cut '/' ('/' :: body)).1.kind = .blank := rfl
  rcases cut_covers (.lexeme h) (List.append_nil _) with longer | same
  · have whole := congrArg List.length (cut_append '/' ('/' :: body))
    simp only [List.length_append] at whole
    omega
  · rw [same] at comment
    cases comment

/-- A string is over at its closing quote. -/
theorem Lexeme.not_string_across (h : Lexeme kind literal s) (more body : List Char)
    (closed : '"' ∉ body) : s ++ ' ' :: more ≠ '"' :: body ++ ['"'] := by
  intro same
  obtain ⟨c, tail, rfl⟩ := List.exists_cons_of_ne_nil (Stretch.lexeme h).ne_nil
  obtain ⟨rfl, rest⟩ : c = '"' ∧ tail ++ ' ' :: more = body ++ ['"'] := List.cons.inj same
  have quote : '"' ∈ tail := (Stretch.lexeme h).closed rfl
  have inside : tail ++ (' ' :: more).dropLast = body := by
    rw [← List.dropLast_append_cons, rest, List.dropLast_concat]
  exact closed (inside ▸ List.mem_append_left _ quote)

/-- No stretch goes on over a lexeme and the blank after it. -/
theorem Lexeme.not_stretch_across (h : Lexeme kind literal s) {kind' : PieceKind}
    (more : List Char) : ¬Stretch kind' (s ++ ' ' :: more) := by
  obtain ⟨c, tail, rfl⟩ := List.exists_cons_of_ne_nil (Stretch.lexeme h).ne_nil
  intro across
  cases across with
  | trivia trivia =>
    generalize whole : c :: tail ++ ' ' :: more = text at trivia
    cases trivia with
    | blank => simp at whole
    | @comment body =>
      cases tail with
      | nil => simp at whole
      | cons d tail =>
        obtain ⟨rfl, rfl, -⟩ : c = '/' ∧ d = '/' ∧ tail ++ ' ' :: more = body := by
          simpa using whole
        exact h.ne_comment tail rfl
  | @lexeme kind' _ _ across =>
    have blank : ' ' ∈ c :: tail ++ ' ' :: more := by simp
    have string : kind' = .string := by
      by_contra other
      exact across.blank_notMem other blank
    obtain ⟨body, whole, closed, -⟩ := (across.lexical 0).string string
    refine h.not_string_across more body.toList closed ?_
    have spelled := congrArg String.toList whole
    simpa using spelled

/-- A lexeme is the longest stretch before a blank. -/
theorem Lexeme.longest_before_blank (h : Lexeme kind literal s) (more : List Char) :
    Longest (.lexeme kind literal) s (' ' :: more) := by
  refine ⟨.lexeme h, fun kind' s' stretch first => ?_⟩
  by_contra longer
  obtain ⟨further, rfl⟩ : s <+: s' :=
    List.prefix_of_prefix_length_le (List.prefix_append ..) first (Nat.le_of_not_le longer)
  cases further with
  | nil => simp at longer
  | cons d further =>
    obtain ⟨rfl, -⟩ := List.cons_prefix_cons.1 ((List.prefix_append_right_inj s).1 first)
    exact h.not_stretch_across further stretch

/-- A lexeme is the longest stretch of its own text. -/
theorem Lexeme.longest_alone (h : Lexeme kind literal s) :
    Longest (.lexeme kind literal) s [] :=
  ⟨.lexeme h, fun _ _ _ first => by simpa using first.length_le⟩

end Lexeme

/-! ## Lexemes with blanks between them -/

/-- What a token says, wherever it stands. -/
def Token.content (t : Token) : TokenKind × String × Option Literal :=
  (t.kind, t.lexeme, t.literal)

/-- The kind and the literal of the token are those of its lexeme. -/
def Token.Regular (t : Token) : Prop :=
  Lexeme t.kind t.literal t.lexeme.toList

/-- The piece that a token is read from. -/
def Token.piece (t : Token) : Piece :=
  { kind := .lexeme t.kind t.literal, chars := t.lexeme.toList }

/-- A blank by itself is a piece. -/
def space : Piece := { kind := .blank, chars := [' '] }

/-- The lexemes of tokens, with a blank between any two. -/
def respaced (ts : List Token) : String :=
  " ".intercalate (ts.map Token.lexeme)

theorem pieces_space (more : List Char) : pieces (' ' :: more) = space :: pieces more := by
  rw [pieces]
  rfl

theorem toList_respaced_singleton (t : Token) : (respaced [t]).toList = t.lexeme.toList := by
  simp [respaced]

theorem toList_respaced_cons (t u : Token) (ts : List Token) :
    (respaced (t :: u :: ts)).toList =
      t.lexeme.toList ++ ' ' :: (respaced (u :: ts)).toList := by
  simp [respaced, String.toList_intercalate, List.intercalate]

/-- The pieces of respaced tokens are theirs, and the blanks between. -/
theorem pieces_respaced (ts : List Token) (regular : ∀ t ∈ ts, t.Regular) :
    pieces (respaced ts).toList = (ts.map Token.piece).intersperse space := by
  induction ts with
  | nil =>
    rw [show (respaced []).toList = [] from rfl, pieces]
    rfl
  | cons t ts ih =>
    obtain ⟨first, others⟩ := List.forall_mem_cons.1 regular
    cases ts with
    | nil =>
      have alone := pieces_of_longest first.longest_alone
      rw [List.append_nil, pieces] at alone
      rw [toList_respaced_singleton, alone]
      rfl
    | cons u ts =>
      rw [toList_respaced_cons, pieces_of_longest (first.longest_before_blank _), pieces_space,
        ih others]
      rfl

theorem faultless_respaced (ts : List Token) :
    ∀ p ∈ (ts.map Token.piece).intersperse space, p.Faultless := by
  have token : ∀ t : Token, t.piece.Faultless := fun t => ⟨nofun, nofun⟩
  have between : space.Faultless := ⟨nofun, nofun⟩
  induction ts with
  | nil => simp
  | cons t ts ih =>
    cases ts with
    | nil => simpa using token t
    | cons u ts =>
      exact List.forall_mem_cons.2 ⟨token t, List.forall_mem_cons.2 ⟨between, ih⟩⟩

/-- Reading respaced tokens gives what they say. -/
theorem content_lexemes (line : Nat) (ts : List Token) :
    (lexemes line ((ts.map Token.piece).intersperse space)).map Token.content =
      ts.map Token.content := by
  have alone : ∀ line t, (Token.piece t).token? line = some { t with line } := fun line t => by
    simp [Token.piece, Piece.token?]
  induction ts generalizing line with
  | nil => rfl
  | cons t ts ih =>
    cases ts with
    | nil => simp [lexemes, alone, Token.content]
    | cons u ts =>
      have rest := ih (line + lineEnds t.piece.chars + lineEnds space.chars)
      simp only [List.map_cons, List.intersperse_cons_cons, lexemes, alone,
        List.map_append] at rest ⊢
      rw [rest]
      rfl

/-! ## Sources -/

/-- What is read of pieces is regular. -/
theorem regular_lexemes (line : Nat) (text : List Char) :
    ∀ t ∈ lexemes line (pieces text), t.Regular := by
  fun_induction pieces text generalizing line with
  | case1 => exact List.forall_mem_nil _
  | case2 c cs ih =>
    refine List.forall_mem_append.2 ⟨fun t read => ?_, ih _⟩
    rw [Option.mem_toList] at read
    unfold Piece.token? at read
    split at read
    · rename_i kind literal lexeme
      cases read
      simpa [Token.Regular] using lexeme_of_cut lexeme
    · cases read

/-- The tokens of a source but for those that are the end of it. -/
theorem filter_tokensOf (source : String) :
    (tokensOf (scan source)).filter (·.kind ≠ .endOfSource) = bodyOf source := by
  have inner : ∀ t ∈ bodyOf source, t.kind ≠ .endOfSource := fun t ht =>
    (regular_lexemes 1 source.toList t ht).ne_endOfSource
  rw [tokensOf_scan, List.filter_append, List.filter_eq_self.2 (by simpa using inner)]
  simp [Token.closing]

/-- Whatever is at fault in a source, its lexemes with single blanks between them are at fault
nowhere, and they are scanned as the same kinds, lexemes and literals, and then the end. -/
theorem scan_respaced (source : String) :
    let ts := (tokensOf (scan source)).filter (·.kind ≠ .endOfSource)
    faultsOf (scan (respaced ts)) = [] ∧
      ∃ again line, tokensOf (scan (respaced ts)) = again ++ [Token.closing line] ∧
        again.map Token.content = ts.map Token.content := by
  intro ts
  have regular : ∀ t ∈ ts, t.Regular := by
    rw [show ts = bodyOf source from filter_tokensOf source]
    exact regular_lexemes 1 source.toList
  have cut := pieces_respaced ts regular
  refine ⟨(faultsOf_locate ..).2 ?_, bodyOf (respaced ts), _, tokensOf_scan _, ?_⟩
  · rw [cut]
    exact faultless_respaced ts
  · rw [bodyOf, cut]
    exact content_lexemes 1 ts

end ClassScript
