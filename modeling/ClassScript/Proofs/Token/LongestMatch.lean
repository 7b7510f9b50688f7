import ClassScript.Token.Scan
import Mathlib

set_option autoImplicit false

/-!
# Longest match

The lexical grammar says which stretches of text are lexemes and which are trivia, each by itself.
Reading takes the longest of them from the head of what is left.  Where there is none, one character
is at fault, or a quote that is not closed, and then the source is over.

This file sets the grammar against `cut`: a stretch at the head of a text is the one that is cut, or
shorter (`cut_covers`), and what is cut is a stretch or a fault (`cut_sound`).  From these two it
follows that a source has the items that the grammar gives it, and no others.
-/

namespace ClassScript

/-! ## The lexical grammar -/

/-- Punctuation, and the operators of one and of two characters. -/
def symbols : List (String × TokenKind) :=
  [("(", .leftParen), (")", .rightParen), ("\x7b", .leftBrace), ("\x7d", .rightBrace),
   (",", .comma), (".", .dot), ("-", .minus), ("+", .plus), (";", .semicolon), ("/", .slash),
   ("*", .star), ("!", .bang), ("!=", .bangEqual), ("=", .equal), ("==", .equalEqual),
   (">", .greater), (">=", .greaterEqual), ("<", .less), ("<=", .lessEqual)]

/-- The lexemes, with their kinds and the literals that they carry. -/
inductive Lexeme : TokenKind → Option Literal → List Char → Prop where
  | symbol {text : String} {kind : TokenKind} (listed : (text, kind) ∈ symbols) :
      Lexeme kind none text.toList
  | string {body : List Char} (closed : '"' ∉ body) :
      Lexeme .string (some (.text (String.ofList body))) ('"' :: body ++ ['"'])
  | integer {digits : List Char} (some_digit : digits ≠ []) (digit : ∀ c ∈ digits, c.isDigit) :
      Lexeme .number (some (.number (decimalValue digits []))) digits
  | decimal {before after : List Char} (some_before : before ≠ []) (some_after : after ≠ [])
      (digit : ∀ c ∈ before, c.isDigit) (digit' : ∀ c ∈ after, c.isDigit) :
      Lexeme .number (some (.number (decimalValue before after))) (before ++ '.' :: after)
  | keyword {word : String} {kind : TokenKind} (listed : (word, kind) ∈ keywords) :
      Lexeme kind none word.toList
  | name {first : Char} {others : List Char} (start : isWordStart first)
      (word : ∀ c ∈ others, isWordChar c)
      (free : ∀ kind, (String.ofList (first :: others), kind) ∉ keywords) :
      Lexeme .identifier none (first :: others)

/-- What lies between lexemes: blanks, and comments up to the end of their line. -/
inductive Trivia : List Char → Prop where
  | blank {c : Char} (blank : isBlank c) : Trivia [c]
  | comment {body : List Char} (line : '\n' ∉ body) : Trivia ('/' :: '/' :: body)

/-- The stretches of text that are not at fault. -/
inductive Stretch : PieceKind → List Char → Prop where
  | trivia {s : List Char} (h : Trivia s) : Stretch .blank s
  | lexeme {kind : TokenKind} {literal : Option Literal} {s : List Char}
      (h : Lexeme kind literal s) : Stretch (.lexeme kind literal) s

/-! ## What is cut covers every stretch -/

/-- The cut is at the stretch, or further on. -/
def Cut.Covers (cut : Cut) (kind : PieceKind) (s rest : List Char) : Prop :=
  s.length < cut.1.chars.length ∨ cut = (⟨kind, s⟩, rest)

/-- What is taken from the head covers every run of elements to be taken. -/
theorem takeWhile_covers {α : Type} {p : α → Bool} {run : List α} (all : ∀ x ∈ run, p x)
    (rest : List α) :
    run.length < ((run ++ rest).takeWhile p).length ∨
      (run ++ rest).takeWhile p = run ∧ (run ++ rest).dropWhile p = rest := by
  rw [List.takeWhile_append_of_pos all, List.dropWhile_append_of_pos all]
  cases rest with
  | nil => exact .inr (by simp)
  | cons x rest =>
    by_cases more : p x = true
    · exact .inl (by simp [more])
    · exact .inr (by simp [more])

theorem cutComment_covers {body : List Char} (line : '\n' ∉ body) (rest : List Char) :
    (cutComment (body ++ rest)).Covers .blank ('/' :: '/' :: body) rest := by
  have all : ∀ c ∈ body, (c != '\n') = true := fun c hc =>
    bne_iff_ne.2 fun same => line (same ▸ hc)
  unfold cutComment
  rcases takeWhile_covers all rest with longer | ⟨same, rest'⟩
  · exact .inl (by simpa using longer)
  · exact .inr (by rw [same, rest'])

theorem cutString_covers {body : List Char} (closed : '"' ∉ body) (rest : List Char) :
    (cutString (body ++ '"' :: rest)).Covers
      (.lexeme .string (some (.text (String.ofList body)))) ('"' :: body ++ ['"']) rest := by
  have all : ∀ c ∈ body, (c != '"') = true := fun c hc =>
    bne_iff_ne.2 fun same => closed (same ▸ hc)
  refine .inr ?_
  unfold cutString
  rw [List.takeWhile_append_of_pos all, List.dropWhile_append_of_pos all]
  simp

theorem cutNumber_covers_integer {digits : List Char} (digit : ∀ c ∈ digits, c.isDigit)
    (rest : List Char) :
    (cutNumber (digits ++ rest)).Covers
      (.lexeme .number (some (.number (decimalValue digits [])))) digits rest := by
  unfold cutNumber
  rcases takeWhile_covers digit rest with longer | ⟨same, rest'⟩
  · left
    dsimp only
    split
    · split
      · simp only [List.length_append]
        omega
      · exact longer
    · exact longer
  · rw [same, rest']
    dsimp only
    split
    · split
      · exact .inl (by simp)
      · exact .inr rfl
    · exact .inr rfl

theorem cutNumber_covers_decimal {before after : List Char} (some_after : after ≠ [])
    (digit : ∀ c ∈ before, c.isDigit) (digit' : ∀ c ∈ after, c.isDigit) (rest : List Char) :
    (cutNumber (before ++ '.' :: after ++ rest)).Covers
      (.lexeme .number (some (.number (decimalValue before after)))) (before ++ '.' :: after)
      rest := by
  have point : Char.isDigit '.' = false := by decide
  obtain ⟨d, ds, rfl⟩ := List.exists_cons_of_ne_nil some_after
  have first : d.isDigit = true := digit' d List.mem_cons_self
  unfold cutNumber
  rw [List.append_assoc, List.takeWhile_append_of_pos digit, List.dropWhile_append_of_pos digit]
  simp only [List.cons_append, List.takeWhile_cons, List.dropWhile_cons, point, first,
    Bool.false_eq_true, if_false, if_true, List.append_nil]
  rcases takeWhile_covers (fun c hc => digit' c (List.mem_cons_of_mem d hc)) rest with
    longer | ⟨same, rest'⟩
  · left
    simp only [List.length_append, List.length_cons]
    omega
  · right
    rw [same, rest']

theorem cutWord_covers {run : List Char} (word : ∀ c ∈ run, isWordChar c) (rest : List Char) :
    (cutWord (run ++ rest)).Covers (.lexeme (wordKind (String.ofList run)) none) run rest := by
  unfold cutWord
  rcases takeWhile_covers word rest with longer | ⟨same, rest'⟩
  · exact .inl longer
  · exact .inr (by rw [same, rest'])

/-! ### Which cut a character starts -/

/-- What is true of a character but of no blank. -/
theorem not_isBlank {p : Char → Bool} {c : Char} (h : p c = true)
    (others : p ' ' = false ∧ p '\r' = false ∧ p '\t' = false ∧ p '\n' = false) :
    isBlank c = false := by
  by_contra blank
  simp only [isBlank, Bool.not_eq_false, Bool.or_eq_true, beq_iff_eq] at blank
  rcases blank with ((rfl | rfl) | rfl) | rfl <;> simp_all

theorem cut_of_isDigit {c : Char} (h : c.isDigit) (cs : List Char) :
    cut c cs = cutNumber (c :: cs) := by
  have blank : isBlank c = false := not_isBlank h ⟨rfl, rfl, rfl, rfl⟩
  simp [cut, blank, h]

/-- Digits come before letters and the underscore. -/
theorem not_isDigit_of_isWordStart {c : Char} (h : isWordStart c) : c.isDigit = false := by
  by_contra digit
  simp only [isWordStart, Char.isAlpha, Char.isUpper, Char.isLower, Char.isDigit,
    Bool.or_eq_true, Bool.and_eq_true, decide_eq_true_eq, beq_iff_eq, Bool.not_eq_false,
    UInt32.le_iff_toNat_le] at h digit
  have upper : '9'.val.toNat < 'A'.val.toNat := by decide
  have lower : '9'.val.toNat < 'a'.val.toNat := by decide
  have underscore : '9'.val.toNat < '_'.val.toNat := by decide
  rcases h with (h | h) | rfl <;> omega

theorem cut_of_isWordStart {c : Char} (h : isWordStart c) (cs : List Char) :
    cut c cs = cutWord (c :: cs) := by
  have blank : isBlank c = false := not_isBlank h ⟨rfl, rfl, rfl, rfl⟩
  simp [cut, blank, not_isDigit_of_isWordStart h, h]

theorem cut_of_punctuation {c : Char} {kind : TokenKind} (h : punctuation? c = some kind)
    (cs : List Char) : cut c cs = (⟨.lexeme kind none, [c]⟩, cs) := by
  unfold punctuation? at h
  split at h <;> cases h <;> rfl

/-- An operator that an equals sign may follow is cut where the text asks for nothing else. -/
theorem only_beforeEqual {c : Char} {operators : TokenKind × TokenKind}
    (h : beforeEqual? c = some operators) :
    ¬isBlank c ∧ ¬c.isDigit ∧ ¬isWordStart c ∧ c ≠ '"' ∧ c ≠ '/' ∧ punctuation? c = none := by
  unfold beforeEqual? at h
  split at h <;> cases h <;> decide

/-- An operator is cut with the equals sign after it, if there is one. -/
theorem cut_of_operator {c : Char} {short long : TokenKind}
    (h : beforeEqual? c = some (short, long)) :
    (∀ rest, cut c ('=' :: rest) = (⟨.lexeme long none, [c, '=']⟩, rest)) ∧
      ∀ cs, (∀ rest, cs ≠ '=' :: rest) → cut c cs = (⟨.lexeme short none, [c]⟩, cs) := by
  obtain ⟨blank, digit, start, quote, slash, none⟩ := only_beforeEqual h
  refine ⟨fun rest => ?_, fun cs alone => ?_⟩ <;>
    simp only [cut, blank, digit, start, quote, slash, none, h, Bool.false_eq_true, if_false]

theorem cut_slash_alone {cs : List Char} (alone : ∀ rest, cs ≠ '/' :: rest) :
    cut '/' cs = (⟨.lexeme .slash none, ['/']⟩, cs) := by
  unfold cut
  rw [if_neg (by decide), if_neg (by decide), if_neg (by decide), if_neg (by decide), if_pos rfl]
  split
  · exact absurd rfl (alone _)
  · rfl

/-- The symbols are the punctuation, the slash, and the operators with an equals sign or without. -/
theorem mem_symbols {text : String} {kind : TokenKind} (h : (text, kind) ∈ symbols) :
    ∃ c, text.toList = [c] ∧ (punctuation? c = some kind ∨ c = '/' ∧ kind = .slash ∨
        ∃ long, beforeEqual? c = some (kind, long)) ∨
      text.toList = [c, '='] ∧ ∃ short, beforeEqual? c = some (short, kind) := by
  simp only [symbols, List.mem_cons, Prod.mk.injEq, List.not_mem_nil, or_false] at h
  rcases h with ⟨rfl, rfl⟩ | ⟨rfl, rfl⟩ | ⟨rfl, rfl⟩ | ⟨rfl, rfl⟩ | ⟨rfl, rfl⟩ | ⟨rfl, rfl⟩ |
    ⟨rfl, rfl⟩ | ⟨rfl, rfl⟩ | ⟨rfl, rfl⟩ | ⟨rfl, rfl⟩ | ⟨rfl, rfl⟩ | ⟨rfl, rfl⟩ | ⟨rfl, rfl⟩ |
    ⟨rfl, rfl⟩ | ⟨rfl, rfl⟩ | ⟨rfl, rfl⟩ | ⟨rfl, rfl⟩ | ⟨rfl, rfl⟩ | ⟨rfl, rfl⟩ <;>
  first
  | exact ⟨_, .inl ⟨rfl, .inl rfl⟩⟩
  | exact ⟨_, .inl ⟨rfl, .inr (.inl ⟨rfl, rfl⟩)⟩⟩
  | exact ⟨_, .inl ⟨rfl, .inr (.inr ⟨_, rfl⟩)⟩⟩
  | exact ⟨_, .inr ⟨rfl, _, rfl⟩⟩

theorem cut_covers_symbol {text : String} {kind : TokenKind} (listed : (text, kind) ∈ symbols)
    {c : Char} {cs rest : List Char} (whole : text.toList ++ rest = c :: cs) :
    (cut c cs).Covers (.lexeme kind none) text.toList rest := by
  obtain ⟨a, ⟨text, single⟩ | ⟨text, short, operator⟩⟩ := mem_symbols listed
  · rw [text] at whole ⊢
    obtain ⟨rfl, rfl⟩ := List.cons.inj whole
    rcases single with punctuation | ⟨rfl, rfl⟩ | ⟨long, operator⟩
    · exact .inr (cut_of_punctuation punctuation _)
    · by_cases comment : ∃ more, rest = '/' :: more
      · obtain ⟨more, rfl⟩ := comment
        exact .inl (by simp [cut, cutComment, isBlank, isWordStart])
      · exact .inr (cut_slash_alone fun more same => comment ⟨more, same⟩)
    · by_cases equals : ∃ more, rest = '=' :: more
      · obtain ⟨more, rfl⟩ := equals
        have longer := (cut_of_operator operator).1 more
        exact .inl (longer ▸ Nat.lt_succ_self 1)
      · exact .inr ((cut_of_operator operator).2 _ fun more same => equals ⟨more, same⟩)
  · rw [text] at whole ⊢
    obtain ⟨rfl, rfl⟩ := List.cons.inj whole
    exact .inr ((cut_of_operator operator).1 rest)

/-- Reserved words are words. -/
theorem mem_keywords {word : String} {kind : TokenKind} (h : (word, kind) ∈ keywords) :
    (∃ first others, word.toList = first :: others ∧ isWordStart first ∧
      (first :: others).all isWordChar) ∧ wordKind word = kind := by
  simp only [keywords, List.mem_cons, Prod.mk.injEq, List.not_mem_nil, or_false] at h
  rcases h with ⟨rfl, rfl⟩ | ⟨rfl, rfl⟩ | ⟨rfl, rfl⟩ | ⟨rfl, rfl⟩ | ⟨rfl, rfl⟩ | ⟨rfl, rfl⟩ |
    ⟨rfl, rfl⟩ | ⟨rfl, rfl⟩ | ⟨rfl, rfl⟩ | ⟨rfl, rfl⟩ | ⟨rfl, rfl⟩ | ⟨rfl, rfl⟩ | ⟨rfl, rfl⟩ |
    ⟨rfl, rfl⟩ | ⟨rfl, rfl⟩ | ⟨rfl, rfl⟩ <;>
  exact ⟨⟨_, _, rfl, rfl, rfl⟩, by decide⟩

theorem isWordChar_of_isWordStart {c : Char} (h : isWordStart c) : isWordChar c := by
  simp only [isWordStart, isWordChar, Char.isAlphanum, Bool.or_eq_true] at h ⊢
  exact h.elim (fun letter => .inl (.inl letter)) .inr

/-- A word has the kind of a reserved word, or it is none. -/
theorem wordKind_cases (word : String) : (word, wordKind word) ∈ keywords ∨
    wordKind word = .identifier ∧ ∀ kind, (word, kind) ∉ keywords := by
  unfold wordKind
  cases found : keywords.lookup word with
  | some kind =>
    obtain ⟨before, after, listed, -⟩ := List.lookup_eq_some_iff.1 found
    exact .inl (by rw [listed]; simp)
  | none =>
    refine .inr ⟨rfl, fun kind listed => ?_⟩
    have different := List.lookup_eq_none_iff.1 found _ listed
    simp at different

/-- What is cut from the head of a text covers every stretch that is there. -/
theorem cut_covers {kind : PieceKind} {s rest cs : List Char} {c : Char} (h : Stretch kind s)
    (whole : s ++ rest = c :: cs) : (cut c cs).Covers kind s rest := by
  cases h with
  | trivia h =>
    cases h with
    | blank blank =>
      obtain ⟨rfl, rfl⟩ := List.cons.inj whole
      exact .inr (by simp [cut, blank])
    | comment line =>
      obtain ⟨rfl, rfl⟩ := List.cons.inj whole
      exact cutComment_covers line rest
  | lexeme h =>
    cases h with
    | symbol listed => exact cut_covers_symbol listed whole
    | @string body closed =>
      obtain ⟨rfl, inside⟩ := List.cons.inj whole
      have covers := cutString_covers closed rest
      rw [show body ++ '"' :: rest = cs by simpa using inside] at covers
      exact covers
    | integer some_digit digit =>
      obtain ⟨d, ds, rfl⟩ := List.exists_cons_of_ne_nil some_digit
      obtain ⟨rfl, rfl⟩ := List.cons.inj whole
      rw [cut_of_isDigit (digit d List.mem_cons_self)]
      exact cutNumber_covers_integer digit rest
    | decimal some_before some_after digit digit' =>
      obtain ⟨d, ds, rfl⟩ := List.exists_cons_of_ne_nil some_before
      obtain ⟨rfl, rfl⟩ := List.cons.inj whole
      rw [cut_of_isDigit (digit d List.mem_cons_self)]
      exact cutNumber_covers_decimal some_after digit digit' rest
    | @keyword word _ listed =>
      obtain ⟨⟨first, others, text, start, all⟩, rfl⟩ := mem_keywords listed
      have spelled : String.ofList (first :: others) = word := by
        rw [← text, String.ofList_toList]
      rw [text] at whole ⊢
      obtain ⟨rfl, rfl⟩ := List.cons.inj whole
      rw [cut_of_isWordStart start, ← spelled]
      exact cutWord_covers (List.all_eq_true.1 all) rest
    | @name first others start word free =>
      obtain ⟨rfl, rfl⟩ := List.cons.inj whole
      have plain : wordKind (String.ofList (first :: others)) = .identifier :=
        (wordKind_cases _).elim (fun listed => absurd listed (free _)) And.left
      have all : ∀ c ∈ first :: others, isWordChar c :=
        List.forall_mem_cons.2 ⟨isWordChar_of_isWordStart start, word⟩
      rw [cut_of_isWordStart start, ← plain]
      exact cutWord_covers all rest

/-! ## What is cut fits the grammar -/

/-- The cut is at a stretch, at a character that starts none, or at an open quote. -/
inductive Cut.Fits : Char → List Char → Cut → Prop where
  | stretch {c : Char} {cs s rest : List Char} {kind : PieceKind} (h : Stretch kind s)
      (whole : s ++ rest = c :: cs) : Cut.Fits c cs (⟨kind, s⟩, rest)
  | unexpected {c : Char} {cs : List Char} (other : c ≠ '"') :
      Cut.Fits c cs (⟨.unexpected c, [c]⟩, cs)
  | unterminated {cs : List Char} (unclosed : '"' ∉ cs) :
      Cut.Fits '"' cs (⟨.unterminated, '"' :: cs⟩, [])

theorem cutNumber_fits {c : Char} (h : c.isDigit) (cs : List Char) :
    Cut.Fits c cs (cutNumber (c :: cs)) := by
  have whole := cutNumber_append (c :: cs)
  have some_before : (c :: cs).takeWhile Char.isDigit ≠ [] := by simp [h]
  have before : ∀ d ∈ (c :: cs).takeWhile Char.isDigit, d.isDigit := fun d hd =>
    List.mem_takeWhile_imp hd
  revert whole
  unfold cutNumber
  dsimp only
  split
  · rename_i d tail _
    split
    · rename_i digit
      intro whole
      refine .stretch (.lexeme (.decimal some_before ?_ before fun d hd => ?_)) whole
      · simp [digit]
      · exact List.mem_takeWhile_imp hd
    · exact fun whole => .stretch (.lexeme (.integer some_before before)) whole
  · exact fun whole => .stretch (.lexeme (.integer some_before before)) whole

theorem cutWord_fits {c : Char} (h : isWordStart c) (cs : List Char) :
    Cut.Fits c cs (cutWord (c :: cs)) := by
  have run : (c :: cs).takeWhile isWordChar = c :: cs.takeWhile isWordChar := by
    simp [isWordChar_of_isWordStart h]
  refine .stretch (.lexeme ?_) (cutWord_append (c :: cs))
  rw [run]
  rcases wordKind_cases (String.ofList (c :: cs.takeWhile isWordChar)) with listed | ⟨plain, free⟩
  · have keyword := Lexeme.keyword listed
    rwa [String.toList_ofList] at keyword
  · rw [plain]
    exact .name h (fun d hd => List.mem_takeWhile_imp hd) free

theorem cutString_fits (cs : List Char) : Cut.Fits '"' cs (cutString cs) := by
  have body : '"' ∉ cs.takeWhile (· != '"') := fun inside => by
    simpa using List.mem_takeWhile_imp inside
  have whole := cutString_append cs
  revert whole
  unfold cutString
  dsimp only
  split
  · rename_i quote rest found
    have closing : quote = '"' := by
      simpa [found] using List.head?_dropWhile_not (· != '"') cs
    subst closing
    exact fun whole => .stretch (.lexeme (.string body)) whole
  · rename_i found
    intro _
    have all : cs.takeWhile (· != '"') = cs := by
      have parts := List.takeWhile_append_dropWhile (p := (· != '"')) (l := cs)
      rwa [found, List.append_nil] at parts
    rw [all] at body ⊢
    exact .unterminated body

theorem mem_symbols_of_punctuation {c : Char} {kind : TokenKind} (h : punctuation? c = some kind) :
    (String.ofList [c], kind) ∈ symbols := by
  unfold punctuation? at h
  split at h <;> cases h <;> decide

theorem mem_symbols_of_operator {c : Char} {short long : TokenKind}
    (h : beforeEqual? c = some (short, long)) :
    (String.ofList [c], short) ∈ symbols ∧ (String.ofList [c, '='], long) ∈ symbols := by
  unfold beforeEqual? at h
  split at h <;> cases h <;> exact ⟨by decide, by decide⟩

theorem Lexeme.of_symbol {kind : TokenKind} {s : List Char}
    (listed : (String.ofList s, kind) ∈ symbols) : Lexeme kind none s := by
  have symbol := Lexeme.symbol listed
  rwa [String.toList_ofList] at symbol

theorem cutComment_fits (cs : List Char) : Cut.Fits '/' ('/' :: cs) (cutComment cs) := by
  refine .stretch (.trivia (.comment fun inside => ?_)) (cutComment_append cs)
  simpa using List.mem_takeWhile_imp inside

theorem cut_fits (c : Char) (cs : List Char) : Cut.Fits c cs (cut c cs) := by
  unfold cut
  split
  · exact .stretch (.trivia (.blank ‹_›)) rfl
  split
  · exact cutNumber_fits ‹_› cs
  split
  · exact cutWord_fits ‹_› cs
  split
  · rename_i quote
    subst quote
    exact cutString_fits cs
  split
  · rename_i slash
    subst slash
    split
    · exact cutComment_fits _
    · exact .stretch (.lexeme (.of_symbol (by decide))) rfl
  split
  · rename_i found
    exact .stretch (.lexeme (.of_symbol (mem_symbols_of_punctuation found))) rfl
  · rename_i short long _ found
    obtain ⟨alone, both⟩ := mem_symbols_of_operator found
    split
    · exact .stretch (.lexeme (.of_symbol both)) rfl
    · exact .stretch (.lexeme (.of_symbol alone)) rfl
  · exact .unexpected ‹_›

/-! ## The longest stretch -/

/-- The stretch is at the head of the text that it is in with the rest, and no longer one is. -/
structure Longest (kind : PieceKind) (s rest : List Char) : Prop where
  stretch : Stretch kind s
  longest : ∀ kind' s', Stretch kind' s' → s' <+: s ++ rest → s'.length ≤ s.length

/-- No stretch is at the head of the text. -/
def Barren (text : List Char) : Prop :=
  ∀ kind s, Stretch kind s → ¬s <+: text

theorem Stretch.ne_nil {kind : PieceKind} {s : List Char} (h : Stretch kind s) : s ≠ [] := by
  cases h with
  | trivia h => cases h <;> exact nofun
  | lexeme h =>
    cases h with
    | symbol listed =>
      obtain ⟨c, ⟨text, -⟩ | ⟨text, -⟩⟩ := mem_symbols listed <;> rw [text] <;> exact nofun
    | string => exact nofun
    | integer some_digit => exact some_digit
    | decimal => simp
    | keyword listed =>
      obtain ⟨⟨first, others, text, -⟩, -⟩ := mem_keywords listed
      rw [text]
      exact nofun
    | name => exact nofun

/-- A quote starts a string that is closed, and nothing else. -/
theorem Stretch.closed {kind : PieceKind} {s tail : List Char} (h : Stretch kind s)
    (quote : s = '"' :: tail) : '"' ∈ tail := by
  have head : s.head? = some '"' := by rw [quote]; rfl
  cases h with
  | trivia h =>
    cases h with
    | blank blank =>
      cases head
      exact absurd blank (by decide)
    | comment => cases head
  | lexeme h =>
    cases h with
    | symbol listed =>
      obtain ⟨c, ⟨text, single⟩ | ⟨text, short, operator⟩⟩ := mem_symbols listed
      · rw [text] at head
        cases head
        rcases single with punctuation | ⟨slash, -⟩ | ⟨long, operator⟩
        · cases punctuation
        · exact absurd slash (by decide)
        · cases operator
      · rw [text] at head
        cases head
        cases operator
    | string =>
      obtain rfl := (List.cons.inj quote).2
      simp
    | integer some_digit digit =>
      exact absurd (digit '"' (List.mem_of_head? head)) (by decide)
    | decimal some_before _ digit =>
      obtain ⟨d, ds, rfl⟩ := List.exists_cons_of_ne_nil some_before
      cases head
      exact absurd (digit '"' List.mem_cons_self) (by decide)
    | keyword listed =>
      obtain ⟨⟨first, others, text, start, -⟩, -⟩ := mem_keywords listed
      rw [text] at head
      cases head
      exact absurd start (by decide)
    | name start =>
      cases head
      exact absurd start (by decide)

theorem barren_of_unclosed {cs : List Char} (unclosed : '"' ∉ cs) : Barren ('"' :: cs) := by
  rintro kind s h ⟨rest, whole⟩
  obtain ⟨c, tail, rfl⟩ := List.exists_cons_of_ne_nil h.ne_nil
  obtain ⟨rfl, rfl⟩ := List.cons.inj whole
  exact unclosed (List.mem_append_left _ (h.closed rfl))

/-- The longest stretch is cut. -/
theorem cut_of_longest {kind : PieceKind} {s rest cs : List Char} {c : Char}
    (h : Longest kind s rest) (whole : s ++ rest = c :: cs) : cut c cs = (⟨kind, s⟩, rest) := by
  have first : s <+: c :: cs := ⟨rest, whole⟩
  refine (cut_covers h.stretch whole).resolve_left fun longer => ?_
  have fits := cut_fits c cs
  generalize cut c cs = found at fits longer
  cases fits with
  | stretch other whole' =>
    have shorter := h.longest _ _ other (whole ▸ ⟨_, whole'⟩)
    exact absurd longer (Nat.not_lt.2 shorter)
  | unexpected =>
    exact h.stretch.ne_nil (List.length_eq_zero_iff.1 (Nat.lt_one_iff.1 longer))
  | unterminated unclosed => exact barren_of_unclosed unclosed _ _ h.stretch first

theorem cut_of_barren {c : Char} {cs : List Char} (h : Barren (c :: cs)) (other : c ≠ '"') :
    cut c cs = (⟨.unexpected c, [c]⟩, cs) := by
  have fits := cut_fits c cs
  generalize cut c cs = found at fits
  cases fits with
  | stretch stretch whole => exact absurd ⟨_, whole⟩ (h _ _ stretch)
  | unexpected => rfl
  | unterminated => exact absurd rfl other

theorem cut_of_unclosed {cs : List Char} (unclosed : '"' ∉ cs) :
    cut '"' cs = (⟨.unterminated, '"' :: cs⟩, []) := by
  have fits := cut_fits '"' cs
  generalize cut '"' cs = found at fits
  cases fits with
  | stretch stretch whole => exact absurd ⟨_, whole⟩ (barren_of_unclosed unclosed _ _ stretch)
  | unexpected other => exact absurd rfl other
  | unterminated => rfl

/-- What is cut is the longest stretch, or there is none. -/
theorem cut_cases (c : Char) (cs : List Char) :
    (∃ kind s rest, cut c cs = (⟨kind, s⟩, rest) ∧ s ++ rest = c :: cs ∧ Longest kind s rest) ∨
      (Barren (c :: cs) ∧ c ≠ '"' ∧ cut c cs = (⟨.unexpected c, [c]⟩, cs)) ∨
      ('"' ∉ cs ∧ c = '"' ∧ cut c cs = (⟨.unterminated, c :: cs⟩, [])) := by
  have fits := cut_fits c cs
  have covers : ∀ kind s rest, Stretch kind s → s ++ rest = c :: cs →
      (cut c cs).Covers kind s rest := fun _ _ _ => cut_covers
  generalize cut c cs = found at fits covers
  cases fits with
  | @stretch _ _ s rest kind stretch whole =>
    refine .inl ⟨kind, s, rest, rfl, whole, stretch, fun kind' s' other first => ?_⟩
    obtain ⟨rest', whole'⟩ := first
    rcases covers kind' s' rest' other (whole'.trans whole) with longer | same
    · exact Nat.le_of_lt longer
    · rw [show s = s' from congrArg (fun found : Cut => found.1.chars) same]
  | unexpected quote =>
    refine .inr (.inl ⟨fun kind s stretch first => ?_, quote, rfl⟩)
    obtain ⟨rest, whole⟩ := first
    rcases covers kind s rest stretch whole with longer | same
    · exact stretch.ne_nil (List.length_eq_zero_iff.1 (Nat.lt_one_iff.1 longer))
    · obtain rfl : .unexpected c = kind := congrArg (fun found : Cut => found.1.kind) same
      cases stretch
  | unterminated unclosed => exact .inr (.inr ⟨unclosed, rfl, rfl⟩)

end ClassScript
