import ClassScript.Proofs.Token.LongestMatch

set_option autoImplicit false

/-!
# The items of a source

What the lexical grammar makes of a whole source, with the places of its items, and that this is what
scanning finds.
-/

namespace ClassScript

/-- The items of a text that starts after some bytes, on some line: at every place the longest
stretch is passed over if it is trivia, and is a token if it is a lexeme.  Where there is no stretch,
one character is at fault; and a quote that is not closed takes all that is left. -/
inductive Itemizes : Nat → Nat → List Char → List Item → Prop where
  | finished {start line : Nat} : Itemizes start line [] [⟨start, start, .ok (.closing line)⟩]
  | trivia {start line : Nat} {s rest : List Char} {items : List Item}
      (longest : Longest .blank s rest)
      (more : Itemizes (start + byteLength s) (line + lineEnds s) rest items) :
      Itemizes start line (s ++ rest) items
  | token {start line : Nat} {s rest : List Char} {items : List Item} {kind : TokenKind}
      {literal : Option Literal} (longest : Longest (.lexeme kind literal) s rest)
      (more : Itemizes (start + byteLength s) (line + lineEnds s) rest items) :
      Itemizes start line (s ++ rest)
        (⟨start, start + byteLength s,
          .ok ⟨kind, String.ofList s, literal, line + lineEnds s⟩⟩ :: items)
  | unexpected {start line : Nat} {c : Char} {cs : List Char} {items : List Item}
      (barren : Barren (c :: cs)) (other : c ≠ '"')
      (more : Itemizes (start + c.utf8Size) line cs items) :
      Itemizes start line (c :: cs)
        (⟨start, start + c.utf8Size, .error (.lexical line (.unexpectedCharacter c))⟩ :: items)
  | unterminated {start line : Nat} {cs : List Char} {items : List Item} (unclosed : '"' ∉ cs)
      (more : Itemizes (start + byteLength ('"' :: cs)) (line + lineEnds ('"' :: cs)) [] items) :
      Itemizes start line ('"' :: cs)
        (⟨start, start + byteLength ('"' :: cs),
          .error (.lexical (line + lineEnds ('"' :: cs)) .unterminatedString)⟩ :: items)

/-- A line end is at fault nowhere. -/
theorem ne_lineEnd_of_barren {c : Char} {cs : List Char} (h : Barren (c :: cs)) : c ≠ '\n' := by
  rintro rfl
  exact h _ _ (.trivia (.blank rfl)) (List.prefix_append ['\n'] cs)

theorem byteLength_singleton (c : Char) : byteLength [c] = c.utf8Size := rfl

/-- A fault of one character is on the line where it starts. -/
theorem lineEnds_of_barren {c : Char} {cs : List Char} (h : Barren (c :: cs)) :
    lineEnds [c] = 0 :=
  List.count_eq_zero.2 fun inside => ne_lineEnd_of_barren h (List.mem_singleton.1 inside).symm

/-- Scanning finds what the grammar makes of the text. -/
theorem itemizes_locate (start line : Nat) (text : List Char) :
    Itemizes start line text (locate start line (pieces text)) := by
  fun_induction pieces text generalizing start line with
  | case1 => exact .finished
  | case2 c cs ih =>
    rcases cut_cases c cs with ⟨kind, s, rest, found, whole, longest⟩ | ⟨barren, other, found⟩ |
      ⟨unclosed, rfl, found⟩
    · rw [found] at ih ⊢
      rw [← whole, locate]
      cases longest.stretch with
      | trivia => exact .trivia longest (ih _ _)
      | lexeme => exact .token longest (ih _ _)
    · rw [found] at ih ⊢
      rw [locate]
      dsimp only
      rw [lineEnds_of_barren barren, byteLength_singleton]
      exact .unexpected barren other (ih _ _)
    · rw [found] at ih ⊢
      exact .unterminated unclosed (ih _ _)

/-- The longest stretch is the first piece. -/
theorem pieces_of_longest {kind : PieceKind} {s rest : List Char} (h : Longest kind s rest) :
    pieces (s ++ rest) = ⟨kind, s⟩ :: pieces rest := by
  obtain ⟨c, cs, rfl⟩ := List.exists_cons_of_ne_nil h.stretch.ne_nil
  have found : cut c (cs ++ rest) = (⟨kind, c :: cs⟩, rest) := cut_of_longest h rfl
  rw [List.cons_append, pieces, found]

/-- The grammar makes nothing else of it. -/
theorem Itemizes.eq_locate {start line : Nat} {text : List Char} {items : List Item}
    (h : Itemizes start line text items) : items = locate start line (pieces text) := by
  induction h with
  | finished =>
    rw [pieces]
    rfl
  | trivia longest _ ih | token longest _ ih =>
    rw [pieces_of_longest longest, ih]
    rfl
  | unexpected barren other _ ih =>
    rw [pieces, cut_of_barren barren other, locate, lineEnds_of_barren barren, ih]
    rfl
  | unterminated unclosed _ ih =>
    rw [pieces, cut_of_unclosed unclosed, ih]
    rfl

/-! ## What is cut is of the grammar -/

/-- What is cut without a fault is a stretch. -/
theorem stretch_of_cut (c : Char) (cs : List Char)
    (regular : ∀ d, (cut c cs).1.kind ≠ .unexpected d)
    (closed : (cut c cs).1.kind ≠ .unterminated) :
    Stretch (cut c cs).1.kind (cut c cs).1.chars := by
  rcases cut_cases c cs with ⟨kind, s, rest, found, -, longest⟩ | ⟨-, -, found⟩ | ⟨-, -, found⟩
  · rw [found]
    exact longest.stretch
  · exact absurd (congrArg (·.1.kind) found) (regular c)
  · exact absurd (congrArg (·.1.kind) found) closed

theorem trivia_of_cut {c : Char} {cs : List Char} (h : (cut c cs).1.kind = .blank) :
    Trivia (cut c cs).1.chars := by
  have stretch := stretch_of_cut c cs (by simp [h]) (by simp [h])
  rw [h] at stretch
  cases stretch with
  | trivia trivia => exact trivia

theorem lexeme_of_cut {c : Char} {cs : List Char} {kind : TokenKind} {literal : Option Literal}
    (h : (cut c cs).1.kind = .lexeme kind literal) : Lexeme kind literal (cut c cs).1.chars := by
  have stretch := stretch_of_cut c cs (by simp [h]) (by simp [h])
  rw [h] at stretch
  cases stretch with
  | lexeme lexeme => exact lexeme

/-- No lexeme is the end of the source. -/
theorem Lexeme.ne_endOfSource {kind : TokenKind} {literal : Option Literal} {s : List Char}
    (h : Lexeme kind literal s) : kind ≠ .endOfSource := by
  have symbols_ne : ∀ p ∈ symbols, p.2 ≠ .endOfSource := by decide
  have keywords_ne : ∀ p ∈ keywords, p.2 ≠ .endOfSource := by decide
  cases h with
  | symbol listed => exact symbols_ne _ listed
  | keyword listed => exact keywords_ne _ listed
  | string | integer | decimal | name => exact nofun

/-! ## What the items have in common -/

/-- The token has the literal and the kind that its lexeme asks for. -/
structure Token.Lexical (t : Token) : Prop where
  string : t.kind = .string → ∃ body : String, t.lexeme = "\"" ++ body ++ "\"" ∧
    '"' ∉ body.toList ∧ t.literal = some (.text body)
  number : t.kind = .number → ∃ x, t.literal = some (.number x)
  other : t.kind ≠ .string → t.kind ≠ .number → t.literal = none
  keyword : ∀ kind ∈ keywords.map Prod.snd, t.kind = kind ↔ (t.lexeme, kind) ∈ keywords

/-- What starts like no word is no reserved word. -/
theorem notMem_keywords {first : Char} (h : isWordStart first = false) (others : List Char)
    (kind : TokenKind) : (String.ofList (first :: others), kind) ∉ keywords := by
  intro listed
  obtain ⟨⟨c, cs, text, start, -⟩, -⟩ := mem_keywords listed
  rw [String.toList_ofList] at text
  obtain ⟨rfl, -⟩ := List.cons.inj text
  rw [h] at start
  cases start

/-- A token that does not start like a word, and whose kind is not that of one. -/
theorem Token.Lexical.of_first {first : Char} {others : List Char} {kind : TokenKind}
    {literal : Option Literal} {line : Nat} (word : isWordStart first = false)
    (apart : kind ∉ keywords.map Prod.snd)
    (string : kind = .string → ∃ body : String, String.ofList (first :: others) =
      "\"" ++ body ++ "\"" ∧ '"' ∉ body.toList ∧ literal = some (.text body))
    (number : kind = .number → ∃ x, literal = some (.number x))
    (other : kind ≠ .string → kind ≠ .number → literal = none) :
    Token.Lexical ⟨kind, String.ofList (first :: others), literal, line⟩ where
  string := string
  number := number
  other := other
  keyword kind' listed := by
    refine iff_of_false ?_ (notMem_keywords word others kind')
    rintro rfl
    exact apart listed

theorem not_isWordStart_of_isDigit {c : Char} (h : c.isDigit) : isWordStart c = false := by
  by_contra start
  rw [not_isDigit_of_isWordStart (Bool.not_eq_false _ ▸ start)] at h
  cases h

/-- The symbols are no words, and their kinds are not those of words or literals. -/
theorem symbols_apart : ∀ p ∈ symbols, p.1 ∉ keywords.map Prod.fst ∧
    p.2 ∉ keywords.map Prod.snd ∧ p.2 ≠ .string ∧ p.2 ≠ .number := by
  decide

theorem keywords_apart : ∀ p ∈ keywords, p.2 ≠ .string ∧ p.2 ≠ .number := by
  decide

theorem Lexeme.lexical {kind : TokenKind} {literal : Option Literal} {s : List Char}
    (h : Lexeme kind literal s) (line : Nat) :
    Token.Lexical ⟨kind, String.ofList s, literal, line⟩ := by
  cases h with
  | @symbol text _ listed =>
    obtain ⟨free : text ∉ _, word, string, number⟩ := symbols_apart _ listed
    refine ⟨fun same => absurd same string, fun same => absurd same number, fun _ _ => rfl, ?_⟩
    intro kind' listed'
    rw [String.ofList_toList]
    refine iff_of_false ?_ fun also => free (List.mem_map_of_mem also)
    rintro rfl
    exact word listed'
  | @string body closed =>
    refine .of_first rfl (by decide) (fun _ => ?_) nofun fun other => absurd rfl other
    refine ⟨String.ofList body, ?_, by rwa [String.toList_ofList], rfl⟩
    rw [← String.toList_inj]
    simp
  | integer some_digit digit =>
    obtain ⟨d, ds, rfl⟩ := List.exists_cons_of_ne_nil some_digit
    exact .of_first (not_isWordStart_of_isDigit (digit d List.mem_cons_self)) (by decide) nofun
      (fun _ => ⟨_, rfl⟩) fun _ other => absurd rfl other
  | decimal some_before some_after digit digit' =>
    obtain ⟨d, ds, rfl⟩ := List.exists_cons_of_ne_nil some_before
    exact .of_first (not_isWordStart_of_isDigit (digit d List.mem_cons_self)) (by decide) nofun
      (fun _ => ⟨_, rfl⟩) fun _ other => absurd rfl other
  | @keyword word _ listed =>
    obtain ⟨string, number⟩ := keywords_apart _ listed
    refine ⟨fun same => absurd same string, fun same => absurd same number, fun _ _ => rfl, ?_⟩
    intro kind' _
    rw [String.ofList_toList]
    constructor
    · rintro rfl
      exact listed
    · exact fun listed' => (mem_keywords listed).2.symm.trans (mem_keywords listed').2
  | name start word free =>
    refine ⟨nofun, nofun, fun _ _ => rfl, fun kind' listed' => iff_of_false ?_ (free kind')⟩
    have apart : TokenKind.identifier ∉ keywords.map Prod.snd := by decide
    rintro rfl
    exact apart listed'

theorem Token.lexical_closing (line : Nat) : (Token.closing line).Lexical := by
  refine ⟨nofun, nofun, fun _ _ => rfl, fun kind listed => iff_of_false ?_ fun listed => ?_⟩
  · have apart : TokenKind.endOfSource ∉ keywords.map Prod.snd := by decide
    rintro rfl
    exact apart listed
  · obtain ⟨⟨c, cs, text, -⟩, -⟩ := mem_keywords listed
    cases text

namespace Itemizes

variable {start line : Nat} {text : List Char} {items : List Item}

/-- Every token is as its lexeme asks. -/
theorem lexical (h : Itemizes start line text items) : ∀ t ∈ tokensOf items, t.Lexical := by
  induction h with
  | finished => exact List.forall_mem_singleton.2 (Token.lexical_closing _)
  | trivia _ _ ih => exact ih
  | @token _ line s _ _ _ _ longest _ ih =>
    cases longest.stretch with
    | lexeme lexeme => exact List.forall_mem_cons.2 ⟨lexeme.lexical _, ih⟩
  | unexpected _ _ _ ih | unterminated _ _ ih => exact ih

/-- An item that is not the first one comes later. -/
theorem split_later {first item : Item} {rest before after : List Item}
    (split : first :: rest = before ++ item :: after) (other : first.found ≠ item.found) :
    ∃ before', rest = before' ++ item :: after := by
  cases before with
  | nil =>
    obtain ⟨rfl, -⟩ := List.cons.inj split
    exact absurd rfl other
  | cons _ before => exact ⟨before, (List.cons.inj split).2⟩

/-- Nothing but the closing token comes after a quote that is not closed. -/
theorem after_unterminated (h : Itemizes start line text items) {before after : List Item}
    {item : Item} {last : Nat} (split : items = before ++ item :: after)
    (unclosed : item.found = .error (.lexical last .unterminatedString)) :
    after = [⟨item.stop, item.stop, .ok (.closing last)⟩] := by
  induction h generalizing before with
  | finished =>
    obtain ⟨before, nothing⟩ := split_later split (by simp [unclosed])
    simp at nothing
  | trivia _ _ ih => exact ih split
  | token _ _ ih | unexpected _ _ _ ih =>
    obtain ⟨before, split⟩ := split_later split (by simp [unclosed])
    exact ih split
  | unterminated _ more =>
    obtain rfl := more.eq_locate
    cases before with
    | nil =>
      obtain ⟨rfl, rfl⟩ := List.cons.inj split
      cases unclosed
      rw [pieces]
      rfl
    | cons _ before =>
      have later := (List.cons.inj split).2
      rw [pieces] at later
      obtain ⟨before, nothing⟩ := split_later later (by simp [unclosed])
      simp at nothing

end Itemizes

/-- Scanning is longest match: the items of a source are the ones that the lexical grammar makes of
it.  Only strings and numbers carry literals, and after a quote that is not closed comes the end. -/
theorem scan_longest_match (source : String) :
    (∀ items, Itemizes 0 1 source.toList items ↔ items = scan source) ∧
      (∀ t ∈ tokensOf (scan source), t.Lexical) ∧
      ∀ before item after line, scan source = before ++ item :: after →
        item.found = .error (.lexical line .unterminatedString) →
        after = [⟨item.stop, item.stop, .ok (.closing line)⟩] := by
  have itemized : Itemizes 0 1 source.toList (scan source) := itemizes_locate 0 1 source.toList
  refine ⟨fun items => ⟨Itemizes.eq_locate, ?_⟩, itemized.lexical, ?_⟩
  · rintro rfl
    exact itemized
  · exact fun _ _ _ _ => itemized.after_unterminated

end ClassScript
