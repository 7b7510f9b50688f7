import ClassScript.Proofs.Likeness.Erasure
import ClassScript.Proofs.Token.Respacing

set_option autoImplicit false

/-!
# Lexemes by themselves

A lexeme is scanned by itself as the token that it is in a source, on another line.  So a token of a
source is known from its text, and what can be said of the text from its kind: operators and reserved
words have the text of the table, and a name starts with a letter or an underscore.
-/

namespace ClassScript

namespace Token

/-- The token that a text is scanned as, on no line. -/
def ofText (text : String) : Token :=
  ((bodyOf text).headD default).unplaced

variable {t : Token}

/-- A token is found again in its text. -/
theorem Regular.ofText (h : t.Regular) : Token.ofText t.lexeme = t.unplaced := by
  have alone := pieces_of_longest h.longest_alone
  rw [List.append_nil] at alone
  rw [Token.ofText, bodyOf, alone]
  simp [lexemes, Piece.token?, unplaced]

theorem ofText_keyword {word : String} {kind : TokenKind} (listed : (word, kind) ∈ keywords) :
    ofText word = ⟨kind, word, none, 0⟩ := by
  have regular : Regular ⟨kind, word, none, 0⟩ := .keyword listed
  exact regular.ofText

/-- A token that is neither a name nor a literal has the text of the table. -/
theorem Regular.listed (h : t.Regular) (other : t.kind ∉ [.identifier, .string, .number]) :
    (t.lexeme, t.kind) ∈ symbols ++ keywords := by
  obtain ⟨kind, text, literal, line⟩ := t
  unfold Regular at h
  dsimp only at h other ⊢
  generalize spelled : text.toList = cs at h
  cases h with
  | symbol listed =>
    rw [String.toList_inj.1 spelled]
    exact List.mem_append_left _ listed
  | keyword listed =>
    rw [String.toList_inj.1 spelled]
    exact List.mem_append_right _ listed
  | string | integer | decimal | name => simp at other

theorem Regular.name (h : t.Regular) (kind : t.kind = .identifier) :
    ∃ first others, t.lexeme.toList = first :: others ∧ isWordStart first ∧
      ∀ c ∈ others, isWordChar c := by
  have symbol : TokenKind.identifier ∉ symbols.map Prod.snd := by decide
  have keyword : TokenKind.identifier ∉ keywords.map Prod.snd := by decide
  unfold Regular at h
  rw [kind] at h
  generalize t.literal = literal, t.lexeme.toList = cs at h
  cases h with
  | symbol listed => exact absurd (List.mem_map_of_mem listed) symbol
  | keyword listed => exact absurd (List.mem_map_of_mem listed) keyword
  | name start word => exact ⟨_, _, rfl, start, word⟩

/-- Only the literals of strings are texts. -/
theorem Regular.kind_of_text (h : t.Regular) (s : String) (literal : t.literal = some (.text s)) :
    t.kind = .string := by
  unfold Regular at h
  rw [literal] at h
  generalize t.kind = kind, t.lexeme.toList = cs at h
  cases h
  rfl

end Token

end ClassScript
