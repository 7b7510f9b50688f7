import ClassScript.Token.Scan
import Mathlib

set_option autoImplicit false

/-!
# How tokens are spelled

The words `this` and `super` are reserved, so no token that can name a binding is spelled like one
of them.  Scopes hold the receiver and the superclass under these two words, and what makes it safe
is that no declaration and no assignment of a program can get at them.
-/

namespace ClassScript

/-- A word that is neither of the two under which scopes hold what is not declared. -/
def IsName (word : String) : Prop :=
  word ≠ "this" ∧ word ≠ "super"

/-- The kind fits the word, as far as names, `this` and `super` are concerned. -/
structure TokenKind.Spells (kind : TokenKind) (word : String) : Prop where
  name : kind = .identifier → IsName word
  this : kind = .kwThis → word = "this"
  super : kind = .kwSuper → word = "super"

/-- The lexeme of the token fits its kind. -/
def Token.Spelled (t : Token) : Prop :=
  t.kind.Spells t.lexeme

/-- Kinds that are neither for names nor for the two words fit every word. -/
theorem TokenKind.Spells.of_other {kind : TokenKind}
    (h : kind ∉ [TokenKind.identifier, .kwThis, .kwSuper]) (word : String) : kind.Spells word := by
  simp only [List.mem_cons, List.not_mem_nil, or_false, not_or] at h
  exact ⟨fun e => absurd e h.1, fun e => absurd e h.2.1, fun e => absurd e h.2.2⟩

/-- A reserved word has its own kind, and that kind has no other word. -/
theorem wordKind_spells (word : String) : (wordKind word).Spells word := by
  have spelled : ∀ k, (word, k) ∈ keywords → k.Spells word := by
    intro k hk
    simp only [keywords, List.mem_cons, Prod.mk.injEq, List.not_mem_nil, or_false] at hk
    rcases hk with ⟨rfl, rfl⟩ | ⟨rfl, rfl⟩ | ⟨rfl, rfl⟩ | ⟨rfl, rfl⟩ | ⟨rfl, rfl⟩ | ⟨rfl, rfl⟩ |
      ⟨rfl, rfl⟩ | ⟨rfl, rfl⟩ | ⟨rfl, rfl⟩ | ⟨rfl, rfl⟩ | ⟨rfl, rfl⟩ | ⟨rfl, rfl⟩ | ⟨rfl, rfl⟩ |
      ⟨rfl, rfl⟩ | ⟨rfl, rfl⟩ | ⟨rfl, rfl⟩ <;>
    exact ⟨nofun, by simp, by simp⟩
  unfold wordKind
  cases found : keywords.lookup word with
  | some k =>
    obtain ⟨before, after, listed, -⟩ := List.lookup_eq_some_iff.1 found
    exact spelled k (by rw [listed]; simp)
  | none =>
    refine ⟨fun _ => ⟨?_, ?_⟩, nofun, nofun⟩
    · rintro rfl
      exact absurd found (by decide)
    · rintro rfl
      exact absurd found (by decide)

theorem punctuation?_spells {c : Char} {kind : TokenKind} (h : punctuation? c = some kind)
    (word : String) : kind.Spells word := by
  unfold punctuation? at h
  split at h <;> cases h <;> exact .of_other (by decide) word

theorem beforeEqual?_spells {c : Char} {short long : TokenKind}
    (h : beforeEqual? c = some (short, long)) (word : String) :
    short.Spells word ∧ long.Spells word := by
  unfold beforeEqual? at h
  split at h <;> cases h <;> exact ⟨.of_other (by decide) word, .of_other (by decide) word⟩

/-- A piece that is a lexeme is spelled as its kind asks. -/
def Piece.Spelled (p : Piece) : Prop :=
  ∀ kind literal, p.kind = .lexeme kind literal → kind.Spells (String.ofList p.chars)

theorem cutNumber_spelled (cs : List Char) : (cutNumber cs).1.Spelled := by
  intro kind literal h
  have number : kind = .number := by
    simp only [cutNumber] at h
    split at h
    · split at h <;> simp_all
    · simp_all
  exact .of_other (by rw [number]; decide) _

theorem cutString_spelled (cs : List Char) : (cutString cs).1.Spelled := by
  intro kind literal h
  simp only [cutString] at h
  split at h <;> cases h
  exact .of_other (by decide) _

theorem cut_spelled (c : Char) (cs : List Char) : (cut c cs).1.Spelled := by
  unfold cut
  split
  · exact nofun
  split
  · exact cutNumber_spelled _
  split
  · rintro kind literal h
    cases h
    exact wordKind_spells _
  split
  · exact cutString_spelled cs
  split
  · split
    · exact nofun
    · rintro kind literal h
      cases h
      exact .of_other (by decide) _
  · split
    · rename_i kind found
      rintro kind literal h
      cases h
      exact punctuation?_spells found _
    · rename_i short long _ found
      split
      · rintro kind literal h
        cases h
        exact (beforeEqual?_spells found _).2
      · rintro kind literal h
        cases h
        exact (beforeEqual?_spells found _).1
    · exact nofun

theorem pieces_spelled (text : List Char) : ∀ p ∈ pieces text, p.Spelled := by
  fun_induction pieces text with
  | case1 => simp
  | case2 c cs ih =>
    intro p hp
    rcases List.mem_cons.1 hp with rfl | hp
    · exact cut_spelled c cs
    · exact ih p hp

theorem tokensOf_locate_spelled {ps : List Piece} (h : ∀ p ∈ ps, p.Spelled) (start line : Nat) :
    ∀ t ∈ tokensOf (locate start line ps), t.Spelled := by
  induction ps generalizing start line with
  | nil =>
    intro t ht
    obtain rfl : t = Token.closing line := by
      simpa [locate, tokensOf, Except.toOption] using ht
    exact .of_other (by simp [Token.closing]) _
  | cons p ps ih =>
    have rest := ih fun q hq => h q (List.mem_cons_of_mem p hq)
    intro t ht
    rw [locate] at ht
    split at ht
    · exact rest _ _ t ht
    · rename_i kind literal isLexeme
      rcases List.mem_cons.1 ht with rfl | ht
      · exact h p List.mem_cons_self kind literal isLexeme
      · exact rest _ _ t ht
    · exact rest _ _ t ht
    · exact rest _ _ t ht

/-- All tokens of a source are spelled as their kinds ask. -/
theorem scan_spelled (source : String) : ∀ t ∈ tokensOf (scan source), t.Spelled :=
  tokensOf_locate_spelled (pieces_spelled source.toList) 0 1

end ClassScript
