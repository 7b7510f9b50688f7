import ClassScript.Proofs.Decimal.Signs
import ClassScript.Proofs.Decimal.Whole
import ClassScript.Proofs.Token.Items
import ClassScript.Token.Text
import ClassScript.Tree.Listing
import ClassScript.Tree.Parse

set_option autoImplicit false

/-!
# Number literals in the listings

A number literal appears in the listing of tokens and, once it is read, in the listing of the tree.  For
a whole value the tree listing always has all digits and `.0`.  The token listing has the same below
`2 ^ 63`, and from there on it has not.
-/

namespace ClassScript

/-- A lexeme for a number carries the number that its digits say. -/
theorem Lexeme.literal_of_number {literal : Option Literal} {s : List Char}
    (h : Lexeme .number literal s) :
    ∃ before after, literal = some (.number (decimalValue before after)) := by
  cases h with
  | symbol listed => exact absurd rfl (symbols_apart _ listed).2.2.2
  | integer => exact ⟨_, [], rfl⟩
  | decimal => exact ⟨_, _, rfl⟩
  | keyword listed => exact absurd rfl (keywords_apart _ listed).2

/-- So does every number that scanning finds. -/
theorem Itemizes.literal_of_number {start line : Nat} {text : List Char} {items : List Item}
    (h : Itemizes start line text items) :
    ∀ t ∈ tokensOf items, t.kind = .number →
      ∃ before after, t.literal = some (.number (decimalValue before after)) := by
  induction h with
  | finished => exact List.forall_mem_singleton.2 nofun
  | trivia _ _ ih => exact ih
  | token longest _ ih =>
    cases longest.stretch with
    | lexeme lexeme =>
      refine List.forall_mem_cons.2 ⟨?_, ih⟩
      rintro rfl
      exact lexeme.literal_of_number
  | unexpected _ _ _ ih | unterminated _ _ ih => exact ih

/-- The number of a number token is read into the tree. -/
theorem Token.constant?_of_number {t : Token} {x : Float} (number : t.kind = .number)
    (literal : t.literal = some (.number x)) :
    Parser.constant? t = some (.ok (.number x)) := by
  rw [Parser.constant?, number, literal]

/-- What the listing of a number token has before its value. -/
def Token.listingOf (t : Token) (value : String) : String :=
  "NUMBER " ++ t.lexeme ++ " " ++ value

theorem Token.listing_of_number {t : Token} {x : Float} (number : t.kind = .number)
    (literal : t.literal = some (.number x)) : t.listing = t.listingOf (Number.tokenText x) := by
  rw [Token.listing, number, literal]
  rfl

theorem Token.listingOf_inj (t : Token) {value value' : String} :
    t.listingOf value = t.listingOf value' ↔ value = value' :=
  String.append_right_inj _

/-- **Whole literals in both listings.**  A number token that scanning finds has a value that is not
negative.  If it is whole, the tree listing shows that value with all its digits and `.0`.  The token
listing shows the same exactly if the value lies below `2 ^ 63`; from there on it shows digits only. -/
theorem whole_literals_listed {source : String} {t : Token} (among : t ∈ tokensOf (scan source))
    (number : t.kind = .number) :
    ∃ x, t.literal = some (.number x) ∧ Parser.constant? t = some (.ok (.number x)) ∧
      ∀ z : ℤ, Number.value? x = some (z : ℚ) → ∃ n : ℕ, z = n ∧
        (Expr.constant (.number x)).listing = toString n ++ ".0" ∧
        (t.listing = t.listingOf (toString n ++ ".0") ↔ n < 2 ^ 63) ∧
        (2 ^ 63 ≤ n → ∃ digits, t.listing = t.listingOf (String.ofList digits) ∧
          ∀ c ∈ digits, c.isDigit) := by
  have itemized : Itemizes 0 1 source.toList (scan source) := itemizes_locate 0 1 source.toList
  obtain ⟨before, after, literal⟩ := itemized.literal_of_number t among number
  have positive := Decimal.isNegative_decimalValue before after
  refine ⟨_, literal, Token.constant?_of_number number literal, fun z whole => ?_⟩
  obtain ⟨b, n, finite, natural, same⟩ := Number.exists_of_value? positive whole
  rw [Token.listing_of_number number literal]
  refine ⟨n, natural, Number.treeText_whole positive finite same, ?_, fun large => ?_⟩
  · rw [Token.listingOf_inj]
    exact Number.tokenText_eq_iff positive finite same
  · obtain ⟨digits, text, all⟩ := Number.tokenText_large positive finite same large
    exact ⟨digits, congrArg t.listingOf text, all⟩

/-- The least literal that the listings differ in. -/
def largeLiteral : Token where
  kind := .number
  lexeme := "9223372036854775808"
  literal := some (.number (decimalValue "9223372036854775808".toList []))
  line := 1

theorem value?_largeLiteral :
    Number.value? (decimalValue "9223372036854775808".toList []) = some ((2 ^ 63 : ℤ) : ℚ) := by
  have finite : Decimal.magnitude (decimalValue "9223372036854775808".toList []) =
      .finite ⟨2 ^ 52, 11, true⟩ := by
    decide +kernel
  rw [Number.value?, finite]
  dsimp only
  rw [Decimal.isNegative_decimalValue, if_neg Bool.false_ne_true, Decimal.Binary.value]
  norm_num

/-- Its value is `2 ^ 63`, and the token listing has no `.0` for it. -/
theorem whole_literals_listed_large :
    largeLiteral ∈ tokensOf (scan "9223372036854775808") ∧ largeLiteral.kind = .number ∧
      largeLiteral.listing ≠ largeLiteral.listingOf "9223372036854775808.0" := by
  have scanned : tokensOf (scan "9223372036854775808") = [largeLiteral, .closing 1] := by
    decide +kernel
  have among : largeLiteral ∈ tokensOf (scan "9223372036854775808") := by
    rw [scanned]
    exact List.mem_cons_self
  obtain ⟨x, literal, -, listed⟩ := whole_literals_listed among rfl
  cases literal
  obtain ⟨n, value, -, same, -⟩ := listed _ value?_largeLiteral
  obtain rfl : n = 2 ^ 63 := by exact_mod_cast value.symm
  exact ⟨among, rfl, fun text => absurd (same.1 text) (Nat.lt_irrefl _)⟩

end ClassScript
