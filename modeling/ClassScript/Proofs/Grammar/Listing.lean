import ClassScript.Proofs.Grammar.Leaves
import ClassScript.Proofs.Tree.Unparsed

set_option autoImplicit false

/-!
# Listings say what was read

The leaves of a program that was read come from the tokens of its source.  If there are no strings
among them and all numbers are finite, the listing of the program is that of a proper shape, and the
program can be told from it.
-/

namespace ClassScript

/-- The source has no strings, and all of its numbers are finite. -/
structure Listable (source : String) : Prop where
  stringless : ∀ t ∈ tokensOf (scan source), t.kind ≠ .string
  finite : ∀ t ∈ tokensOf (scan source), ∀ x, t.literal = some (.number x) → Number.IsFinite x

/-- All leaves of a program from such a source can be read again. -/
theorem Listable.readable {source : String} (listable : Listable source) {firstId : Nat}
    {program : List Stmt}
    (h : (parse (tokensOf (scan source)) firstId).outcome = .program program) :
    AllReadable (Stmt.leavesAll program) := by
  have regular : ∀ t ∈ bodyOf source, t.Regular := regular_lexemes 1 source.toList
  have scanned : ∀ t ∈ bodyOf source, t ∈ tokensOf (scan source) := by
    intro t inside
    rw [tokensOf_scan]
    exact List.mem_append_left _ inside
  intro leaf inside
  have origin := parse_leaves h leaf inside
  cases leaf with
  | token kinds t => exact ⟨origin.2, regular t origin.1⟩
  | constant c =>
    cases c with
    | number x =>
      obtain ⟨t, ht, literal⟩ := origin
      exact listable.finite t (scanned t ht) x literal
    | text s =>
      obtain ⟨t, ht, literal⟩ := origin
      have string := (regular t ht).kind_of_text s literal
      exact listable.stringless t (scanned t ht) string
    | true | false | nil => trivial

/-- If two programs, each read from a source with finite numbers and without strings, are listed the
same, then they are the same but for the numbers of nodes and the lines of tokens.  Number literals
with the same value are no different in a tree, however they are spelled. -/
theorem listing_unambiguous {s t : String} {firstId firstId' : Nat} {program program' : List Stmt}
    (hs : Listable s) (ht : Listable t)
    (read : (parse (tokensOf (scan s)) firstId).outcome = .program program)
    (read' : (parse (tokensOf (scan t)) firstId').outcome = .program program')
    (same : Stmt.listings program = Stmt.listings program') :
    Stmt.mapTokensAll Token.unplaced (Stmt.unnumberedAll program) =
      Stmt.mapTokensAll Token.unplaced (Stmt.unnumberedAll program') :=
  Stmt.eq_of_listings (hs.readable read) (ht.readable read') same


/-- The tokens of a sum that is printed, the second part of it on some line. -/
def sumTokens (spelling : String) (x : Float) (line : Nat) : List Token :=
  [⟨.kwPrint, "print", none, 1⟩, ⟨.identifier, "a", none, 1⟩, ⟨.plus, "+", none, line⟩,
    ⟨.number, spelling, some (.number x), line⟩, ⟨.semicolon, ";", none, line⟩, .closing line]

/-- The program that they are, from some number on. -/
def sumProgram (x : Float) (line id : Nat) : List Stmt :=
  [.print (.binary (.name id ⟨.identifier, "a", none, 1⟩) ⟨.plus, "+", none, line⟩
    (.constant (.number x)))]

theorem parse_sumTokens (spelling : String) (x : Float) (line id : Nat) :
    (parse (sumTokens spelling x line) id).outcome = .program (sumProgram x line id) :=
  rfl

theorem listings_sumProgram (x : Float) (line id line' id' : Nat) :
    Stmt.listings (sumProgram x line id) = Stmt.listings (sumProgram x line' id') :=
  rfl

theorem Listable.of_sum {source spelling : String} {x : Float} {line : Nat}
    (scanned : tokensOf (scan source) = sumTokens spelling x line) (finite : Number.IsFinite x) :
    Listable source where
  stringless := by
    rw [scanned]
    simp [sumTokens, Token.closing]
  finite := by
    rw [scanned]
    simpa [sumTokens, Token.closing] using finite

/-- The same sum with another line end and another spelling of its number. -/
theorem listing_unambiguous_sum :
    (parse (tokensOf (scan "print a + 1;")) 0).outcome =
        .program (sumProgram (decimalValue ['1'] []) 1 0) ∧
      (parse (tokensOf (scan "print a\n+ 1.0;")) 7).outcome =
        .program (sumProgram (decimalValue ['1'] ['0']) 2 7) ∧
      Stmt.listings (sumProgram (decimalValue ['1'] []) 1 0) =
        Stmt.listings (sumProgram (decimalValue ['1'] ['0']) 2 7) ∧
      Stmt.mapTokensAll Token.unplaced
          (Stmt.unnumberedAll (sumProgram (decimalValue ['1'] []) 1 0)) =
        Stmt.mapTokensAll Token.unplaced
          (Stmt.unnumberedAll (sumProgram (decimalValue ['1'] ['0']) 2 7)) := by
  have first : tokensOf (scan "print a + 1;") = sumTokens "1" (decimalValue ['1'] []) 1 := by
    decide +kernel
  have second : tokensOf (scan "print a\n+ 1.0;") =
      sumTokens "1.0" (decimalValue ['1'] ['0']) 2 := by
    decide +kernel
  have finite : Number.IsFinite (decimalValue ['1'] []) :=
    ⟨⟨2 ^ 52, -52, true⟩, by decide +kernel⟩
  have equal : decimalValue ['1'] ['0'] = decimalValue ['1'] [] := by decide +kernel
  rw [equal] at second ⊢
  have read := congrArg (fun ts => (parse ts 0).outcome) first
  have read' := congrArg (fun ts => (parse ts 7).outcome) second
  have same := listings_sumProgram (decimalValue ['1'] []) 1 0 2 7
  exact ⟨read.trans (parse_sumTokens ..), read'.trans (parse_sumTokens ..), same,
    listing_unambiguous (.of_sum first finite) (.of_sum second finite)
      (read.trans (parse_sumTokens ..)) (read'.trans (parse_sumTokens ..)) same⟩

end ClassScript
