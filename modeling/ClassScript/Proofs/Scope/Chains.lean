import ClassScript.Proofs.Scope.Access

set_option autoImplicit false

/-!
# Chains of scopes

Every scope lies inside another one until an outermost scope is reached.  The chain of a scope is what
is met on the way out, and looking for a name goes along it until some scope has the name.  Both are
said here without a bound on the number of steps.

If every scope but the outermost one lies inside a scope with a lower number (`RootedAt`), each scope has
a chain, which ends in the outermost scope and meets no scope twice; so looking for a name comes to an
end, at the scope that the bounded search of `owner?` finds.
-/

namespace ClassScript

namespace Scopes

variable {α : Type} {s : Scopes α}

/-! ## The way out -/

/-- The scopes from one outward, up to an outermost one. -/
inductive Chain (s : Scopes α) : Nat → List Nat → Prop where
  | outermost {f : Nat} (alone : s.enclosing? f = none) : Chain s f [f]
  | inside {f g : Nat} {fs : List Nat} (enclosed : s.enclosing? f = some g) (outward : Chain s g fs) :
      Chain s f (f :: fs)

/-- Looking for a name from a scope outward: the scopes that are met, and the one that has the name, if
any of them has. -/
inductive Search (s : Scopes α) (name : String) : Nat → List Nat → Option Nat → Prop where
  | here {f : Nat} (has : (s.local? f name).isSome) : Search s name f [f] (some f)
  | nowhere {f : Nat} (lacks : ¬(s.local? f name).isSome) (alone : s.enclosing? f = none) :
      Search s name f [f] none
  | outward {f g : Nat} {fs : List Nat} {owner : Option Nat} (lacks : ¬(s.local? f name).isSome)
      (enclosed : s.enclosing? f = some g) (further : Search s name g fs owner) :
      Search s name f (f :: fs) owner

/-- A scope has at most one chain. -/
theorem Chain.unique {f : Nat} {fs gs : List Nat} (h : s.Chain f fs) (k : s.Chain f gs) : fs = gs := by
  induction h generalizing gs with
  | outermost alone =>
    cases k with
    | outermost => rfl
    | inside enclosed => cases alone.symm.trans enclosed
  | inside enclosed _ ih =>
    cases k with
    | outermost alone => cases alone.symm.trans enclosed
    | inside enclosed' outward' =>
      cases enclosed.symm.trans enclosed'
      rw [ih outward']

/-- Along a chain, every name is looked for with an end, which is within the chain. -/
theorem Chain.exists_search {f : Nat} {fs : List Nat} (h : s.Chain f fs) (name : String) :
    ∃ met owner, s.Search name f met owner ∧ met <+: fs := by
  induction h with
  | @outermost f alone =>
    by_cases has : (s.local? f name).isSome
    · exact ⟨[f], some f, .here has, List.prefix_refl _⟩
    · exact ⟨[f], none, .nowhere has alone, List.prefix_refl _⟩
  | @inside f g fs enclosed outward ih =>
    by_cases has : (s.local? f name).isSome
    · exact ⟨[f], some f, .here has, fs, rfl⟩
    · obtain ⟨met, owner, search, within⟩ := ih
      exact ⟨f :: met, owner, .outward has enclosed search, (List.prefix_cons_inj f).2 within⟩

/-- A bounded search finds the same if the bound allows for all that is met. -/
theorem Search.ownerWithin {name : String} {f : Nat} {met : List Nat} {owner : Option Nat}
    (h : s.Search name f met owner) {count : Nat} (enough : met.length ≤ count) :
    s.ownerWithin name count f = owner := by
  induction h generalizing count with
  | here has =>
    cases count with
    | zero => cases enough
    | succ count => exact if_pos has
  | nowhere lacks alone =>
    cases count with
    | zero => cases enough
    | succ count =>
      rw [Scopes.ownerWithin, if_neg lacks, alone]
      rfl
  | outward lacks enclosed _ ih =>
    cases count with
    | zero => cases enough
    | succ count =>
      rw [Scopes.ownerWithin, if_neg lacks, enclosed]
      exact ih (Nat.le_of_succ_le_succ enough)

/-! ## Lower numbers outward -/

/-- In scopes that lie inside lower ones, a search meets no more of them than there are numbers. -/
theorem Descends.length_search (h : s.Descends) {name : String} {f : Nat} {met : List Nat}
    {owner : Option Nat} (search : s.Search name f met owner) : met.length ≤ f + 1 := by
  induction search with
  | here | nowhere => exact Nat.succ_le_succ (Nat.zero_le _)
  | outward _ enclosed _ ih =>
    have lower := h _ _ enclosed
    exact Nat.succ_le_succ (Nat.le_trans ih lower)

/-- So the bound of the dynamic way is never met. -/
theorem Descends.owner? (h : s.Descends) {name : String} {f : Nat} {met : List Nat}
    {owner : Option Nat} (search : s.Search name f met owner) : s.owner? f name = owner :=
  search.ownerWithin (h.length_search search)

/-- The numbers along a chain go down. -/
theorem Descends.chain (h : s.Descends) {f : Nat} {fs : List Nat} (chain : s.Chain f fs) :
    (∀ g ∈ fs, g ≤ f) ∧ fs.Pairwise (· > ·) := by
  induction chain with
  | outermost => exact ⟨by simp, List.pairwise_singleton _ _⟩
  | inside enclosed _ ih =>
    have lower := h _ _ enclosed
    have below : ∀ g ∈ _, g < _ := fun g mem => Nat.lt_of_le_of_lt (ih.1 g mem) lower
    refine ⟨?_, List.pairwise_cons.2 ⟨below, ih.2⟩⟩
    exact List.forall_mem_cons.2 ⟨Nat.le_refl _, fun g mem => Nat.le_of_lt (below g mem)⟩

theorem Descends.nodup (h : s.Descends) {f : Nat} {fs : List Nat} (chain : s.Chain f fs) : fs.Nodup :=
  (h.chain chain).2.imp fun lower => (Nat.ne_of_lt lower).symm

/-! ## Rooted scopes -/

/-- One scope is outermost, and every other lies inside one with a lower number. -/
structure RootedAt (s : Scopes α) (root : Nat) : Prop where
  outermost : s.enclosing? root = none
  inside : ∀ f < s.size, f ≠ root → ∃ g < f, s.enclosing? f = some g

namespace RootedAt

variable {root : Nat} (h : s.RootedAt root)
include h

theorem descends : s.Descends := by
  intro f g enclosed
  have other : f ≠ root := by
    rintro rfl
    cases h.outermost.symm.trans enclosed
  obtain ⟨g', lower, enclosed'⟩ := h.inside f (enclosing?_bound enclosed) other
  cases enclosed.symm.trans enclosed'
  exact lower

/-- From every scope the way out ends in the outermost one. -/
theorem exists_chain {f : Nat} (there : f < s.size) :
    ∃ fs, s.Chain f fs ∧ fs.getLast? = some root := by
  -- on the number of the scope, since the scope around it has a lower one
  induction f using Nat.strong_induction_on with
  | _ f ih =>
    by_cases last : f = root
    · subst last
      exact ⟨[f], .outermost h.outermost, rfl⟩
    · obtain ⟨g, lower, enclosed⟩ := h.inside f there last
      obtain ⟨fs, chain, ends⟩ := ih g lower (Nat.lt_trans lower there)
      refine ⟨f :: fs, .inside enclosed chain, ?_⟩
      rw [List.getLast?_cons, ends]
      rfl

/-- Every name is looked for with an end, and on the way no scope is met twice.  Reading and assigning
the name by the dynamic way are about the scope that is found. -/
theorem exists_search {f : Nat} (there : f < s.size) (name : String) :
    ∃ met owner, s.Search name f met owner ∧ met.Nodup ∧
      s.get? f name = (owner.bind fun g => s.local? g name) ∧
      ∀ value, s.assign? f name value = owner.map fun g => s.define g name value := by
  obtain ⟨fs, chain, -⟩ := h.exists_chain there
  obtain ⟨met, owner, search, within⟩ := chain.exists_search name
  have apart := (h.descends.nodup chain).sublist within.sublist
  have found := h.descends.owner? search
  refine ⟨met, owner, search, apart, ?_, fun value => ?_⟩
  · rw [get?, found]
  · rw [assign?, found]

end RootedAt

end Scopes

end ClassScript
