import ClassScript.Proofs.Execution.Links
import ClassScript.Proofs.Session.Receivers

set_option autoImplicit false

/-!
# From every scope to the globals

Whatever a session has run and wherever it is, the scopes form a tree with the globals at its root: each
lies for ever where it was opened, inside one that was opened before it.
-/

namespace ClassScript

section Linked

variable {host : Host} {natives : List Native} {runs : List (Nat × String)}

theorem State.linked_ofSession {σ : State} (comes : (Session.start host natives).ComesTo runs σ) :
    σ.Linked (.ofSession host natives runs) :=
  Invariant.state_of_comesTo (I := .linking (.ofSession host natives runs))
    (State.Linked.start host natives) comes

/-- A session opens a scope of one number at one point only, inside one other scope. -/
theorem Nests.unique_ofSession {p q : Point} {f g g' : Nat}
    (reached : (Execution.ofSession host natives runs).reached p)
    (reached' : (Execution.ofSession host natives runs).reached q)
    (nests : Nests p f g) (nests' : Nests q f g') : q = p ∧ g' = g := by
  obtain ⟨site, opens⟩ := nests.opens
  obtain ⟨site', opens'⟩ := nests'.opens
  obtain rfl : q = p := Execution.single_ofSession.opener reached' reached opens' opens
  exact ⟨rfl, (nests'.unique nests).2⟩

end Linked

/-- **Scope chains are acyclic and rooted in the globals.**  In every state that a session comes to, the
scopes that can still be come to are all there.  From each scope that is there one way leads out, and it
ends in the globals and meets no scope twice.  So looking for a name by the dynamic way, to read it or to
assign it, comes to an end and meets no scope twice.  Every scope but that of the globals was opened at
one point, inside a scope with a lower number, that is, one that was opened before, and it lies inside
that scope in every state in which it is there. -/
theorem chains_reach_globals (host : Host) (natives : List Native) (runs : List (Nat × String)) :
    let s := Session.start host natives
    let W := World.ofLaunches (s.launches runs)
    (∀ σ, s.ComesTo runs σ → ∀ f, σ.Live f → f < σ.scopes.size) ∧
    (∀ σ, s.ComesTo runs σ → ∀ f < σ.scopes.size,
      (∃ fs, σ.scopes.Chain f fs ∧ (∀ gs, σ.scopes.Chain f gs → gs = fs) ∧
        fs.getLast? = some globalScope ∧ fs.Nodup) ∧
      ∀ name, ∃ met owner, σ.scopes.Search name f met owner ∧ met.Nodup ∧
        σ.scopes.get? f name = (owner.bind fun g => σ.scopes.local? g name) ∧
        ∀ value, σ.scopes.assign? f name value =
          owner.map fun g => σ.scopes.define g name value) ∧
    ∀ σ, s.ComesTo runs σ → ∀ f < σ.scopes.size, f ≠ globalScope →
      ∃ p g, W.reached p ∧ Nests p f g ∧ g < f ∧
        (∀ q g', W.reached q → Nests q f g' → q = p ∧ g' = g) ∧
        ∀ σ', s.ComesTo runs σ' → f < σ'.scopes.size → σ'.scopes.enclosing? f = some g := by
  intro s W
  refine ⟨fun σ comes f live => (State.linked_ofSession comes).live live, ?_, ?_⟩
  · intro σ comes f there
    have rooted := (State.linked_ofSession comes).rooted
    obtain ⟨fs, chain, ends⟩ := rooted.exists_chain there
    refine ⟨⟨fs, chain, fun gs chain' => chain'.unique chain, ends, ?_⟩, fun name => ?_⟩
    · exact rooted.descends.nodup chain
    · exact rooted.exists_search there name
  · intro σ comes f there other
    obtain ⟨p, g, reached, nests, lower, -⟩ := (State.linked_ofSession comes).links f there other
    refine ⟨p, g, reached, nests, lower, fun q g' reached' nests' =>
      Nests.unique_ofSession reached reached' nests nests', fun σ' comes' there' => ?_⟩
    -- in the other state too the scope lies where it was opened, and that was at the same point
    obtain ⟨q, g', reached', nests', -, enclosed⟩ :=
      (State.linked_ofSession comes').links f there' other
    obtain ⟨-, rfl⟩ := Nests.unique_ofSession reached reached' nests nests'
    exact enclosed

end ClassScript
