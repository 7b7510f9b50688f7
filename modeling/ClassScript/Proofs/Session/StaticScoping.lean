import ClassScript.Proofs.Session.History

set_option autoImplicit false

/-!
# Sessions are statically scoped

A session comes to the same as the lexical interpreter, which has never heard of scopes or distances:
each of its programs, its output, its globals, and whether it ends at all.
-/

namespace ClassScript

open Lexical (Memory)

/-- For sources without static faults that assign no name within its own initializer, the running
program and the lexical interpreter have the same outcomes with every amount of fuel, so that the one
ends if the other does. -/
theorem static_scoping (host : Host) (natives : List Native) (runs : List (Nat × String))
    (clean : (Session.start host natives).Clean runs)
    (born : ∀ l ∈ (Session.start host natives).launches runs,
      ∀ v ∈ programVisits l.2.program, ¬v.AssignsUnborn) :
    let launches := (Session.start host natives).launches runs
    let ran := (Session.start host natives).runAll runs
    let lexical := Lexical.runAll (launches.map fun l => (l.1, l.2.program))
      (Memory.start host natives)
    lexical.1 = ran.1 ∧ lexical.2.printed = ran.2.state.printed ∧
      (∃ c : Twin, c.state = ran.2.state ∧ c.memory = lexical.2 ∧
        c.Matched (.ofLaunches launches) ∧
        ∀ name, Option.Rel (SameValue (c.view (.ofLaunches launches)))
          (ran.2.state.global? name) (lexical.2.globals.get? name)) ∧
      ∀ source l, ran.2.launch? source = some l →
        (∀ v ∈ programVisits l.program, ¬v.AssignsUnborn) →
        ((∀ fuel, (ran.2.run fuel source).1 = .outOfFuel) ↔
          ∀ fuel, (Lexical.run fuel l.program lexical.2).1 = .outOfFuel) := by
  intro launches ran lexical
  have visits : ∀ v, (World.ofLaunches launches).visited v → ¬v.AssignsUnborn := by
    rintro v ⟨l, hl, hv⟩
    exact born l hl v hv
  obtain ⟨c, tracks, same⟩ := (Tracks.start host natives).runAll clean visits
  have outcomes : lexical = (ran.1, c.memory) := same
  have state : c.state = ran.2.state := tracks.state
  rw [outcomes]
  refine ⟨rfl, ?_, ⟨c, state, rfl, tracks.matched, ?_⟩, ?_⟩
  · rw [← state]
    exact tracks.matched.effects.printed
  · intro name
    rw [← state]
    exact tracks.matched.globals name
  · intro source l launched unborn
    have same : ∀ fuel, (Lexical.run fuel l.program c.memory).1 = (ran.2.run fuel source).1 := by
      intro fuel
      have more : ∀ v, (World.ofLaunches (launches ++ [(fuel, l)])).visited v →
          ¬v.AssignsUnborn := by
        intro v hv
        exact (World.visited_append.1 hv).elim (visits v) (unborn v)
      obtain ⟨c', -, ran'⟩ := tracks.run launched more
      exact congrArg Prod.fst ran'
    exact forall_congr' fun fuel => by rw [same fuel]

/-- A function sees the global that was there at its declaration, not the local name that comes to
stand beside it. -/
def shadowing : List (Nat × String) :=
  [(20, "var a = true;"), (20, "\x7b fun show() \x7b print a; \x7d var a = false; show(); \x7d")]

theorem clean_shadowing : (Session.start .still []).Clean shadowing :=
  ⟨by decide +kernel, by decide +kernel, trivial⟩

theorem born_shadowing : ∀ l ∈ (Session.start .still []).launches shadowing,
    ∀ v ∈ programVisits l.2.program, ¬v.AssignsUnborn := by
  decide +kernel

theorem static_scoping_shadowing :
    (Lexical.runAll (((Session.start .still []).launches shadowing).map
      fun l => (l.1, l.2.program)) (Memory.start .still [])).2.printed = #["true"] := by
  have same := (static_scoping .still [] shadowing clean_shadowing born_shadowing).2.1
  have printed : ((Session.start .still []).runAll shadowing).2.state.printed = #["true"] := by
    decide +kernel
  exact same.trans printed

end ClassScript
