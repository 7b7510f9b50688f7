import ClassScript.Proofs.Execution.Flows
import ClassScript.Proofs.Session.Executions

set_option autoImplicit false

/-!
# Returns stay inside

No `return` gets out of a program that runs, and none takes a value out of an initializer.  What the
top level of a program and the call of an initializer do with a flow, namely to drop it, therefore
loses nothing.

That a function which yields its receiver is an initializer of some class is not in the text of the
program that calls it, which may be a later source than the one with the class: it is known of all
functions that a session comes to call.
-/

namespace ClassScript

theorem FunctionDecl.ReturnsIn.body {position : FunctionPosition} {f : FunctionDecl}
    (h : f.ReturnsIn position) : Stmt.ReturnsInAll position f.body := by
  cases f
  exact h

/-- A function that yields its receiver returns no value. -/
theorem SameFunction.returns {V : View} {f f' : Closure} (same : SameFunction V f f')
    (initializer : f.isInitializer = true) : f.declaration.ReturnsIn .initializer := by
  obtain ⟨sites, frames, env, -, -, known, receiver⟩ := same.scope
  obtain ⟨outer, rfl⟩ := receiver initializer
  obtain ⟨position, returns, only⟩ := known.returns
  rwa [only outer rfl, FunctionDecl.methodPosition, if_pos (same.initializer initializer)] at returns

/-- A function that is called in a session and yields its receiver returns no value. -/
theorem Closure.returns_of_reached {host : Host} {natives : List Native}
    {runs : List (Nat × String)} {n : Nat} {f : Closure} {values : List Value} {σ : State}
    (reached : (World.ofLaunches ((Session.start host natives).launches runs)).reached
      ⟨n + 1, .invoke f values, σ⟩)
    (initializer : f.isInitializer = true) : f.declaration.ReturnsIn .initializer := by
  obtain ⟨⟨fuel, l⟩, launched, reaches⟩ := reached
  obtain ⟨before, -, prepared⟩ := (Tracks.start host natives).prepared launched
  obtain ⟨c, -, -, f', values', same, -⟩ := prepared _ reaches
  exact same.returns initializer

/-- Of a program without static faults, no statement at the top level finishes with a `return`,
whatever the state, and no body of an initializer finishes with one that has a value.  In a session,
every body whose result is replaced by the receiver is such a body. -/
theorem returns_confined (host : Host) (natives : List Native) (runs : List (Nat × String)) :
    (∀ program distances, (resolve program distances).2 = [] →
      (∀ s ∈ program, ∀ fuel σ flow σ', Eval.execute fuel s σ = .ok flow σ' → flow = .normal) ∧
      ∀ f ∈ Stmt.methodsAll program, f.isInitializer = true → ∀ fuel σ flow σ',
        Eval.executeAll fuel f.body σ = .ok flow σ' → flow = .normal ∨ flow = .returned .nil) ∧
    ∀ n f values σ, (World.ofLaunches ((Session.start host natives).launches runs)).reached
        ⟨n + 1, .invoke f values, σ⟩ → f.isInitializer = true → ∀ fuel σ flow σ',
      Eval.executeAll fuel f.declaration.body σ = .ok flow σ' →
        flow = .normal ∨ flow = .returned .nil := by
  have bodies : ∀ f : FunctionDecl, f.ReturnsIn .initializer → ∀ fuel σ flow σ',
      Eval.executeAll fuel f.body σ = .ok flow σ' → flow = .normal ∨ flow = .returned .nil := by
    intro f returns fuel σ flow σ' ran
    exact (allFit fuel).executeAll returns.body σ flow σ' ran
  refine ⟨fun program distances clean => ?_, fun n f values σ reached initializer => ?_⟩
  · have returns := returnsIn_of_resolve clean
    refine ⟨fun s hs fuel σ flow σ' ran => ?_, fun f hf initializer => ?_⟩
    · exact (allFit fuel).execute (returns.of_mem s hs) σ flow σ' ran
    · have allowed := returns.methods f hf
      rw [FunctionDecl.methodPosition, if_pos initializer] at allowed
      exact bodies f allowed
  · exact bodies f.declaration (Closure.returns_of_reached reached initializer)

/-- An initializer that returns from a block, without a value. -/
def earlyInitializer : FunctionDecl where
  name := ⟨.identifier, "init", none, 1⟩
  parameters := []
  body := [.block [.returnStmt ⟨.kwReturn, "return", none, 1⟩ none]]

theorem returns_confined_early :
    earlyInitializer.isInitializer = true ∧
    (∃ σ', Eval.executeAll 4 earlyInitializer.body (State.start .still []) =
      .ok (.returned .nil) σ') ∧
    ∀ fuel σ flow σ', Eval.executeAll fuel earlyInitializer.body σ = .ok flow σ' →
      flow = .normal ∨ flow = .returned .nil := by
  have clean : (resolve [.classDecl ⟨.identifier, "A", none, 1⟩ none [earlyInitializer]]
      .empty).2 = [] := by
    decide
  obtain ⟨-, bodies⟩ := (returns_confined .still [] []).1 _ _ clean
  exact ⟨rfl, ⟨_, rfl⟩, bodies earlyInitializer List.mem_cons_self rfl⟩

end ClassScript
