import ClassScript.Proofs.Execution.Restored
import ClassScript.Proofs.Session.History

set_option autoImplicit false

/-!
# A session is back at the globals after every source

Whatever a source does and however it ends, the next one starts in the scope of the globals.
-/

namespace ClassScript

namespace Session

/-- Where nothing is launched, at most the recorded distances change. -/
theorem state_of_launch?_eq_none (fuel : Nat) {source : String} {s : Session}
    (launched : s.launch? source = none) :
    ∃ distances, (s.run fuel source).2.state = { s.state with distances } :=
  (prepares_of_launch?_eq_none launched).state

/-- Running a program leaves the state that the program leaves. -/
theorem state_interpret (fuel : Nat) (program : List Stmt) (s : Session) :
    (s.interpret fuel program).2.state = (Eval.interpret fuel program).leaves s.state := by
  rcases leaves_cases (Eval.interpret fuel program) s.state with ⟨a, ran⟩ | ⟨i, ran⟩
  · rw [interpret_eq_ok ran]
  · rw [interpret_eq_error ran]

/-- Running a program leaves the present scope as it was. -/
theorem current_interpret (fuel : Nat) (program : List Stmt) (s : Session) :
    (s.interpret fuel program).2.state.current = s.state.current := by
  rw [state_interpret]
  exact (proceeds_interpret fuel program s.state).current

/-- So does running a source: reading and binding it touch no scope. -/
theorem current_run (fuel : Nat) (source : String) (s : Session) :
    (s.run fuel source).2.state.current = s.state.current := by
  cases launched : s.launch? source with
  | none =>
    obtain ⟨distances, same⟩ := state_of_launch?_eq_none fuel launched
    rw [same]
  | some l =>
    obtain ⟨-, -, same⟩ := launch?_eq_some launched
    rw [run_of_launch? launched, current_interpret, same]
    rfl

theorem current_runAll (runs : List (Nat × String)) (s : Session) :
    (s.runAll runs).2.state.current = s.state.current := by
  induction runs generalizing s with
  | nil => rfl
  | cons run runs ih =>
    obtain ⟨fuel, source⟩ := run
    exact (ih (s.run fuel source).2).trans (current_run fuel source s)

end Session

/-- However an expression, a call, a body, a statement or a program ends, from any state, the present
scope is the one from before.  After every source of a session it is that of the globals. -/
theorem current_restored (fuel : Nat) (σ : State) :
    (∀ e, ((Eval.evaluate fuel e).leaves σ).current = σ.current) ∧
    (∀ es, ((Eval.evaluateAll fuel es).leaves σ).current = σ.current) ∧
    (∀ f values line, ((Eval.call fuel f values line).leaves σ).current = σ.current) ∧
    (∀ f values, ((Eval.invoke fuel f values).leaves σ).current = σ.current) ∧
    (∀ s, ((Eval.execute fuel s).leaves σ).current = σ.current) ∧
    (∀ ss, ((Eval.executeAll fuel ss).leaves σ).current = σ.current) ∧
    (∀ scope body, ((Eval.inScope scope (Eval.executeAll fuel body)).leaves σ).current =
      σ.current) ∧
    (∀ condition body, ((Eval.repeatWhile fuel condition body).leaves σ).current = σ.current) ∧
    (∀ name superclass methods,
      ((Eval.declareClass name superclass methods).leaves σ).current = σ.current) ∧
    (∀ program, ((Eval.interpret fuel program).leaves σ).current = σ.current) ∧
    ∀ host natives runs,
      ((Session.start host natives).runAll runs).2.state.current = globalScope := by
  have all := allProceed fuel
  refine ⟨fun e => (all.evaluate e σ).current, fun es => (all.evaluateAll es σ).current,
    fun f values line => (all.call f values line σ).current,
    fun f values => (all.invoke f values σ).current, fun s => (all.execute s σ).current,
    fun ss => (all.executeAll ss σ).current,
    fun scope body => (Proceeds.inScope scope (all.executeAll body) σ).current,
    fun condition body => (all.repeatWhile condition body σ).current,
    fun name superclass methods => (proceeds_declareClass name superclass methods σ).current,
    fun program => (proceeds_interpret fuel program σ).current, fun host natives runs => ?_⟩
  exact Session.current_runAll runs (Session.start host natives)

end ClassScript
