import ClassScript.Proofs.Execution.Names
import ClassScript.Proofs.Session.Executions

set_option autoImplicit false

/-!
# The names of the globals

A global is there because the host put it there, or because a statement of a program, not one within
another, declared it: the statement was executed, and its initializer had a value, or its superclass
was a class.  Nothing else that a session does gives or takes a global name, at whatever depth it is
done and however it ends.
-/

namespace ClassScript

/-- At the start, the names of the globals are those of the functions of the host. -/
theorem names_start (host : Host) (natives : List Native) (name : String) :
    name ∈ (State.start host natives).names globalScope ↔ ∃ f ∈ natives, f.name = name := by
  change ((Bindings.ofPairs (natives.map fun f => (f.name, Value.native f))).get? name).isSome ↔ _
  rw [Bindings.get?_ofPairs, Option.isSome_map, List.find?_isSome]
  simp

namespace Session

variable {s : Session} {fuel : Nat} {source : String} {l : Launch}

/-- The session is between two sources: the globals are there and are the present scope. -/
structure Resting (s : Session) : Prop where
  current : s.state.current = globalScope
  there : globalScope < s.state.scopes.size

theorem resting_start (host : Host) (natives : List Native) :
    (Session.start host natives).Resting :=
  ⟨rfl, Nat.zero_lt_one⟩

theorem Resting.run (h : s.Resting) (fuel : Nat) (source : String) :
    (s.run fuel source).2.Resting :=
  ⟨(current_run fuel source s).trans h.current,
    Nat.lt_of_lt_of_le h.there (next_run fuel source s .scopes)⟩

theorem Resting.runAll (h : s.Resting) (runs : List (Nat × String)) :
    (s.runAll runs).2.Resting := by
  induction runs generalizing s with
  | nil => exact h
  | cons run runs ih => exact ih (h.run run.1 run.2)

/-- A program is launched where the session rests. -/
theorem Resting.launch (h : s.Resting) (launched : s.launch? source = some l) :
    l.session.Resting ∧ l.session.state.names globalScope = s.state.names globalScope := by
  obtain ⟨-, -, same⟩ := launch?_eq_some launched
  rw [same]
  exact ⟨⟨h.current, h.there⟩, rfl⟩

/-- A source adds to the names of the globals what the statements of its program establish. -/
theorem names_run (h : s.Resting) (fuel : Nat) (source name : String) :
    name ∈ (s.run fuel source).2.state.names globalScope ↔
      name ∈ s.state.names globalScope ∨
        ∃ l, s.launch? source = some l ∧
          ∃ p, Starts fuel l.program l.session.state p ∧ p.Establishes name := by
  cases launched : s.launch? source with
  | none =>
    obtain ⟨distances, same⟩ := state_of_launch?_eq_none fuel launched
    rw [same]
    refine (or_iff_left ?_).symm
    rintro ⟨l, launches, -⟩
    cases launches
  | some l =>
    obtain ⟨rests, names⟩ := h.launch launched
    have formed := (read_program (launch?_eq_some launched).1).2
    have here : l.session.state.current < l.session.state.scopes.size := by
      rw [rests.current]
      exact rests.there
    have program : name ∈ ((Eval.interpret fuel l.program).leaves l.session.state).names _ ↔ _ :=
      names_interpret formed here name
    rw [rests.current] at program
    rw [run_of_launch? launched, state_interpret, program, names]
    simp

/-- After any sources, the globals have the names of the host and what the programs of the sources
established. -/
theorem names_runAll (h : s.Resting) (runs : List (Nat × String)) (name : String) :
    name ∈ (s.runAll runs).2.state.names globalScope ↔
      name ∈ s.state.names globalScope ∨
        ∃ fuel l, (fuel, l) ∈ s.launches runs ∧
          ∃ p, Starts fuel l.program l.session.state p ∧ p.Establishes name := by
  induction runs generalizing s with
  | nil => simp [Session.runAll, launches]
  | cons run runs ih =>
    obtain ⟨fuel, source⟩ := run
    change name ∈ ((s.run fuel source).2.runAll runs).2.state.names globalScope ↔ _
    rw [ih (h.run fuel source), names_run h, or_assoc]
    refine or_congr_right ⟨?_, ?_⟩
    · rintro (⟨l, launched, establishes⟩ | ⟨fuel', l, launched, establishes⟩)
      · exact ⟨fuel, l, mem_launches_cons.2 (.inl ⟨rfl, launched⟩), establishes⟩
      · exact ⟨fuel', l, mem_launches_cons.2 (.inr launched), establishes⟩
    · rintro ⟨fuel', l, launched, establishes⟩
      rcases mem_launches_cons.1 launched with ⟨rfl, here⟩ | later
      · exact .inl ⟨l, here, establishes⟩
      · exact .inr ⟨fuel', l, later, establishes⟩

end Session

/-! ## At every depth -/

section Points

variable {fuel : Nat} {program : List Stmt} {σ : State} {p : Point}

/-- Where a program starts a statement, it is back in the scope that it started in. -/
theorem Starts.statement (formed : Stmt.WellFormedAll program) (starts : Starts fuel program σ p) :
    ∃ s σ', p = ⟨fuel, .execute s, σ'⟩ ∧ s.WellFormed ∧ σ.Onward σ' := by
  induction starts with
  | here s ss σ => exact ⟨s, σ, rfl, formed.1, .refl σ⟩
  | later first _ ih =>
    obtain ⟨s, σ', rfl, formed', onward⟩ := ih formed.2
    exact ⟨s, σ', rfl, formed', (((allProceed _).execute _).of_ok first).trans onward⟩

/-- A point is the start of a statement of the program, or it declares nothing in the globals. -/
theorem Launch.Reaches.spares {l : Launch} (rests : l.session.Resting)
    (formed : Stmt.WellFormedAll l.program) (reached : l.Reaches fuel p) :
    Starts fuel l.program l.session.state p ∨ p.Spares globalScope := by
  induction reached with
  | start starts => exact .inl starts
  | call _ calls ih =>
    rcases ih with starts | spares
    · obtain ⟨s, σ', rfl, formed, onward⟩ := starts.statement formed
      exact .inr (.of_statement formed (Nat.lt_of_lt_of_le rests.there onward.size) calls)
    · exact .inr (spares.calls calls)

/-- At every point, the globals gain the name that the point establishes if it is the start of a
statement of the program, and none otherwise. -/
theorem Launch.Reaches.names {l : Launch} (rests : l.session.Resting)
    (formed : Stmt.WellFormedAll l.program) (reached : l.Reaches fuel p) (name : String) :
    name ∈ p.leaves.names globalScope ↔
      name ∈ p.state.names globalScope ∨
        Starts fuel l.program l.session.state p ∧ p.Establishes name := by
  have here : Starts fuel l.program l.session.state p → p.state.current = globalScope := by
    intro starts
    obtain ⟨s, σ', rfl, -, onward⟩ := starts.statement formed
    exact onward.current.trans rests.current
  rcases reached.spares rests formed with starts | spares
  · have current := here starts
    obtain ⟨s, σ', rfl, formed, onward⟩ := starts.statement formed
    have there : σ'.current < σ'.scopes.size := by
      rw [current]
      exact Nat.lt_of_lt_of_le rests.there onward.size
    have gains : Point.Gains ⟨fuel, .execute s, σ'⟩ σ'.current := gains_execute formed there
    have gains := gains name
    rw [show σ'.current = globalScope from current] at gains
    rw [gains, and_iff_right starts]
  · rw [spares.names, or_iff_left]
    rintro ⟨starts, establishes⟩
    rw [← here starts] at spares
    exact spares.not_establishes establishes

end Points

/-- In a session, the globals only gain the names of declarations that were executed as statements of
a program, and whose initializer had a value or whose superclass was a class.  They have these after
any sources, and the next source adds the names that the statements of its program establish; at
every other point of its execution, at whatever depth, the names stay what they are. -/
theorem global_names (host : Host) (natives : List Native) (runs : List (Nat × String)) :
    let s₀ := Session.start host natives
    let s := (s₀.runAll runs).2
    (∀ name, name ∈ s.state.names globalScope ↔
      (∃ f ∈ natives, f.name = name) ∨
        ∃ fuel l, (fuel, l) ∈ s₀.launches runs ∧
          ∃ p, Starts fuel l.program l.session.state p ∧ p.Establishes name) ∧
    ∀ fuel source,
      (∀ name, name ∈ (s.run fuel source).2.state.names globalScope ↔
        name ∈ s.state.names globalScope ∨
          ∃ l, s.launch? source = some l ∧
            ∃ p, Starts fuel l.program l.session.state p ∧ p.Establishes name) ∧
      ∀ l p, s.launch? source = some l → l.Reaches fuel p →
        ∀ name, name ∈ p.leaves.names globalScope ↔
          name ∈ p.state.names globalScope ∨
            Starts fuel l.program l.session.state p ∧ p.Establishes name := by
  intro s₀ s
  have start : s₀.Resting := Session.resting_start host natives
  have rests : s.Resting := start.runAll runs
  refine ⟨fun name => ?_, fun fuel source => ⟨Session.names_run rests fuel source, ?_⟩⟩
  · rw [Session.names_runAll start, ← names_start host natives name]
    rfl
  · intro l p launched reached name
    have formed := (Session.read_program (Session.launch?_eq_some launched).1).2
    exact reached.names (rests.launch launched).1 formed name

end ClassScript
