import ClassScript.Proofs.Execution.Invariant
import ClassScript.Proofs.Session.Restored

set_option autoImplicit false

/-!
# The executions of a session

All that a session launches is one execution: its points are those of the programs, and every scope
is opened at one of them only, as every instance is made at one.  An invariant that holds before the
first source holds at every point and after every source.
-/

namespace ClassScript

/-! ## Numbers are given once -/

/-- Every point of a program that was launched lies below one of its statements. -/
theorem Launch.Reaches.root {fuel : Nat} {l : Launch} {p : Point} (reached : l.Reaches fuel p) :
    ∃ u, Starts fuel l.program l.session.state u ∧ LeadsTo u p := by
  induction reached with
  | start starts => exact ⟨_, starts, .refl⟩
  | call _ calls ih =>
    obtain ⟨u, starts, leads⟩ := ih
    exact ⟨u, starts, leads.tail calls⟩

/-- It begins and is done while the program runs. -/
theorem Launch.Reaches.between {fuel : Nat} {l : Launch} {p : Point} (reached : l.Reaches fuel p) :
    l.session.state.Grows p.state ∧
      p.leaves.Grows ((Eval.interpret fuel l.program).leaves l.session.state) := by
  induction reached with
  | start starts => exact (works_interpret fuel l.program l.session.state).between.2 _ starts
  | call _ calls ih => exact ⟨ih.1.trans calls.begins, calls.ends.trans ih.2⟩

namespace Session

variable {s : Session} {runs : List (Nat × String)} {fuel fuel' : Nat} {l l' : Launch}
  {source : String} {series : Series}

/-- A source launches its program with the scopes and instances of the session. -/
theorem next_of_launch? (h : s.launch? source = some l) (series : Series) :
    l.session.state.next series = s.state.next series := by
  obtain ⟨-, -, same⟩ := launch?_eq_some h
  rw [same]
  cases series <;> rfl

/-- Running a source takes no scope and no instance away. -/
theorem next_run (fuel : Nat) (source : String) (s : Session) (series : Series) :
    s.state.next series ≤ (s.run fuel source).2.state.next series := by
  cases launched : s.launch? source with
  | none =>
    obtain ⟨distances, same⟩ := state_of_launch?_eq_none fuel launched
    rw [same]
    cases series <;> exact Nat.le_refl _
  | some l =>
    rw [run_of_launch? launched, state_interpret, ← next_of_launch? launched]
    exact (proceeds_interpret fuel l.program l.session.state).grows.next series

/-- A program is launched by the first source or by a later one. -/
theorem mem_launches_cons :
    (fuel, l) ∈ s.launches ((fuel', source) :: runs) ↔
      (fuel = fuel' ∧ s.launch? source = some l) ∨
        (fuel, l) ∈ (s.run fuel' source).2.launches runs := by
  rw [launches, List.mem_append]
  apply or_congr_left
  cases s.launch? source with
  | none => simp
  | some l' => simp [eq_comm]

/-- What is launched later starts with more scopes and instances. -/
theorem next_launches (launched : (fuel, l) ∈ s.launches runs) (series : Series) :
    s.state.next series ≤ l.session.state.next series := by
  induction runs generalizing s with
  | nil => cases launched
  | cons run runs ih =>
    obtain ⟨fuel', source⟩ := run
    rcases mem_launches_cons.1 launched with ⟨-, launches⟩ | later
    · rw [next_of_launch? launches]
    · exact Nat.le_trans (next_run fuel' source s series) (ih later)

/-- A point gives its numbers while its program runs. -/
theorem spans_of_launch? {p : Point} {n : Nat} (launches : s.launch? source = some l)
    (reached : l.Reaches fuel p) (spans : p.Spans series n) :
    s.state.next series ≤ n ∧ n < (s.run fuel source).2.state.next series := by
  obtain ⟨begins, ends⟩ := reached.between
  rw [run_of_launch? launches, state_interpret, ← next_of_launch? launches]
  exact ⟨Nat.le_trans (begins.next series) spans.1,
    Nat.lt_of_lt_of_le spans.2 (ends.next series)⟩

theorem le_of_spans {p : Point} {n : Nat} (launched : (fuel, l) ∈ s.launches runs)
    (reached : l.Reaches fuel p) (spans : p.Spans series n) : s.state.next series ≤ n := by
  have begins := reached.between.1
  exact Nat.le_trans (next_launches launched series) (Nat.le_trans (begins.next series) spans.1)

/-- In a whole session, a number is given at one point only. -/
theorem taker {p q : Point} {n : Nat}
    (launched : (fuel, l) ∈ s.launches runs) (launched' : (fuel', l') ∈ s.launches runs)
    (reached : l.Reaches fuel p) (reached' : l'.Reaches fuel' q) (takes : p.Takes series n)
    (takes' : q.Takes series n) : p = q := by
  induction runs generalizing s with
  | nil => cases launched
  | cons run runs ih =>
    obtain ⟨fuel₀, source⟩ := run
    rcases mem_launches_cons.1 launched with ⟨rfl, launches⟩ | later <;>
      rcases mem_launches_cons.1 launched' with ⟨rfl, launches'⟩ | later'
    · cases launches.symm.trans launches'
      obtain ⟨u, starts, leads⟩ := reached.root
      obtain ⟨v, starts', leads'⟩ := reached'.root
      exact starts.taker starts' leads leads' takes takes'
    · exact absurd (spans_of_launch? launches reached takes.spans).2
        (Nat.not_lt.2 (le_of_spans later' reached' takes'.spans))
    · exact absurd (spans_of_launch? launches' reached' takes'.spans).2
        (Nat.not_lt.2 (le_of_spans later reached takes.spans))
    · exact ih later later'

theorem le_of_opens {p : Point} {f : Nat} {site : Site} (launched : (fuel, l) ∈ s.launches runs)
    (reached : l.Reaches fuel p) (opens : Opens p f site) : s.state.scopes.size ≤ f :=
  le_of_spans launched reached opens.spans

/-- In a whole session, a scope is opened at one point only. -/
theorem opener {p q : Point} {f : Nat} {site site' : Site}
    (launched : (fuel, l) ∈ s.launches runs) (launched' : (fuel', l') ∈ s.launches runs)
    (reached : l.Reaches fuel p) (reached' : l'.Reaches fuel' q) (opens : Opens p f site)
    (opens' : Opens q f site') : p = q :=
  taker launched launched' reached reached' opens.takes opens'.takes

end Session

/-- What is launched is as the parser makes it. -/
theorem Session.formed_of_launches {s : Session} {runs : List (Nat × String)} {fuel : Nat}
    {l : Launch} (launched : (fuel, l) ∈ s.launches runs) : Stmt.WellFormedAll l.program := by
  induction runs generalizing s with
  | nil => cases launched
  | cons run runs ih =>
    rcases mem_launches_cons.1 launched with ⟨-, launches⟩ | later
    · exact (read_program (launch?_eq_some launches).1).2
    · exact ih later

namespace Session

/-- What is launched by sources after others is launched in the session that those leave. -/
theorem launches_append (s : Session) (before after : List (Nat × String)) :
    s.launches (before ++ after) = s.launches before ++ (s.runAll before).2.launches after := by
  induction before generalizing s with
  | nil => rfl
  | cons run rest ih =>
    obtain ⟨fuel, source⟩ := run
    rw [List.cons_append, launches, launches, ih, List.append_assoc]
    rfl

/-- A state that a session comes to: where a point of a program begins or is done, or between two
sources. -/
inductive ComesTo (s : Session) (runs : List (Nat × String)) : State → Prop where
  | at_ {fuel : Nat} {l : Launch} {p : Point} (launched : (fuel, l) ∈ s.launches runs)
      (reached : l.Reaches fuel p) : ComesTo s runs p.state
  | after {fuel : Nat} {l : Launch} {p : Point} (launched : (fuel, l) ∈ s.launches runs)
      (reached : l.Reaches fuel p) : ComesTo s runs p.leaves
  | between {before rest : List (Nat × String)} (split : before ++ rest = runs) :
      ComesTo s runs (s.runAll before).2.state

end Session

/-! ## The executions of a session -/

section Proper

variable {W : World} {p : Point}

/-- Whatever a point is about to write is a name. -/
theorem Point.Prepared.proper (h : p.Prepared W) : p.Proper := by
  obtain ⟨fuel, task, σ⟩ := p
  obtain ⟨c, -, m, ready⟩ := h
  cases task with
  | evaluate e =>
    obtain ⟨sites, frames, env, ready⟩ := ready
    intro r hr
    obtain ⟨seen, visited, -⟩ := ready.refers r (Expr.mem_references_of_reference? hr)
    exact (m.settled _ visited).2.1
  | invoke f values =>
    obtain ⟨f', values', same, -⟩ := ready
    obtain ⟨sites, frames, env, -, -, known, -⟩ := same.scope
    obtain ⟨⟨name, parameters, body⟩, scope, isInitializer⟩ := f
    exact known.formed.2.1
  | execute s =>
    obtain ⟨sites, frames, env, -, known⟩ := ready
    have formed := known.formed
    intro t ht
    cases s <;> cases ht
    · exact formed
    · exact FunctionDecl.FormedBy.name formed
    · exact formed.1
  | evaluateAll | call | executeAll | repeatWhile => trivial

end Proper

/-- The points of all programs that a session launches. -/
def Execution.ofSession (host : Host) (natives : List Native) (runs : List (Nat × String)) :
    Execution where
  reached := (World.ofLaunches ((Session.start host natives).launches runs)).reached
  calls := World.calls _
  proper := by
    rintro p ⟨⟨fuel, l⟩, launched, reached⟩
    obtain ⟨before, -, prepared⟩ := (Tracks.start host natives).prepared launched
    exact (prepared p reached).proper

/-! ## Invariants of a session -/

section Obeys

variable {R : Point → Prop} {I : Invariant R} {s : Session} {runs : List (Nat × String)} {fuel : Nat}
  {l : Launch} {source : String}

namespace Session

/-- Reading and binding keep an invariant. -/
theorem state_launch? (holds : I.state s.state) (launches : s.launch? source = some l) :
    I.state l.session.state := by
  obtain ⟨-, -, same⟩ := launch?_eq_some launches
  rw [same]
  exact I.congr holds rfl rfl rfl

/-- So does running a program, if its statements are known where they start. -/
theorem state_run (holds : I.state s.state) (fuel : Nat) (source : String)
    (known : ∀ l, s.launch? source = some l →
      ∀ q, Starts fuel l.program l.session.state q → R q) :
    I.state (s.run fuel source).2.state := by
  cases launches : s.launch? source with
  | none =>
    obtain ⟨distances, same⟩ := state_of_launch?_eq_none fuel launches
    rw [same]
    exact I.congr holds rfl rfl rfl
  | some l =>
    rw [run_of_launch? launches, state_interpret]
    exact (keeps_interpret I (state_launch? holds launches) (known l launches)).leaves

/-- The statements of all programs are known where they start. -/
def StartsIn (R : Point → Prop) (s : Session) (runs : List (Nat × String)) : Prop :=
  ∀ fuel l, (fuel, l) ∈ s.launches runs → ∀ q, Starts fuel l.program l.session.state q → R q

/-- An invariant holds where a program is launched, and after all of them. -/
theorem state_runAll (holds : I.state s.state) (known : s.StartsIn R runs) :
    (∀ fuel l, (fuel, l) ∈ s.launches runs → I.state l.session.state) ∧
      I.state (s.runAll runs).2.state := by
  induction runs generalizing s with
  | nil => exact ⟨fun fuel l launched => (nomatch launched), holds⟩
  | cons run runs ih =>
    obtain ⟨fuel', source⟩ := run
    have first := state_run holds fuel' source fun l launches =>
      known fuel' l (mem_launches_cons.2 (.inl ⟨rfl, launches⟩))
    obtain ⟨later, after⟩ := ih first fun fuel l launched =>
      known fuel l (mem_launches_cons.2 (.inr launched))
    refine ⟨fun fuel l launched => ?_, after⟩
    rcases mem_launches_cons.1 launched with ⟨-, launches⟩ | launched
    · exact state_launch? holds launches
    · exact later fuel l launched

/-- From the statements, what is known and the invariant reach every point. -/
theorem obeys_of_launches (holds : I.state s.state) (known : s.StartsIn R runs)
    (launched : (fuel, l) ∈ s.launches runs) {p : Point} (reached : l.Reaches fuel p) :
    R p ∧ p.Obeys I := by
  have before := (state_runAll holds known).1 _ _ launched
  induction reached with
  | start starts =>
    exact ⟨known _ _ launched _ starts, .of_starts before (known _ _ launched) starts⟩
  | call _ calls ih => exact ⟨ih.2.reaches ih.1 calls, ih.2.calls ih.1 calls⟩

/-- And every state that the session comes to. -/
theorem ComesTo.obeys {σ : State} (comes : s.ComesTo runs σ) (holds : I.state s.state)
    (known : s.StartsIn R runs) : I.state σ := by
  cases comes with
  | at_ launched reached => exact (obeys_of_launches holds known launched reached).2.state
  | after launched reached =>
    obtain ⟨there, obeys⟩ := obeys_of_launches holds known launched reached
    exact obeys.leaves there
  | @between before rest split =>
    refine (state_runAll holds fun fuel l launched => known fuel l ?_).2
    rw [← split, launches_append]
    exact List.mem_append_left _ launched

end Session

end Obeys

section OfSession

variable {host : Host} {natives : List Native} {runs : List (Nat × String)}

theorem Execution.reached_ofSession {fuel : Nat} {l : Launch}
    (launched : (fuel, l) ∈ (Session.start host natives).launches runs) {p : Point}
    (reached : l.Reaches fuel p) : (Execution.ofSession host natives runs).reached p :=
  ⟨(fuel, l), launched, reached⟩

theorem Execution.startsIn_ofSession :
    (Session.start host natives).StartsIn (Execution.ofSession host natives runs).reached runs :=
  fun _ _ launched _ starts => reached_ofSession launched (.start starts)

variable {I : Invariant (Execution.ofSession host natives runs).reached}
  (start : I.state (State.start host natives))
include start

/-- An invariant holds at every point of a session. -/
theorem Point.Obeys.of_session {fuel : Nat} {l : Launch} {p : Point}
    (launched : (fuel, l) ∈ (Session.start host natives).launches runs)
    (reached : l.Reaches fuel p) : p.Obeys I :=
  (Session.obeys_of_launches start Execution.startsIn_ofSession launched reached).2

theorem Point.Obeys.of_reached {p : Point}
    (reached : (Execution.ofSession host natives runs).reached p) : p.Obeys I := by
  obtain ⟨⟨fuel, l⟩, launched, reaches⟩ := reached
  exact .of_session start launched reaches

/-- An invariant holds of every state that a session comes to. -/
theorem Invariant.state_of_comesTo {σ : State}
    (comes : (Session.start host natives).ComesTo runs σ) : I.state σ :=
  comes.obeys start Execution.startsIn_ofSession

end OfSession

end ClassScript
