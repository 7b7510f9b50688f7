import ClassScript.Proofs.Execution.Creation
import ClassScript.Proofs.Execution.Raised
import ClassScript.Proofs.Grammar.Leaves
import ClassScript.Proofs.Session.Executions
import ClassScript.Proofs.Session.Rejected
import ClassScript.Proofs.Token.Lines

set_option autoImplicit false

/-!
# The lines of errors

A run fails at a point of the program that it launched.  Whatever is executed there, in a function
however far from its call, is of the text of the source, so the tokens there, which place the error,
are tokens of the source and lie on its lines.  Only an output that takes no more lines has no line
to report where the value of a constant is printed, because constants keep no token: that error is
placed at line zero, which no source has.
-/

namespace ClassScript

open Eval

variable {s : Session} {fuel : Nat} {source : String} {l : Launch} {e : RuntimeError}

/-- What is launched has all its leaves from the tokens of the source. -/
theorem Session.leaves_of_launch? (launches : s.launch? source = some l) :
    AllFrom (bodyOf source) (Stmt.leavesAll l.program) := by
  have read := (launch?_eq_some launches).1
  unfold Session.read at read
  dsimp only at read
  split at read
  · rename_i program parsed
    split at read
    · cases read
      exact parse_leaves parsed
    · cases read
  · cases read
  · cases read

/-- The line is that of a token of the source, the closing one apart. -/
def IsLineOf (source : String) (line : Nat) : Prop :=
  ∃ t ∈ bodyOf source, t.line = line

/-- All lines of a program that is launched are lines of the source. -/
theorem Session.lines_of_launch? (launches : s.launch? source = some l) :
    ∀ line ∈ linesIn (Stmt.leavesAll l.program), IsLineOf source line := by
  intro line placed
  obtain ⟨leaf, inside, located⟩ := List.mem_filterMap.1 placed
  have origin := leaves_of_launch? launches leaf inside
  cases leaf with
  | token kinds t =>
    cases located
    exact ⟨t, origin.1, rfl⟩
  | constant c => cases located

/-- A run that fails has launched a program, which is stopped by the error. -/
theorem Session.launch_of_failed (failed : (s.run fuel source).1 = .failed e) :
    ∃ l σ, s.launch? source = some l ∧
      Eval.interpret fuel l.program l.session.state = .error (.error e) σ := by
  cases launches : s.launch? source with
  | none =>
    have rejected := isRejected_of_launch?_eq_none launches fuel
    rw [failed] at rejected
    cases rejected
  | some l =>
    rw [run_of_launch? launches] at failed
    cases ran : Eval.interpret fuel l.program l.session.state with
    | ok u σ =>
      rw [interpret_eq_ok ran] at failed
      cases failed
    | error i σ =>
      rw [interpret_eq_error ran] at failed
      cases i with
      | error other =>
        cases failed
        exact ⟨l, σ, rfl, ran⟩
      | outOfFuel | malformed => cases failed

/-- The program of a single source is all that is launched. -/
theorem Session.mem_launches_single {fuel' : Nat} {l' : Launch} :
    (fuel', l') ∈ s.launches [(fuel, source)] ↔ fuel' = fuel ∧ s.launch? source = some l' := by
  rw [mem_launches_cons]
  exact or_iff_left (List.not_mem_nil)

section Start

variable {host : Host} {natives : List Native}

/-- Wherever a new session comes to in running a source, the lines at hand are lines of the source:
those of the tokens there, and that of the call that is under way. -/
theorem Launch.Reaches.lines {p : Point}
    (launches : (Session.start host natives).launch? source = some l) (reached : l.Reaches fuel p) :
    ∀ line ∈ p.task.lines, IsLineOf source line := by
  have launched : (fuel, l) ∈ (Session.start host natives).launches [(fuel, source)] :=
    Session.mem_launches_single.2 ⟨rfl, launches⟩
  have known : (Session.start host natives).StartsIn (Point.Shows .lines (IsLineOf source))
      [(fuel, source)] := by
    intro fuel' l' launched' q starts
    obtain ⟨-, launches'⟩ := Session.mem_launches_single.1 launched'
    exact starts.shows (Session.lines_of_launch? launches')
  have start : (Session.start host natives).state.Holds (Value.Shows .lines (IsLineOf source)) :=
    .shows_start host natives
  exact (Session.obeys_of_launches (I := .shows .lines (IsLineOf source)) start known launched
    reached).1

/-- An error that a run of a new session fails with is raised at a point that the run comes to. -/
theorem Session.raised_of_failed
    (failed : ((Session.start host natives).run fuel source).1 = .failed e) :
    ∃ l p, (Session.start host natives).launch? source = some l ∧ l.Reaches fuel p ∧
      Raises p e := by
  obtain ⟨l, σ, launches, ran⟩ := launch_of_failed failed
  let X := Execution.ofSession host natives [(fuel, source)]
  have launched : (fuel, l) ∈ (Session.start host natives).launches [(fuel, source)] :=
    mem_launches_single.2 ⟨rfl, launches⟩
  have start : State.Present X (Session.start host natives).state :=
    State.Present.start host natives
  have present := state_launch? (I := .present X) start launches
  have keeps := keeps_interpret (I := (Invariant.present X).raised) present
    (Execution.startsIn_ofSession fuel l launched)
  obtain ⟨p, ⟨⟨fuel', l'⟩, launched', reached⟩, raises⟩ := keeps.stops _ _ ran
  obtain ⟨rfl, launches'⟩ := mem_launches_single.1 launched'
  exact ⟨l', p, launches', reached, raises⟩

end Start

/-- If a source fails in a new session, whatever the host, the error is placed on the line of one of
the tokens of the source, so that the line lies between the first and the last; or else the output
took no more lines, the error is placed at line zero, and a point of the run prints a constant, as it
is or in parentheses.  An output can only show in whether it takes the next line, because the run
ends where it does not: so all outputs are the same as one that takes some number of lines. -/
theorem error_line_of_source (host : Host) (natives : List Native) (fuel : Nat) (source : String)
    (e : RuntimeError) (failed : ((Session.start host natives).run fuel source).1 = .failed e) :
    (1 ≤ e.line ∧ e.line ≤ linesOf source ∧ ∃ t ∈ bodyOf source, t.line = e.line) ∨
    (e = ⟨.outputFull, 0⟩ ∧ ∃ l n value σ, (Session.start host natives).launch? source = some l ∧
      l.Reaches fuel ⟨n, .execute (.print value), σ⟩ ∧ value.line? = none) := by
  obtain ⟨l, p, launches, reached, raises⟩ := Session.raised_of_failed failed
  rcases raises.line with placed | ⟨full, value, printed, unplaced⟩
  · left
    obtain ⟨t, ht, same⟩ := reached.lines launches _ placed
    have within := line_bodyOf source t ht
    rw [same] at within
    exact ⟨within.1, within.2, t, ht, same⟩
  · right
    obtain ⟨n, task, σ⟩ := p
    obtain rfl : task = .execute (.print value) := printed
    exact ⟨full, l, n, value, σ, launches, reached, unplaced⟩

/-- An output that takes no line reports line zero where the word for nothing is printed. -/
theorem error_line_of_constant :
    ((Session.start { Host.still with capacity := some 0 } []).run 9 "print nil;").1 =
      .failed ⟨.outputFull, 0⟩ ∧
    ∃ l n value σ, (Session.start { Host.still with capacity := some 0 } []).launch? "print nil;" =
        some l ∧
      l.Reaches 9 ⟨n, .execute (.print value), σ⟩ ∧ value.line? = none := by
  have failed : ((Session.start { Host.still with capacity := some 0 } []).run 9 "print nil;").1 =
      .failed ⟨.outputFull, 0⟩ := by
    cbv
  rcases error_line_of_source _ _ _ _ _ failed with ⟨first, -⟩ | ⟨-, prints⟩
  · exact absurd first (Nat.not_succ_le_zero 0)
  · exact ⟨failed, prints⟩

end ClassScript
