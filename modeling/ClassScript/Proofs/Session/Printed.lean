import ClassScript.Proofs.Execution.Truncated
import ClassScript.Proofs.Session.Executions

set_option autoImplicit false

/-!
# The lines that a program prints

A line has the number of lines before it.  Where the output takes every line, a `print` that is
executed adds its line and nothing else, and the number of that line is taken at no other point.  So
the lines of a run are counted by the `print`s that it executes.
-/

namespace ClassScript

open Eval

/-- A point executes a `print`.  The value of its expression is found, which leaves the state in which
that value is printed. -/
inductive Prints : Point → Value → State → Prop where
  | found {fuel : Nat} {e : Expr} {v : Value} {σ τ : State} (evaluated : evaluate fuel e σ = .ok v τ) :
      Prints ⟨fuel + 1, .execute (.print e), σ⟩ v τ

namespace Prints

variable {p : Point} {v : Value} {τ : State}

theorem grows (prints : Prints p v τ) : p.state.Grows τ := by
  cases prints with
  | @found fuel e v σ τ evaluated => exact ((allProceed fuel).evaluate e).of_ok evaluated |>.grows

/-- Where the output takes every line, one is added, and nothing else is done. -/
theorem leaves (prints : Prints p v τ) (unlimited : p.state.host.capacity = none) :
    p.leaves = { τ with printed := τ.printed.push v.toText } := by
  have accepts : τ.host.accepts τ.printed.size = true := by
    rw [prints.grows.host, Host.accepts, unlimited]
  cases prints with
  | @found fuel e v σ τ evaluated =>
    have printed : Eval.print v.toText (e.line?.getD 0) τ =
        .ok ⟨⟩ { τ with printed := τ.printed.push v.toText } := by
      rw [run_print, if_pos accepts]
    exact (leaves_bind evaluated).trans (leaves_bind printed)

/-- The line takes its number there. -/
theorem takes (prints : Prints p v τ) (unlimited : p.state.host.capacity = none) :
    p.Takes .lines τ.printed.size := by
  have ends : p.leaves.next .lines = τ.printed.size + 1 := by
    rw [prints.leaves unlimited]
    exact Array.size_push _
  refine ⟨⟨prints.grows.lines, Nat.lt_of_lt_of_eq (Nat.lt_succ_self _) ends.symm⟩, ?_⟩
  cases prints with
  | found evaluated =>
    -- the only call is that which finds the value, and it is over
    intro q calls within
    cases calls
    exact absurd within.2 (Nat.not_lt.2 (precedes_of_ok evaluated (.refl _)).lines)

end Prints

/-- The lines are those of the `print`s that are executed in the course of a launched program. -/
structure Launch.PrintsEach (l : Launch) (fuel : Nat) (lines : List String) : Prop where
  /-- A `print` adds its line to those before it, and does nothing else. -/
  adds : ∀ {p v τ}, l.Reaches fuel p → Prints p v τ →
    p.leaves = { τ with printed := τ.printed.push v.toText }
  /-- Its line is among these, at the place that the number of lines before it gives. -/
  listed : ∀ {p v τ}, l.Reaches fuel p → Prints p v τ →
    ∃ i, τ.printed.size = l.session.state.printed.size + i ∧ lines[i]? = some v.toText
  /-- For each of these, there is one `print` that adds it, and no other. -/
  once : ∀ {i}, i < lines.length →
    ∃! p, l.Reaches fuel p ∧ ∃ v τ, Prints p v τ ∧ τ.printed.size = l.session.state.printed.size + i

namespace Launch.Reaches

variable {fuel : Nat} {l : Launch} {p q : Point} {v w : Value} {τ υ : State}

/-- The output of a point takes as much as that of its program. -/
theorem unlimited (reached : l.Reaches fuel p) (unlimited : l.session.state.host.capacity = none) :
    p.state.host.capacity = none := by
  rw [reached.between.1.host, unlimited]

/-- No two `print`s add the same line. -/
theorem once (reached : l.Reaches fuel p) (reached' : l.Reaches fuel q)
    (unlimited : l.session.state.host.capacity = none) (prints : Prints p v τ) (prints' : Prints q w υ)
    (same : τ.printed.size = υ.printed.size) : p = q := by
  obtain ⟨u, starts, leads⟩ := reached.root
  obtain ⟨u', starts', leads'⟩ := reached'.root
  refine starts.taker starts' leads leads' (prints.takes (reached.unlimited unlimited)) ?_
  rw [same]
  exact prints'.takes (reached'.unlimited unlimited)

/-- Before the lines that are printed later, there is that of the `print`. -/
theorem overflows (reached : l.Reaches fuel p) (unlimited : l.session.state.host.capacity = none)
    (prints : Prints p v τ) :
    Overflows τ.printed.size v τ ((interpret fuel l.program).leaves l.session.state) := by
  refine ⟨rfl, ?_⟩
  have later := reached.between.2.printed
  rwa [prints.leaves (reached.unlimited unlimited)] at later

end Launch.Reaches

end ClassScript
