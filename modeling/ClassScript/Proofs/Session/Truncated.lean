import ClassScript.Proofs.Session.Printed

set_option autoImplicit false

/-!
# A source whose output is cut short

What an output takes has no part in reading and binding a source, so that a source launches the same
program whatever the output takes.  That program then runs to the end, or up to the first line too
many.
-/

namespace ClassScript

namespace Session

/-- The session with an output that takes so many lines in all, or every line. -/
def withCapacity (capacity : Option Nat) (s : Session) : Session :=
  { s with state := s.state.withCapacity capacity }

variable {s : Session} {source : String} (capacity : Option Nat)

/-- With another output, the same program is launched. -/
theorem launch?_withCapacity {l : Launch} (launched : s.launch? source = some l) :
    (s.withCapacity capacity).launch? source =
      some ⟨l.program, l.session.withCapacity capacity⟩ := by
  obtain ⟨read, silent, same⟩ := launch?_eq_some launched
  have session : l.session = ((s.read source).2.resolve l.program).2 := by rw [same]
  rw [session]
  exact launch?_of_read read silent

/-- Where nothing is launched, the output has no part. -/
theorem run_withCapacity (fuel : Nat) (launched : s.launch? source = none) :
    (s.withCapacity capacity).run fuel source =
      ((s.run fuel source).1, (s.run fuel source).2.withCapacity capacity) := by
  have reads : (s.withCapacity capacity).read source =
      ((s.read source).1, (s.read source).2.withCapacity capacity) := rfl
  unfold launch? at launched
  unfold run
  rw [reads]
  cases was : s.read source with
  | mk outcome s₁ =>
    rw [was] at launched
    cases outcome with
    | rejected faults => rfl
    | exhausted => rfl
    | program program =>
      have binds : (s₁.withCapacity capacity).resolve program =
          ((s₁.resolve program).1, (s₁.resolve program).2.withCapacity capacity) := rfl
      dsimp only at launched ⊢
      rw [binds]
      cases bound : s₁.resolve program with
      | mk faults s₂ =>
        rw [bound] at launched
        cases faults with
        | nil => cases launched
        | cons => rfl

/-- What is launched starts with what was printed before, in the present scope and with the output
that there was. -/
theorem state_of_launch? {l : Launch} (launched : s.launch? source = some l) :
    l.session.state.printed = s.state.printed ∧ l.session.state.current = s.state.current ∧
      l.session.state.host = s.state.host := by
  obtain ⟨-, -, same⟩ := launch?_eq_some launched
  rw [same]
  exact ⟨rfl, rfl, rfl⟩

/-- A program that prints no more than the output takes runs as if it took every line. -/
theorem interpret_withCapacity {limit fuel : Nat} {program : List Stmt} (s : Session)
    (unlimited : s.state.host.capacity = none)
    (fits : ((Eval.interpret fuel program).leaves s.state).printed.size ≤ limit) :
    (s.withCapacity (some limit)).interpret fuel program =
      ((s.interpret fuel program).1, (s.interpret fuel program).2.withCapacity (some limit)) := by
  have same : Eval.interpret fuel program (s.withCapacity (some limit)).state =
      endingWith (some limit) (Eval.interpret fuel program s.state) :=
    (truncates_interpret limit fuel program s.state).within unlimited fits
  cases ran : Eval.interpret fuel program s.state with
  | ok a σ =>
    rw [ran] at same
    rw [interpret_eq_ok ran, interpret_eq_ok same]
    rfl
  | error i σ =>
    rw [ran] at same
    rw [interpret_eq_error ran, interpret_eq_error same]
    rfl

end Session

/-- While an expression is about to be printed in the course of a launched program, a point of its
execution prints it. -/
theorem AboutToPrint.reached {fuel : Nat} {l : Launch} {p : Point} {e : Expr} {v : Value} {τ : State}
    (prints : AboutToPrint p e v τ) (reached : l.Reaches fuel p) :
    ∃ n σ, l.Reaches fuel ⟨n + 1, .execute (.print e), σ⟩ ∧ Eval.evaluate n e σ = .ok v τ := by
  induction prints with
  | here evaluated => exact ⟨_, _, reached, evaluated⟩
  | called calls _ ih => exact ih (reached.call calls)

/-- What was printed up to the line that is next. -/
theorem Overflows.lines {before lines : List String} {n : Nat} {v : Value} {τ σ : State}
    (h : Overflows (before.length + n) v τ σ) (printed : σ.printed.toList = before ++ lines) :
    τ.printed.toList = before ++ lines.take n ∧ lines[n]? = some v.toText := by
  obtain ⟨rest, split⟩ := h.next
  rw [Array.toList_push, List.append_assoc, printed] at split
  have length : τ.printed.toList.length = before.length + n := h.full
  constructor
  · have taken := congrArg (List.take (before.length + n)) split
    rwa [List.take_left' length, List.take_length_add_append] at taken
  · have dropped := congrArg (List.drop (before.length + n)) split
    rw [List.drop_left' length, List.drop_length_add_append] at dropped
    rw [← List.head?_drop, ← dropped]
    rfl

theorem State.size_of_added {σ σ' : State} {lines : List String}
    (added : σ'.printed.toList = σ.printed.toList ++ lines) :
    σ'.printed.size = σ.printed.size + lines.length := by
  have lengths := congrArg List.length added
  rwa [List.length_append] at lengths

/-- Where the output takes every line, the lines that a launched program adds are those of the
`print`s that it executes. -/
theorem Launch.printsEach {fuel : Nat} {l : Launch} {lines : List String}
    (unlimited : l.session.state.host.capacity = none)
    (added : ((Eval.interpret fuel l.program).leaves l.session.state).printed.toList =
      l.session.state.printed.toList ++ lines) : l.PrintsEach fuel lines where
  adds reached prints := prints.leaves (reached.unlimited unlimited)
  listed {p v τ} reached prints := by
    have later : l.session.state.printed.size ≤ τ.printed.size :=
      (reached.between.1.trans prints.grows).lines
    obtain ⟨i, place⟩ := Nat.exists_eq_add_of_le later
    have overflows := reached.overflows unlimited prints
    rw [place] at overflows
    exact ⟨i, place, (overflows.lines added).2⟩
  once {i} less := by
    have cut := truncates_interpret (l.session.state.printed.size + i) fuel l.program l.session.state
    have size := State.size_of_added added
    obtain ⟨e, v, τ, ⟨q, starts, about⟩, overflows, -⟩ :=
      cut.beyond unlimited (Nat.le_add_right _ i) (by omega)
    obtain ⟨k, σ, reached, evaluated⟩ := about.reached (.start starts)
    refine ⟨_, ⟨reached, v, τ, .found evaluated, overflows.full⟩, ?_⟩
    rintro p ⟨reached', w, υ, prints, place⟩
    exact reached'.once reached unlimited prints (.found evaluated) (place.trans overflows.full.symm)

/-- Compare a source under an output that takes every line with the same source under an output that
takes `n` lines of it.  Where every line is taken, it prints one line for each `print` that it
executes.  If these are no more than `n`, it runs the same.  Otherwise it fails at the `print` that has
`n` lines before it, once its value is found, having printed the first `n` lines.  Then the globals,
scopes, fields and all else are as they were at that moment, but for the present scope, which is again
the one from before. -/
theorem run_truncated (s : Session) (fuel n : Nat) (source : String) :
    let limit := s.state.printed.size + n
    let whole := (s.withCapacity none).run fuel source
    let short := (s.withCapacity (some limit)).run fuel source
    ∃ lines : List String,
      whole.2.state.printed.toList = s.state.printed.toList ++ lines ∧
      (match (s.withCapacity none).launch? source with
        | none => lines = []
        | some l => l.PrintsEach fuel lines) ∧
      (lines.length ≤ n → short = (whole.1, whole.2.withCapacity (some limit))) ∧
      (n < lines.length →
        short.2.state.printed.toList = s.state.printed.toList ++ lines.take n ∧
        ∃ l k e v σ τ, (s.withCapacity none).launch? source = some l ∧
          l.Reaches fuel ⟨k + 1, .execute (.print e), σ⟩ ∧ Eval.evaluate k e σ = .ok v τ ∧
          τ.printed.size = limit ∧ lines[n]? = some v.toText ∧
          short.1 = .failed ⟨.outputFull, e.line?.getD 0⟩ ∧
          short.2.state =
            { τ.withCapacity (some limit) with current := s.state.current }) := by
  intro limit whole short
  cases launched : (s.withCapacity none).launch? source with
  | none =>
    obtain ⟨distances, same⟩ := Session.state_of_launch?_eq_none fuel launched
    have equal : short = (whole.1, whole.2.withCapacity (some limit)) :=
      Session.run_withCapacity (some limit) fuel launched
    refine ⟨[], ?_, rfl, fun _ => equal, fun more => absurd more (Nat.not_lt_zero n)⟩
    rw [List.append_nil, same]
    rfl
  | some l =>
    obtain ⟨same, current, host⟩ := Session.state_of_launch? launched
    have printed : l.session.state.printed = s.state.printed := same
    have cut := truncates_interpret limit fuel l.program l.session.state
    have unlimited : l.session.state.host.capacity = none := by rw [host]; rfl
    have first : whole = l.session.interpret fuel l.program := Session.run_of_launch? launched
    have second : short =
        (l.session.withCapacity (some limit)).interpret fuel l.program :=
      Session.run_of_launch? (Session.launch?_withCapacity (some limit) launched)
    obtain ⟨lines, split⟩ := cut.onward.grows.printed
    have each : l.PrintsEach fuel lines := Launch.printsEach unlimited split.symm
    have size := State.size_of_added split.symm
    rw [printed] at split size
    refine ⟨lines, ?_, each, fun few => ?_, fun many => ?_⟩
    · rw [first, Session.state_interpret, ← split]
    · rw [first, second]
      exact l.session.interpret_withCapacity unlimited (by omega)
    · have room : l.session.state.printed.size ≤ limit := by
        rw [printed]
        exact Nat.le_add_right _ n
      obtain ⟨e, v, τ, ⟨p, starts, prints⟩, overflows, stops⟩ :=
        cut.beyond unlimited room (by omega)
      obtain ⟨k, σ, reached, evaluated⟩ := prints.reached (.start starts)
      obtain ⟨taken, next⟩ := overflows.lines split.symm
      have stopped : short = (.failed ⟨.outputFull, e.line?.getD 0⟩,
          { l.session with
            state := { τ.withCapacity (some limit) with current := s.state.current } }) := by
        rw [second, Session.interpret_eq_error stops, current]
        rfl
      rw [stopped]
      exact ⟨taken, l, k, e, v, σ, τ, rfl, reached, evaluated, overflows.full, next, rfl, rfl⟩

example :
    let (outcome, s) :=
      ((Session.start .still []).withCapacity (some 1)).run 9 "print nil; print true; print nil;"
    outcome.summary = "Output error: sink full" ∧ s.state.printed = #["nil"] := by
  decide +kernel

end ClassScript
