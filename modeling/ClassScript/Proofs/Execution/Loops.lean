import ClassScript.Proofs.Execution.Names
import ClassScript.Proofs.Grammar.Loops

set_option autoImplicit false

/-!
# `for` loops

A `for` statement is read as a loop of other statements.  Here it has its own meaning
(`executeFor`), and executing what the parser makes of it comes to the same from every state and
however it ends.

With an initializer the loop has a scope, in which the initializer is executed once and everything
else is done.  With an increment every round has a scope within that one, so that whatever the
condition sees at some distance, the increment sees one scope farther out.
-/

namespace ClassScript

/-- What the body of the loop is read as. -/
def ForLoop.round (l : ForLoop) : Stmt :=
  match l.increment with
  | some step => .block [l.body, .expression step]
  | none => l.body

/-- What the loop without its initializer is read as. -/
def ForLoop.loop (l : ForLoop) : Stmt :=
  .whileLoop (l.condition.getD (.constant .true)) l.round

theorem ForLoop.statement_eq (l : ForLoop) :
    l.statement = match l.initializer with
      | some first => .block [first, l.loop]
      | none => l.loop := rfl

namespace Eval

/-! ## Rounds -/

section Rounds

variable {σ : Type}

/-- One action and then another, unless the first ends in a `return`. -/
def andThen (first second : Action σ Flow) : Action σ Flow := do
  match ← first with
  | .returned value => return .returned value
  | .normal => second

/-- The test before a round, which an absent condition passes. -/
def passes (evaluate : Nat → Expr → Action σ Value) (condition : Option Expr) (fuel : Nat) :
    Action σ Bool :=
  match condition with
  | some e => do return (← evaluate fuel e).isTruthy
  | none => return true

/-- An expression is evaluated for its effect. -/
def advance (evaluate : Nat → Expr → Action σ Value) (e : Expr) (fuel : Nat) : Action σ Flow := do
  let _ ← evaluate fuel e
  return .normal

/-- A test and, as long as it is passed, a round, up to the first `return`. -/
def rounds (test : Nat → Action σ Bool) (round : Nat → Action σ Flow) : Nat → Action σ Flow
  | 0 => spent
  | fuel + 1 => do
    if ← test fuel then andThen (round fuel) (rounds test round fuel) else return .normal

theorem spent_bind {α β : Type} (k : α → Action σ β) : spent >>= k = spent := rfl

@[simp] theorem spent_andThen (second : Action σ Flow) : andThen spent second = spent := rfl

/-- After an action that ends as it is, nothing is to be done. -/
@[simp] theorem andThen_normal (first : Action σ Flow) : andThen first (pure .normal) = first := by
  have same : ∀ flow : Flow, (match flow with
      | .returned value => pure (.returned value)
      | .normal => pure .normal : Action σ Flow) = pure flow := by
    rintro (_ | _) <;> rfl
  simp only [andThen, same, bind_pure]

theorem rounds_of_passes {test : Nat → Action σ Bool} {round : Nat → Action σ Flow} {fuel : Nat}
    (passed : test fuel = pure true) :
    rounds test round (fuel + 1) = andThen (round fuel) (rounds test round fuel) := by
  rw [rounds, passed]
  rfl

theorem rounds_congr {test : Nat → Action σ Bool} {round round' : Nat → Action σ Flow} {fuel : Nat}
    (same : ∀ n < fuel, round n = round' n) :
    rounds test round fuel = rounds test round' fuel := by
  induction fuel with
  | zero => rfl
  | succ fuel ih =>
    rw [rounds, rounds, same fuel (Nat.lt_succ_self fuel),
      ih fun n less => same n (Nat.lt_succ_of_lt less)]

/-- An absent condition is one that always holds. -/
theorem rounds_passes {evaluate : Nat → Expr → Action σ Value} {round : Nat → Action σ Flow}
    (condition : Option Expr) (nothing : evaluate 0 (.constant .true) = spent)
    (holds : ∀ n, evaluate (n + 1) (.constant .true) = pure (.bool true))
    (empty : round 0 = spent) (n : Nat) :
    rounds (passes evaluate (some (condition.getD (.constant .true)))) round n =
      rounds (passes evaluate condition) round n := by
  cases condition with
  | some e => rfl
  | none =>
    rw [Option.getD_none]
    induction n with
    | zero => rfl
    | succ n ih =>
      have absent : passes evaluate none n = pure true := rfl
      rw [rounds_of_passes absent]
      cases n with
      | zero =>
        -- without fuel the constant is not evaluated, but neither is the round begun
        have stops : passes evaluate (some (.constant .true)) 0 = spent := by
          rw [passes, nothing, spent_bind]
        rw [empty, spent_andThen, rounds, stops, spent_bind]
      | succ n =>
        have passed : passes evaluate (some (.constant .true)) (n + 1) = pure true := by
          rw [passes, holds]
          rfl
        rw [rounds_of_passes passed, ih]

end Rounds

/-! ## The meaning of a loop -/

/-- An action in a new scope inside the present one. -/
def inNewScope (action : Eval Flow) : Eval Flow := do
  let scope ← openScope [] (← get).current
  inScope scope action

/-- A round is the body, or in a scope for both the body and then the increment. -/
def roundFor (l : ForLoop) (fuel : Nat) : Eval Flow :=
  match l.increment, fuel with
  | none, fuel => execute fuel l.body
  | some _, 0 => spent
  | some step, fuel + 1 =>
    inNewScope (andThen (execute (fuel - 1) l.body) (advance evaluate step (fuel - 3)))

/-- The rounds of a `for` statement, once its initializer has been executed. -/
def roundsFor (l : ForLoop) : Nat → Eval Flow :=
  rounds (passes evaluate l.condition) (roundFor l)

/-- Execute a `for` statement.  The fuel is counted as for the statements that it is read as. -/
def executeFor (l : ForLoop) (fuel : Nat) : Eval Flow :=
  match l.initializer, fuel with
  | none, fuel => roundsFor l (fuel - 1)
  | some _, 0 => spent
  | some first, fuel + 1 =>
    inNewScope (andThen (execute (fuel - 1) first) (roundsFor l (fuel - 3)))

/-! ## The statements that it is read as -/

theorem execute_block (fuel : Nat) (body : List Stmt) :
    execute (fuel + 1) (.block body) = inNewScope (executeAll fuel body) := rfl

theorem execute_expression (fuel : Nat) (e : Expr) :
    execute fuel (.expression e) = advance evaluate e (fuel - 1) := by
  cases fuel <;> rfl

theorem repeatWhile_eq_rounds (fuel : Nat) (condition : Expr) (body : Stmt) :
    repeatWhile fuel condition body =
      rounds (passes evaluate (some condition)) (fun n => execute n body) fuel := by
  induction fuel with
  | zero => rfl
  | succ fuel ih =>
    rw [repeatWhile, rounds, ← ih, passes, bind_assoc]
    rfl

theorem execute_whileLoop (fuel : Nat) (condition : Expr) (body : Stmt) :
    execute fuel (.whileLoop condition body) =
      rounds (passes evaluate (some condition)) (fun n => execute n body) (fuel - 1) := by
  cases fuel with
  | zero => rfl
  | succ fuel => exact repeatWhile_eq_rounds fuel condition body

/-- Of the fuel for two statements, the second finds one step less. -/
theorem executeAll_pair (fuel : Nat) (s t : Stmt) :
    executeAll fuel [s, t] = andThen (execute (fuel - 1) s) (execute (fuel - 2) t) := by
  match fuel with
  | 0 | 1 => rfl
  | 2 =>
    change andThen (execute 1 s) (andThen spent _) = _
    rfl
  | fuel + 3 =>
    change andThen _ (andThen _ (pure .normal)) = _
    rw [andThen_normal]
    rfl

theorem execute_round (l : ForLoop) (fuel : Nat) : execute fuel l.round = roundFor l fuel := by
  unfold ForLoop.round roundFor
  cases l.increment with
  | none => rfl
  | some step =>
    cases fuel with
    | zero => rfl
    | succ fuel =>
      simp only [execute_block, executeAll_pair, execute_expression]
      rfl

theorem roundFor_zero (l : ForLoop) : roundFor l 0 = spent := by
  unfold roundFor
  cases l.increment <;> rfl

theorem execute_loop (l : ForLoop) (fuel : Nat) : execute fuel l.loop = roundsFor l (fuel - 1) := by
  unfold ForLoop.loop roundsFor
  simp only [execute_whileLoop, execute_round]
  exact rounds_passes l.condition rfl (fun _ => rfl) (roundFor_zero l) _

/-- A `for` statement is executed as it means. -/
theorem execute_for (l : ForLoop) (fuel : Nat) : execute fuel l.statement = executeFor l fuel := by
  rw [ForLoop.statement_eq]
  unfold executeFor
  cases l.initializer with
  | none => exact execute_loop l fuel
  | some first =>
    cases fuel with
    | zero => rfl
    | succ fuel =>
      simp only [execute_block, executeAll_pair, execute_loop]
      rfl

/-! ## Scopes -/

/-- Once the body of a round is done, the scope of the round is the present one.  It has no name,
and around it lies the scope in which the condition is tested. -/
theorem scope_of_round {s : Stmt} (bare : s.Bare) {fuel scope : Nat} {flow : Flow}
    {σ σ₁ σ₂ : State} (opened : openScope [] σ.current σ = .ok scope σ₁)
    (ran : execute fuel s { σ₁ with current := scope } = .ok flow σ₂) :
    σ₂.current = scope ∧ σ₂.names scope = ∅ ∧ σ₂.scopes.enclosing? scope = some σ.current := by
  have retained := (allRetain fuel).execute s { σ₁ with current := scope }
  rw [leaves_of_ok ran] at retained
  cases opened
  have here : σ.scopes.size < (σ.scopes.push [] (some σ.current)).size := by simp
  refine ⟨retained.onward.current, ?_, ?_⟩
  · refine (retained.names _ here fun not => absurd bare not).trans ?_
    ext name
    change ((σ.scopes.push [] (some σ.current)).local? σ.scopes.size name).isSome ↔ _
    simp [Scopes.local?_push]
  · refine (retained.enclosing _ here).trans ?_
    change (σ.scopes.push [] (some σ.current)).enclosing? σ.scopes.size = _
    rw [Scopes.enclosing?_push, if_pos rfl]

end Eval

namespace ForLoop

variable {l : ForLoop}

theorem declares?_statement (l : ForLoop) : l.statement.declares? = none := by
  rw [statement_eq]
  cases l.initializer <;> rfl

theorem loop_wellFormed (formed : l.statement.WellFormed) : l.loop.WellFormed := by
  rw [statement_eq] at formed
  cases first : l.initializer with
  | none => simpa only [first] using formed
  | some s =>
    simp only [first] at formed
    exact formed.2.1

theorem body_wellFormed (formed : l.statement.WellFormed) : l.body.WellFormed := by
  have round : l.round.WellFormed := (loop_wellFormed formed).1
  unfold ForLoop.round at round
  cases step : l.increment with
  | none => simpa only [step] using round
  | some e =>
    simp only [step] at round
    exact round.1

theorem retains_roundsFor (formed : l.statement.WellFormed) (fuel : Nat) :
    Retains False (Eval.roundsFor l fuel) := by
  have bare : l.loop.Bare := ⟨loop_wellFormed formed, rfl⟩
  have retained := (allRetain (fuel + 1)).execute l.loop
  rw [Eval.execute_loop] at retained
  exact retained.mono fun not => not bare

end ForLoop

end ClassScript
