import ClassScript.Proofs.Binding.Returning
import ClassScript.Proofs.Execution.Running

set_option autoImplicit false

/-!
# How statements finish

Statements that return only where their position allows finish as the position says: outside of every
function normally, in an initializer normally or by a `return` without a value.  This is so from
every state, since a call has a result and no flow: whatever is called absorbs its own returns.
-/

namespace ClassScript

open Eval

/-- How statements at a position may finish. -/
def Flow.FitsIn (position : FunctionPosition) (flow : Flow) : Prop :=
  match position with
  | .outside => flow = .normal
  | .initializer => flow = .normal ∨ flow = .returned .nil
  | .function | .method => True

theorem Flow.fitsIn_normal (position : FunctionPosition) : Flow.normal.FitsIn position := by
  cases position with
  | outside => rfl
  | initializer => exact .inl rfl
  | function | method => trivial

theorem FunctionPosition.AllowsReturn.fitsIn {position : FunctionPosition} {valued : Bool}
    (allowed : position.AllowsReturn valued) {v : Value} (bare : valued = false → v = .nil) :
    (Flow.returned v).FitsIn position := by
  cases position with
  | outside => exact absurd rfl allowed.1
  | initializer =>
    cases valued with
    | false => exact .inr (congrArg Flow.returned (bare rfl))
    | true => exact absurd rfl (allowed.2 rfl)
  | function | method => trivial

/-! ## Putting actions together -/

/-- What an action yields is as said, whatever the state. -/
def Yields {α : Type} (x : Eval α) (Q : α → Prop) : Prop :=
  ∀ σ a σ', x σ = .ok a σ' → Q a

namespace Yields

variable {α β : Type} {x : Eval α} {k : α → Eval β} {Q : α → Prop} {R : β → Prop}

protected theorem pure {a : α} (h : Q a) : Yields (pure a) Q := by
  intro σ b σ' ran
  cases ran
  exact h

theorem stopped {i : Interrupt} : Yields (throw i : Eval α) Q := by
  intro σ a σ' ran
  cases ran

protected theorem bind (first : Yields x Q) (rest : ∀ a, Q a → Yields (k a) R) :
    Yields (x >>= k) R := by
  intro σ b σ' ran
  rw [run_bind] at ran
  cases ran₁ : x σ with
  | ok a σ₁ =>
    rw [ran₁] at ran
    exact rest a (first σ a σ₁ ran₁) σ₁ b σ' ran
  | error i σ₁ =>
    rw [ran₁] at ran
    cases ran

/-- What the first action yields does not matter. -/
theorem after (rest : ∀ a, Yields (k a) R) : Yields (x >>= k) R :=
  Yields.bind (Q := fun _ => True) (fun _ _ _ _ => trivial) fun a _ => rest a

theorem inScope {scope : Nat} (h : Yields x Q) : Yields (Eval.inScope scope x) Q := by
  intro σ a σ' ran
  obtain ⟨σ₁, inside, -⟩ := inScope_eq_ok ran
  exact h _ a σ₁ inside

end Yields

/-! ## The interpreter -/

/-- With the given fuel, statements finish as their position says. -/
structure AllFit (fuel : Nat) : Prop where
  execute : ∀ {position} {s : Stmt}, s.ReturnsIn position →
    Yields (execute fuel s) (Flow.FitsIn position)
  executeAll : ∀ {position ss}, Stmt.ReturnsInAll position ss →
    Yields (executeAll fuel ss) (Flow.FitsIn position)
  repeatWhile : ∀ {position condition} {body : Stmt}, body.ReturnsIn position →
    Yields (repeatWhile fuel condition body) (Flow.FitsIn position)

namespace AllFit

variable {fuel : Nat} {position : FunctionPosition} (h : AllFit fuel)
include h

theorem execute_succ {s : Stmt} (returns : s.ReturnsIn position) :
    Yields (Eval.execute (fuel + 1) s) (Flow.FitsIn position) := by
  have finished : Yields (pure .normal) (Flow.FitsIn position) := .pure (Flow.fitsIn_normal position)
  cases s with
  | expression value => exact .after fun _ => finished
  | print value => exact .after fun _ => .after fun _ => finished
  | varDecl name initializer =>
    have defined : ∀ v, Yields (define name.lexeme v >>= fun _ => pure .normal)
        (Flow.FitsIn position) :=
      fun v => .after fun _ => finished
    cases initializer with
    | none => exact .after defined
    | some e => exact .after defined
  | block body => exact .after fun _ => .after fun _ => .inScope (h.executeAll returns)
  | ifThen condition thenBranch =>
    refine .after fun v => ?_
    split
    · exact h.execute returns
    · exact finished
  | ifElse condition thenBranch elseBranch =>
    refine .after fun v => ?_
    split
    · exact h.execute returns.1
    · exact h.execute returns.2
  | whileLoop condition body => exact h.repeatWhile returns
  | funDecl declaration => exact .after fun _ => .after fun _ => .after fun _ => finished
  | returnStmt keyword value =>
    cases value with
    | none => exact .pure (returns.fitsIn fun _ => rfl)
    | some e => exact .after fun v => .pure (returns.fitsIn nofun)
  | classDecl name superclass methods =>
    have declared : ∀ parent,
        Yields (declareClass name parent methods >>= fun _ => pure .normal)
          (Flow.FitsIn position) :=
      fun parent => .after fun _ => finished
    cases superclass with
    | none => exact declared none
    | some e =>
      refine .after fun v => ?_
      cases v with
      | ofClass c => exact declared (some c)
      | nil | bool | number | text | native | function | bound | object =>
        exact fun _ _ _ ran => nomatch ran

/-- The first statement that returns ends them all, and its flow is theirs. -/
theorem executeAll_succ {ss : List Stmt} (returns : Stmt.ReturnsInAll position ss) :
    Yields (Eval.executeAll (fuel + 1) ss) (Flow.FitsIn position) := by
  cases ss with
  | nil => exact .pure (Flow.fitsIn_normal position)
  | cons s ss =>
    refine (h.execute returns.1).bind fun flow fits => ?_
    cases flow with
    | returned v => exact .pure fits
    | normal => exact h.executeAll returns.2

/-- The first round that returns ends the loop, and its flow is that of the loop. -/
theorem repeatWhile_succ {condition : Expr} {body : Stmt} (returns : body.ReturnsIn position) :
    Yields (Eval.repeatWhile (fuel + 1) condition body) (Flow.FitsIn position) := by
  refine .after fun v => ?_
  split
  · refine (h.execute returns).bind fun flow fits => ?_
    cases flow with
    | returned v => exact .pure fits
    | normal => exact h.repeatWhile returns
  · exact .pure (Flow.fitsIn_normal position)

end AllFit

theorem allFit (fuel : Nat) : AllFit fuel := by
  induction fuel with
  | zero => exact ⟨fun _ => .stopped, fun _ => .stopped, fun _ => .stopped⟩
  | succ fuel h => exact ⟨h.execute_succ, h.executeAll_succ, h.repeatWhile_succ⟩

end ClassScript
