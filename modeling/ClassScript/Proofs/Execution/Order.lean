import ClassScript.Proofs.Execution.Points
import ClassScript.Proofs.Execution.Restored
import Mathlib.Logic.Relation

set_option autoImplicit false

/-!
# Points follow one another

An execution opens its scopes one after the other, and each is numbered by how many there were before.
So every point has a stretch of numbers to itself: those of the scopes that it opens, or that points
opened which it called.  What is called lies within, and of two calls of one point the first is over
when the second begins.  Hence a scope is opened at one point only.

Instances are numbered in the same way, and so are the lines that are printed; what is said here of
numbers holds of all three series.
-/

namespace ClassScript

open Eval Relation

/-! ## Where a point leads -/

/-- The state that is left once a point is done, whether it ends well or not. -/
def Point.leaves (p : Point) : State :=
  match p.task with
  | .evaluate e => (evaluate p.fuel e).leaves p.state
  | .evaluateAll es => (evaluateAll p.fuel es).leaves p.state
  | .call f values line => (call p.fuel f values line).leaves p.state
  | .invoke f values => (invoke p.fuel f values).leaves p.state
  | .execute s => (execute p.fuel s).leaves p.state
  | .executeAll ss => (executeAll p.fuel ss).leaves p.state
  | .repeatWhile condition body => (repeatWhile p.fuel condition body).leaves p.state

theorem Point.onward (p : Point) : p.state.Onward p.leaves := by
  obtain ⟨fuel, task, σ⟩ := p
  have all := allProceed fuel
  cases task with
  | evaluate e => exact all.evaluate e σ
  | evaluateAll es => exact all.evaluateAll es σ
  | call f values line => exact all.call f values line σ
  | invoke f values => exact all.invoke f values σ
  | execute s => exact all.execute s σ
  | executeAll ss => exact all.executeAll ss σ
  | repeatWhile condition body => exact all.repeatWhile condition body σ

/-- What is numbered in the order in which it is made. -/
inductive Series where
  | scopes
  | objects
  | lines

/-- The next number of a series. -/
def State.next (σ : State) : Series → Nat
  | .scopes => σ.scopes.size
  | .objects => σ.fields.size
  | .lines => σ.printed.size

theorem State.Grows.next {σ σ' : State} (h : σ.Grows σ') (series : Series) :
    σ.next series ≤ σ'.next series := by
  cases series with
  | scopes => exact h.size
  | objects => exact h.fields
  | lines => exact h.lines

/-- The numbers that are given while a point is at work. -/
def Point.Spans (series : Series) (p : Point) (n : Nat) : Prop :=
  p.state.next series ≤ n ∧ n < p.leaves.next series

/-- A point gives a number itself, and it does not do so by a call. -/
structure Point.Takes (series : Series) (p : Point) (n : Nat) : Prop where
  spans : p.Spans series n
  apart : ∀ q, Calls p q → ¬q.Spans series n

/-! ## Points in turn -/

/-- The first point is done when the second begins. -/
def Point.Precedes (p q : Point) : Prop :=
  p.leaves.Grows q.state

/-- Between two states, points are at work one after the other. -/
inductive InTurn : State → State → (Point → Prop) → Prop where
  | done {σ σ' : State} {C : Point → Prop} (grows : σ.Grows σ') (none : ∀ q, ¬C q) :
      InTurn σ σ' C
  | next {σ σ' : State} {C D : Point → Prop} (p : Point) (begins : σ.Grows p.state)
      (split : ∀ q, C q → q = p ∨ D q) (rest : InTurn p.leaves σ' D) : InTurn σ σ' C

namespace InTurn

variable {p q : Point} {σ σ' σ₀ : State} {C : Point → Prop}

/-- Each of them begins and is done between the two states. -/
theorem between (h : InTurn σ σ' C) :
    σ.Grows σ' ∧ ∀ q, C q → σ.Grows q.state ∧ q.leaves.Grows σ' := by
  induction h with
  | done grows none => exact ⟨grows, fun q hq => absurd hq (none q)⟩
  | next p begins split rest ih =>
    obtain ⟨after, inside⟩ := ih
    have through := begins.trans p.onward.grows
    refine ⟨through.trans after, fun q hq => ?_⟩
    rcases split q hq with rfl | later
    · exact ⟨begins, after⟩
    · exact ⟨through.trans (inside q later).1, (inside q later).2⟩

/-- Of two of them, one is over when the other begins. -/
theorem ordered (h : InTurn σ σ' C) (hp : C p) (hq : C q) :
    p = q ∨ p.Precedes q ∨ q.Precedes p := by
  induction h with
  | done _ none => exact absurd hp (none p)
  | next first begins split rest ih =>
    rcases split p hp with rfl | hp
    · rcases split q hq with rfl | hq
      · exact .inl rfl
      · exact .inr (.inl (rest.between.2 q hq).1)
    · rcases split q hq with rfl | hq
      · exact .inr (.inr (rest.between.2 p hp).1)
      · exact ih hp hq

/-- Fewer points are in turn from an earlier state too. -/
theorem weaken {B : Point → Prop} (h : InTurn σ σ' C) (grows : σ₀.Grows σ)
    (fewer : ∀ q, B q → C q) : InTurn σ₀ σ' B := by
  cases h with
  | done grows' none => exact .done (grows.trans grows') fun q hq => none q (fewer q hq)
  | next p begins split rest =>
    exact .next p (grows.trans begins) (fun q hq => split q (fewer q hq)) rest

end InTurn

/-- Run from a state, an action has points at work one after the other. -/
def Works {α : Type} (x : Eval α) (σ : State) (C : Point → Prop) : Prop :=
  InTurn σ (x.leaves σ) C

namespace Works

variable {α β : Type} {x : Eval α} {k : α → Eval β} {σ : State} {C : Point → Prop}
  {D : α → State → Point → Prop} {p : Point}

/-- An action that has no point at work. -/
theorem quiet (proceeds : Proceeds x) (none : ∀ q, ¬C q) : Works x σ C :=
  .done (proceeds σ).grows none

/-- An action that has one point at work. -/
theorem single (begins : σ.Grows p.state) (ends : p.leaves.Grows (x.leaves σ))
    (only : ∀ q, C q → q = p) : Works x σ C :=
  .next (D := fun _ => False) p begins (fun q hq => .inl (only q hq)) (.done ends fun _ => id)

/-- An action that is the work of one point. -/
theorem whole (leads : p.leaves = x.leaves p.state) (only : ∀ q, C q → q = p) :
    Works x p.state C := by
  refine .single (.refl _) ?_ only
  rw [leads]
  exact .refl _

/-- The work of one point, and what follows it has none at work. -/
theorem before (leads : p.leaves = x.leaves p.state) (only : ∀ q, C q → q = p)
    (rest : ∀ a, Proceeds (k a)) : Works (x >>= k) p.state C := by
  refine .single (.refl _) ?_ only
  rw [leads]
  exact (Proceeds.first rest _).grows

/-- The work of one point, and then that of others if it ends well. -/
protected theorem bind (leads : p.leaves = x.leaves p.state)
    (split : ∀ q, C q → q = p ∨ ∃ a σ₁, x p.state = .ok a σ₁ ∧ D a σ₁ q)
    (rest : ∀ a σ₁, Works (k a) σ₁ (D a σ₁)) : Works (x >>= k) p.state C := by
  rcases leaves_cases x p.state with ⟨a, ran⟩ | ⟨i, ran⟩
  · refine .next (D := D a p.leaves) p (.refl _) (fun q hq => (split q hq).imp_right ?_) ?_
    · rintro ⟨b, σ₁, ran', hq⟩
      cases ran.symm.trans ran'
      rwa [leads]
    · rw [leads, leaves_bind ran]
      exact rest a _
  · refine .single (.refl _) ?_ fun q hq => (split q hq).resolve_right ?_
    · rw [leads, leaves_of_error (run_bind_error k ran)]
      exact .refl _
    · rintro ⟨b, σ₁, ran', -⟩
      cases ran.symm.trans ran'

/-- A step that has no point at work, and then the work of others if it ends well. -/
theorem after (proceeds : Proceeds x) (split : ∀ q, C q → ∃ a σ₁, x σ = .ok a σ₁ ∧ D a σ₁ q)
    (rest : ∀ a σ₁, Works (k a) σ₁ (D a σ₁)) : Works (x >>= k) σ C := by
  rcases leaves_cases x σ with ⟨a, ran⟩ | ⟨i, ran⟩
  · refine InTurn.weaken (C := D a (x.leaves σ)) ?_ (proceeds σ).grows fun q hq => ?_
    · rw [leaves_bind ran]
      exact rest a _
    · obtain ⟨b, σ₁, ran', hq⟩ := split q hq
      cases ran.symm.trans ran'
      exact hq
  · refine .done ?_ fun q hq => ?_
    · rw [leaves_of_error (run_bind_error k ran)]
      exact (proceeds σ).grows
    · obtain ⟨b, σ₁, ran', -⟩ := split q hq
      cases ran.symm.trans ran'

end Works

/-! ## Calls

The equations of the evaluator run their steps one after the other, and the calls of a point are read
off in that order. -/

theorem checkArity_ok {expected : Nat} {values : List Value} {line : Nat} {σ : State}
    (arity : values.length = expected) : checkArity expected values line σ = .ok ⟨⟩ σ := by
  unfold checkArity
  rw [if_pos arity]
  rfl

section Works

variable {fuel : Nat} {σ : State}

theorem works_evaluate (e : Expr) :
    Works (evaluate (fuel + 1) e) σ (Calls ⟨fuel + 1, .evaluate e, σ⟩) := by
  cases e with
  | constant | name | this | super =>
    refine .quiet ((allProceed (fuel + 1)).evaluate _) fun q calls => ?_
    cases calls
  | grouping inner =>
    refine .whole (p := ⟨fuel, .evaluate inner, σ⟩) rfl fun q calls => ?_
    cases calls
    rfl
  | unary operator operand =>
    refine .before (p := ⟨fuel, .evaluate operand, σ⟩) rfl (fun q calls => ?_) fun v =>
      Proceeds.compositional.applyUnary v operator
    cases calls
    rfl
  | binary left operator right =>
    refine .bind (p := ⟨fuel, .evaluate left, σ⟩)
      (D := fun _ σ₁ q => q = ⟨fuel, .evaluate right, σ₁⟩) rfl (fun q calls => ?_)
      fun a σ₁ => ?_
    · cases calls with
      | binaryLeft => exact .inl rfl
      | binaryRight first => exact .inr ⟨_, _, first, rfl⟩
    · exact .before (p := ⟨fuel, .evaluate right, σ₁⟩) rfl (fun _ => id) fun b =>
        Proceeds.compositional.applyBinary operator a b
  | logical left operator right =>
    refine .bind (p := ⟨fuel, .evaluate left, σ⟩)
      (D := fun a σ₁ q => decides operator a = false ∧ q = ⟨fuel, .evaluate right, σ₁⟩) rfl
      (fun q calls => ?_) fun a σ₁ => ?_
    · cases calls with
      | logicalLeft => exact .inl rfl
      | logicalRight first undecided => exact .inr ⟨_, _, first, undecided, rfl⟩
    · split
      · rename_i decided
        exact .quiet (.pure a) fun q hq => absurd (decided.symm.trans hq.1) (by decide)
      · exact .whole (p := ⟨fuel, .evaluate right, σ₁⟩) rfl fun q hq => hq.2
  | assign id target value =>
    refine .before (p := ⟨fuel, .evaluate value, σ⟩) rfl (fun q calls => ?_) fun v =>
      .bind (proceeds_assign target v id) fun _ => .pure v
    cases calls
    rfl
  | call callee closing arguments =>
    refine .bind (p := ⟨fuel, .evaluate callee, σ⟩)
      (D := fun f σ₁ q => q = ⟨fuel, .evaluateAll arguments, σ₁⟩ ∨
        ∃ values σ₂, evaluateAll fuel arguments σ₁ = .ok values σ₂ ∧
          q = ⟨fuel, .call f values closing.line, σ₂⟩) rfl (fun q calls => ?_) fun f σ₁ => ?_
    · cases calls with
      | callee => exact .inl rfl
      | arguments first => exact .inr ⟨_, _, first, .inl rfl⟩
      | call first second => exact .inr ⟨_, _, first, .inr ⟨_, _, second, rfl⟩⟩
    · exact .bind (p := ⟨fuel, .evaluateAll arguments, σ₁⟩) rfl (fun _ => id)
        fun values σ₂ => .whole (p := ⟨fuel, .call f values closing.line, σ₂⟩) rfl
          fun _ => id
  | get object name =>
    refine .before (p := ⟨fuel, .evaluate object, σ⟩) rfl (fun q calls => ?_) fun v => ?_
    · cases calls
      rfl
    · split
      · exact Proceeds.compositional.property name _
      · exact .fail _ _
  | set object name value =>
    refine .bind (p := ⟨fuel, .evaluate object, σ⟩)
      (D := fun v σ₁ q => (∃ o, v = .object o) ∧ q = ⟨fuel, .evaluate value, σ₁⟩) rfl
      (fun q calls => ?_) fun v σ₁ => ?_
    · cases calls with
      | setObject => exact .inl rfl
      | setValue first => exact .inr ⟨_, _, first, ⟨_, rfl⟩, rfl⟩
    · split
      · exact .before (p := ⟨fuel, .evaluate value, σ₁⟩) rfl (fun q hq => hq.2) fun v =>
          .bind (proceeds_setField v _ _) fun _ => .pure v
      · rename_i other
        exact .quiet (.fail _ _) fun q hq => hq.1.elim other

theorem works_evaluateAll (es : List Expr) :
    Works (evaluateAll (fuel + 1) es) σ (Calls ⟨fuel + 1, .evaluateAll es, σ⟩) := by
  cases es with
  | nil =>
    refine .quiet (.pure _) fun q calls => ?_
    cases calls
  | cons e es =>
    refine .bind (p := ⟨fuel, .evaluate e, σ⟩)
      (D := fun _ σ₁ q => q = ⟨fuel, .evaluateAll es, σ₁⟩) rfl (fun q calls => ?_)
      fun a σ₁ => ?_
    · cases calls with
      | head => exact .inl rfl
      | tail first => exact .inr ⟨_, _, first, rfl⟩
    · exact .before (p := ⟨fuel, .evaluateAll es, σ₁⟩) rfl (fun _ => id) fun _ => .pure _

theorem works_call (f : Value) (values : List Value) (line : Nat) :
    Works (call (fuel + 1) f values line) σ (Calls ⟨fuel + 1, .call f values line, σ⟩) := by
  cases f with
  | function _ f =>
    refine .after (D := fun _ σ₁ q => q = ⟨fuel, .invoke f values, σ₁⟩)
      (Proceeds.compositional.checkArity _ _ _) (fun q calls => ?_) fun _ σ₁ => ?_
    · cases calls with
      | function arity => exact ⟨_, _, checkArity_ok arity, rfl⟩
    · exact .whole (p := ⟨fuel, .invoke f values, σ₁⟩) rfl fun _ => id
  | bound _ f =>
    refine .after (D := fun _ σ₁ q => q = ⟨fuel, .invoke f values, σ₁⟩)
      (Proceeds.compositional.checkArity _ _ _) (fun q calls => ?_) fun _ σ₁ => ?_
    · cases calls with
      | method arity => exact ⟨_, _, checkArity_ok arity, rfl⟩
    · exact .whole (p := ⟨fuel, .invoke f values, σ₁⟩) rfl fun _ => id
  | ofClass c =>
    -- the method that is found is received by the instance that was made
    let received (o : Object) (σ₁ : State) (q : Point) : Prop :=
      ∃ method f σ₂, c.findMethod? initializerName = some method ∧
        receive method o σ₁ = .ok f σ₂ ∧ q = ⟨fuel, .invoke f values, σ₂⟩
    refine .after (D := fun _ σ₀ q => ∃ o σ₁, allocate c σ₀ = .ok o σ₁ ∧ received o σ₁ q)
      (Proceeds.compositional.checkArity _ _ _) (fun q calls => ?_) fun _ σ₀ => ?_
    · cases calls with
      | initializer arity made found taken =>
        exact ⟨_, _, checkArity_ok arity, _, _, made, _, _, _, found, taken, rfl⟩
    refine .after (D := received) (proceeds_allocate c) (fun _ => id) fun o σ₁ => ?_
    cases found : c.findMethod? initializerName with
    | none =>
      refine .quiet (.pure _) ?_
      rintro q ⟨_, _, _, found', -⟩
      cases found.symm.trans found'
    | some method =>
      refine .after (D := fun f σ₂ q => q = ⟨fuel, .invoke f values, σ₂⟩)
        (Proceeds.compositional.receive method o) ?_ fun f σ₂ => ?_
      · rintro q ⟨_, f, σ₂, found', taken, same⟩
        cases found.symm.trans found'
        exact ⟨f, σ₂, taken, same⟩
      · exact .before (p := ⟨fuel, .invoke f values, σ₂⟩) rfl (fun _ => id) fun _ => .pure _
  | native | nil | bool | number | text | object =>
    refine .quiet ((allProceed (fuel + 1)).call _ values line) fun q calls => ?_
    cases calls

theorem works_invoke (f : Closure) (values : List Value) :
    Works (invoke (fuel + 1) f values) σ (Calls ⟨fuel + 1, .invoke f values, σ⟩) := by
  refine .after (D := fun scope σ₁ q =>
    q = ⟨fuel, .executeAll f.declaration.body, { σ₁ with current := scope }⟩)
    (proceeds_openScope _ _) (fun q calls => ?_) fun scope σ₁ => ?_
  · cases calls with
    | body entered => exact ⟨_, _, entered, rfl⟩
  · refine .single (p := ⟨fuel, .executeAll f.declaration.body, { σ₁ with current := scope }⟩)
      (.inScope _ _) ?_ fun _ => id
    have inside := grows_leaves_inScope (executeAll fuel f.declaration.body) scope σ₁
    exact inside.trans (Proceeds.first (fun flow => Proceeds.compositional.result f flow) σ₁).grows

theorem works_execute (s : Stmt) :
    Works (execute (fuel + 1) s) σ (Calls ⟨fuel + 1, .execute s, σ⟩) := by
  cases s with
  | expression value =>
    refine .before (p := ⟨fuel, .evaluate value, σ⟩) rfl (fun q calls => ?_) fun _ => .pure _
    cases calls
    rfl
  | print value =>
    refine .before (p := ⟨fuel, .evaluate value, σ⟩) rfl (fun q calls => ?_) fun v =>
      .bind (proceeds_print _ _) fun _ => .pure _
    cases calls
    rfl
  | varDecl name initializer =>
    cases initializer with
    | none =>
      refine .quiet ((allProceed (fuel + 1)).execute _) fun q calls => ?_
      cases calls
    | some e =>
      refine .before (p := ⟨fuel, .evaluate e, σ⟩) rfl (fun q calls => ?_) fun v =>
        .bind (proceeds_define v _) fun _ => .pure _
      cases calls
      rfl
  | block body =>
    refine .after (D := fun s σ₀ q => ∃ scope σ₁, openScope [] s.current σ₀ = .ok scope σ₁ ∧
      q = ⟨fuel, .executeAll body, { σ₁ with current := scope }⟩) .get (fun q calls => ?_)
      fun s σ₀ => ?_
    · cases calls with
      | block entered => exact ⟨σ, σ, rfl, _, _, entered, rfl⟩
    refine .after (D := fun scope σ₁ q =>
      q = ⟨fuel, .executeAll body, { σ₁ with current := scope }⟩) (proceeds_openScope _ _)
      (fun _ => id) fun scope σ₁ => ?_
    exact .single (p := ⟨fuel, .executeAll body, { σ₁ with current := scope }⟩)
      (.inScope _ _) (grows_leaves_inScope (executeAll fuel body) scope σ₁) fun _ => id
  | ifThen condition thenBranch =>
    refine .bind (p := ⟨fuel, .evaluate condition, σ⟩)
      (D := fun a σ₁ q => a.isTruthy = true ∧ q = ⟨fuel, .execute thenBranch, σ₁⟩) rfl
      (fun q calls => ?_) fun a σ₁ => ?_
    · cases calls with
      | ifThenCondition => exact .inl rfl
      | ifThen first holds => exact .inr ⟨_, _, first, holds, rfl⟩
    · split
      · exact .whole (p := ⟨fuel, .execute thenBranch, σ₁⟩) rfl fun q hq => hq.2
      · rename_i fails
        exact .quiet (.pure _) fun q hq => fails hq.1
  | ifElse condition thenBranch elseBranch =>
    refine .bind (p := ⟨fuel, .evaluate condition, σ⟩)
      (D := fun a σ₁ q =>
        q = ⟨fuel, .execute (if a.isTruthy then thenBranch else elseBranch), σ₁⟩) rfl
      (fun q calls => ?_) fun a σ₁ => ?_
    · cases calls with
      | ifElseCondition => exact .inl rfl
      | thenBranch first holds => exact .inr ⟨_, _, first, by rw [if_pos holds]⟩
      | elseBranch first fails => exact .inr ⟨_, _, first, by rw [fails]; rfl⟩
    · split
      · exact .whole (p := ⟨fuel, .execute thenBranch, σ₁⟩) rfl fun _ => id
      · exact .whole (p := ⟨fuel, .execute elseBranch, σ₁⟩) rfl fun _ => id
  | whileLoop condition body =>
    refine .whole (p := ⟨fuel, .repeatWhile condition body, σ⟩) rfl fun q calls => ?_
    cases calls
    rfl
  | funDecl declaration =>
    refine .quiet ((allProceed (fuel + 1)).execute _) fun q calls => ?_
    cases calls
  | returnStmt keyword value =>
    cases value with
    | none =>
      refine .quiet (.pure _) fun q calls => ?_
      cases calls
    | some e =>
      refine .before (p := ⟨fuel, .evaluate e, σ⟩) rfl (fun q calls => ?_) fun _ => .pure _
      cases calls
      rfl
  | classDecl name superclass methods =>
    cases superclass with
    | none =>
      refine .quiet ((allProceed (fuel + 1)).execute _) fun q calls => ?_
      cases calls
    | some e =>
      refine .before (p := ⟨fuel, .evaluate e, σ⟩) rfl (fun q calls => ?_) fun v => ?_
      · cases calls
        rfl
      · have rest : ∀ parent,
            Proceeds (declareClass name parent methods >>= fun _ => pure Flow.normal) :=
          fun parent => .bind (proceeds_declareClass name parent methods) fun _ => .pure _
        split
        · exact .bind (.pure (some _)) rest
        · exact .bind (.fail _ _) rest

theorem works_executeAll (ss : List Stmt) :
    Works (executeAll (fuel + 1) ss) σ (Calls ⟨fuel + 1, .executeAll ss, σ⟩) := by
  cases ss with
  | nil =>
    refine .quiet (.pure _) fun q calls => ?_
    cases calls
  | cons s ss =>
    refine .bind (p := ⟨fuel, .execute s, σ⟩)
      (D := fun flow σ₁ q => flow = .normal ∧ q = ⟨fuel, .executeAll ss, σ₁⟩) rfl
      (fun q calls => ?_) fun flow σ₁ => ?_
    · cases calls with
      | first => exact .inl rfl
      | rest first => exact .inr ⟨_, _, first, rfl, rfl⟩
    · cases flow with
      | returned value => exact .quiet (.pure _) fun q hq => nomatch hq.1
      | normal => exact .whole (p := ⟨fuel, .executeAll ss, σ₁⟩) rfl fun q hq => hq.2

theorem works_repeatWhile (condition : Expr) (body : Stmt) :
    Works (repeatWhile (fuel + 1) condition body) σ
      (Calls ⟨fuel + 1, .repeatWhile condition body, σ⟩) := by
  refine .bind (p := ⟨fuel, .evaluate condition, σ⟩)
    (D := fun a σ₁ q => a.isTruthy = true ∧ (q = ⟨fuel, .execute body, σ₁⟩ ∨
      ∃ flow σ₂, execute fuel body σ₁ = .ok flow σ₂ ∧ flow = .normal ∧
        q = ⟨fuel, .repeatWhile condition body, σ₂⟩)) rfl (fun q calls => ?_) fun a σ₁ => ?_
  · cases calls with
    | condition => exact .inl rfl
    | round first holds => exact .inr ⟨_, _, first, holds, .inl rfl⟩
    | again first holds second => exact .inr ⟨_, _, first, holds, .inr ⟨_, _, second, rfl, rfl⟩⟩
  · split
    · refine .bind (p := ⟨fuel, .execute body, σ₁⟩)
        (D := fun flow σ₂ q => flow = .normal ∧ q = ⟨fuel, .repeatWhile condition body, σ₂⟩) rfl
        (fun q hq => hq.2) fun flow σ₂ => ?_
      cases flow with
      | returned value => exact .quiet (.pure _) fun q hq => nomatch hq.1
      | normal =>
        exact .whole (p := ⟨fuel, .repeatWhile condition body, σ₂⟩) rfl fun q hq => hq.2
    · rename_i fails
      exact .quiet (.pure _) fun q hq => fails hq.1

end Works

/-- What a point calls is done in turn while the point is at work. -/
theorem Point.works (p : Point) : InTurn p.state p.leaves (Calls p) := by
  obtain ⟨fuel, task, σ⟩ := p
  cases fuel with
  | zero =>
    refine .done (Point.onward _).grows fun q calls => ?_
    cases calls
  | succ fuel =>
    cases task with
    | evaluate e => exact works_evaluate e
    | evaluateAll es => exact works_evaluateAll es
    | call f values line => exact works_call f values line
    | invoke f values => exact works_invoke f values
    | execute s => exact works_execute s
    | executeAll ss => exact works_executeAll ss
    | repeatWhile condition body => exact works_repeatWhile condition body

section Calls

variable {p q r : Point}

/-- What is called begins no sooner. -/
theorem Calls.begins (calls : Calls p q) : p.state.Grows q.state :=
  (p.works.between.2 q calls).1

/-- What is called is done no later. -/
theorem Calls.ends (calls : Calls p q) : q.leaves.Grows p.leaves :=
  (p.works.between.2 q calls).2

/-- Of two calls of one point, one is over when the other begins. -/
theorem Calls.ordered (h : Calls r p) (k : Calls r q) : p = q ∨ p.Precedes q ∨ q.Precedes p :=
  r.works.ordered h k

theorem precedes_of_ok {α : Type} {x : Eval α} {a : α} {σ σ₁ σ₂ : State} (ran : x σ = .ok a σ₁)
    (onward : σ₁.Onward σ₂) : (x.leaves σ).Grows σ₂ := by
  rw [leaves_of_ok ran]
  exact onward.grows

end Calls

/-! ## Scopes -/

section Opens

variable {p q r : Point} {f : Nat} {site site' : Site}

theorem size_lt_push (scopes : Scopes Value) (bindings : Bindings Value) (enclosing : Option Nat) :
    scopes.size < (scopes.push bindings enclosing).size :=
  Nat.lt_of_lt_of_eq (Nat.lt_succ_self _) (Scopes.size_push ..).symm

/-- A call that begins with a scope more is at work beyond that scope. -/
theorem Calls.spans (calls : Calls p q) (begins : p.state.scopes.size ≤ f)
    (opened : f < q.state.scopes.size) : p.Spans .scopes f :=
  ⟨begins, Nat.lt_of_lt_of_le opened (q.onward.grows.trans calls.ends).size⟩

theorem size_bind (method : Closure) (o : Object) (σ : State) :
    ((Eval.bind method o).leaves σ).scopes.size = σ.scopes.size + 1 :=
  Scopes.size_push ..

/-- A method that is read from an instance is bound to it. -/
theorem property_eq_bind {o : Object} {name : Token} {method : Closure} {σ : State}
    (missing : σ.field? o name.lexeme = none)
    (found : o.type.findMethod? name.lexeme = some method) :
    property o name σ = Eval.bind method o σ := by
  unfold property
  rw [run_bind, run_get]
  simp only [missing, found]

/-- A method of the superclass that is found is bound to the receiver. -/
theorem superMethod_eq_bind {id nearer : Nat} {keyword name : Token} {c : Class} {o : Object}
    {method : Closure} {σ : State} (recorded : σ.distances.get? id = some (nearer + 1))
    (superclass : σ.scopes.getAt? σ.current (nearer + 1) keyword.lexeme = some (.ofClass c))
    (receiver : σ.scopes.getAt? σ.current nearer "this" = some (.object o))
    (found : c.findMethod? name.lexeme = some method) :
    superMethod id keyword name σ = Eval.bind method o σ := by
  unfold superMethod
  rw [run_bind, run_get]
  simp only [recorded, superclass, receiver, found]

/-- A class on top of another gets a scope for `super`. -/
theorem onward_declareClass (name : Token) (c : Class) (methods : List FunctionDecl) (σ : State) :
    State.Onward
      { σ with
        scopes := (σ.scopes.define σ.current name.lexeme .nil).push [("super", .ofClass c)]
          (some σ.current) }
      ((declareClass name (some c) methods).leaves σ) := by
  rw [declareClass_eq]
  refine Proceeds.next rfl (Proceeds.next rfl (Proceeds.next rfl ?_))
  refine State.Onward.trans ?_ (proceeds_assignOutward name _ _)
  exact ⟨rfl, rfl, .of_eq rfl rfl rfl rfl⟩

/-- Where a point binds a method, it opens a scope for the receiver. -/
theorem Receives.spans {σ : State} {method : Closure} (receives : Receives p σ method) :
    p.Spans .scopes σ.scopes.size := by
  cases receives with
  | @property fuel object name σ₀ σ₁ o method first missing found =>
    refine ⟨((allProceed _).evaluate _).of_ok first |>.size, ?_⟩
    have opened := size_bind method o σ
    rw [← leaves_congr (property_eq_bind missing found)] at opened
    refine Nat.lt_of_lt_of_le (Nat.lt_of_lt_of_eq (Nat.lt_succ_self _) opened.symm)
      (Proceeds.next first ?_).size
    exact .refl _
  | @superMethod fuel id nearer keyword name _ c o method recorded superclass receiver found =>
    refine ⟨Nat.le_refl _, ?_⟩
    have opened := size_bind method o σ
    rw [← leaves_congr (superMethod_eq_bind recorded superclass receiver found)] at opened
    exact Nat.lt_of_lt_of_eq (Nat.lt_succ_self _) opened.symm
  | initializer arity made found =>
    refine Calls.spans (.initializer arity made found rfl) ?_ ?_
    · exact (proceeds_allocate _).of_ok made |>.size
    · exact size_lt_push ..

/-- A point opens a scope while it is at work. -/
theorem Opens.spans (opens : Opens p f site) : p.Spans .scopes f := by
  cases opens with
  | block fuel body σ =>
    refine Calls.spans (.block rfl) (Nat.le_refl _) ?_
    exact size_lt_push ..
  | body fuel g values σ =>
    refine Calls.spans (.body rfl) (Nat.le_refl _) ?_
    exact size_lt_push ..
  | receiver receives _ => exact receives.spans
  | @superclass fuel name e methods σ σ₁ c first =>
    refine ⟨((allProceed _).evaluate _).of_ok first |>.size, ?_⟩
    have opened := (onward_declareClass name c methods σ₁).size
    rw [Scopes.size_push, Scopes.size_define] at opened
    refine Nat.lt_of_lt_of_le opened (Proceeds.next first ?_).size
    exact Proceeds.first (fun _ => .pure _) _

/-- It is not at work in a call when it does: the call is over, or begins with that scope there. -/
theorem Opens.apart (opens : Opens p f site) (calls : Calls p q) : ¬q.Spans .scopes f := by
  rintro ⟨begins, ends⟩
  cases opens with
  | block fuel body σ =>
    cases calls with
    | block entered =>
      cases entered
      exact absurd begins (Nat.not_le.2 (size_lt_push ..))
  | body fuel g values σ =>
    cases calls with
    | body entered =>
      cases entered
      exact absurd begins (Nat.not_le.2 (size_lt_push ..))
  | receiver receives _ =>
    cases receives with
    | property first missing found =>
      cases calls with
      | readObject =>
        exact absurd ends (Nat.not_lt.2 (precedes_of_ok first (.refl _)).size)
    | superMethod recorded superclass receiver found => cases calls
    | initializer arity made found =>
      cases calls with
      | initializer _ made' _ received =>
        cases made.symm.trans made'
        cases received
        exact absurd begins (Nat.not_le.2 (size_lt_push ..))
  | superclass first =>
    cases calls with
    | superclass => exact absurd ends (Nat.not_lt.2 (precedes_of_ok first (.refl _)).size)

theorem Opens.takes (opens : Opens p f site) : p.Takes .scopes f :=
  ⟨opens.spans, fun _ calls => opens.apart calls⟩

end Opens

/-! ## One point for every number -/

/-- Points that are at work one after the other give different numbers. -/
theorem Point.Precedes.apart {p q : Point} {series : Series} {n : Nat} (before : p.Precedes q)
    (spans : p.Spans series n) : ¬q.Spans series n := fun spans' =>
  absurd (Nat.lt_of_lt_of_le spans.2 (before.next series)) (Nat.not_lt.2 spans'.1)

/-- From the first point, calls lead to the second. -/
abbrev LeadsTo : Point → Point → Prop := ReflTransGen Calls

section Takes

variable {p q r : Point} {series : Series} {n : Nat}

theorem LeadsTo.spans (leads : LeadsTo p q) (spans : q.Spans series n) : p.Spans series n := by
  induction leads with
  | refl => exact spans
  | tail _ calls ih =>
    apply ih
    exact ⟨Nat.le_trans (calls.begins.next series) spans.1,
      Nat.lt_of_lt_of_le spans.2 (calls.ends.next series)⟩

/-- Points that one point leads to and that give the same number are the same point. -/
theorem LeadsTo.taker (left : LeadsTo r p) (right : LeadsTo r q) (takes : p.Takes series n)
    (takes' : q.Takes series n) : p = q := by
  induction left using ReflTransGen.head_induction_on with
  | refl =>
    rcases right.cases_head with same | ⟨next, calls, leads⟩
    · exact same
    · exact absurd (LeadsTo.spans leads takes'.spans) (takes.apart next calls)
  | head calls leads ih =>
    have spans := LeadsTo.spans leads takes.spans
    rcases right.cases_head with same | ⟨next, calls', leads'⟩
    · rw [← same] at takes'
      exact absurd spans (takes'.apart _ calls)
    · have spans' := LeadsTo.spans leads' takes'.spans
      rcases calls.ordered calls' with same | before | after
      · exact ih (same ▸ leads')
      · exact absurd spans' (before.apart spans)
      · exact absurd spans (after.apart spans')

end Takes

/-! ## Programs -/

section Starts

variable {fuel n : Nat} {program : List Stmt} {σ : State} {p q : Point} {series : Series}

/-- The statements of a program are executed in turn. -/
theorem works_interpret (fuel : Nat) (program : List Stmt) (σ : State) :
    Works (interpret fuel program) σ (Starts fuel program σ) := by
  induction program generalizing σ with
  | nil =>
    refine .quiet (.pure _) fun q calls => ?_
    cases calls
  | cons s ss ih =>
    refine .bind (p := ⟨fuel, .execute s, σ⟩) (D := fun _ σ₁ q => Starts fuel ss σ₁ q) rfl
      (fun q starts => ?_) fun _ σ₁ => ih σ₁
    cases starts with
    | here => exact .inl rfl
    | later first rest => exact .inr ⟨_, _, first, rest⟩

/-- Within a program, too, a number is given at one point only. -/
theorem Starts.taker {u v : Point} (starts : Starts fuel program σ u)
    (starts' : Starts fuel program σ v) (leads : LeadsTo u p) (leads' : LeadsTo v q)
    (takes : p.Takes series n) (takes' : q.Takes series n) : p = q := by
  have spans := LeadsTo.spans leads takes.spans
  have spans' := LeadsTo.spans leads' takes'.spans
  rcases (works_interpret fuel program σ).ordered starts starts' with rfl | before | after
  · exact leads.taker leads' takes takes'
  · exact absurd spans' (before.apart spans)
  · exact absurd spans (after.apart spans')

end Starts

end ClassScript
