import ClassScript.Proofs.Execution.Composed

set_option autoImplicit false

/-!
# The present scope is restored

However an action ends, with a value, with a `return` on its way or with an error, the present scope
is again the one that it started in.  Nor does any action take back a scope, an instance or a line that
was printed: there are only more of them.  Both hold from every state, whatever its scopes and closures
are like.

There is one lemma for every way to put actions together and one for every step.  What is put together
from these follows (`Compositional`), and so do the functions of the interpreter, by induction on the
fuel.
-/

namespace ClassScript

open Eval

/-! ## Where an action leads -/

/-- The state that an action leaves behind, whether it ends well or not. -/
def Eval.leaves {α : Type} (x : Eval α) (σ : State) : State :=
  match x σ with
  | .ok _ σ' => σ'
  | .error _ σ' => σ'

theorem leaves_of_ok {α : Type} {x : Eval α} {a : α} {σ σ' : State} (h : x σ = .ok a σ') :
    x.leaves σ = σ' := by
  unfold Eval.leaves
  rw [h]

theorem leaves_of_error {α : Type} {x : Eval α} {i : Interrupt} {σ σ' : State}
    (h : x σ = .error i σ') : x.leaves σ = σ' := by
  unfold Eval.leaves
  rw [h]

/-- What an action leaves is what it ends in. -/
theorem leaves_cases {α : Type} (x : Eval α) (σ : State) :
    (∃ a, x σ = .ok a (x.leaves σ)) ∨ ∃ i, x σ = .error i (x.leaves σ) := by
  unfold Eval.leaves
  cases x σ with
  | ok a σ' => exact .inl ⟨a, rfl⟩
  | error i σ' => exact .inr ⟨i, rfl⟩

theorem leaves_congr {α : Type} {x y : Eval α} {σ : State} (h : x σ = y σ) :
    x.leaves σ = y.leaves σ := by
  unfold Eval.leaves
  rw [h]

/-- After a first action that ended well, it is left to the second where a sequence leads. -/
theorem leaves_bind {α β : Type} {x : Eval α} {k : α → Eval β} {a : α} {σ σ₁ : State}
    (ran : x σ = .ok a σ₁) : (x >>= k).leaves σ = (k a).leaves σ₁ := by
  have run := run_bind σ x k
  rw [ran] at run
  unfold Eval.leaves
  rw [run]

/-- A sequence is over once its first action stops. -/
theorem run_bind_error {α β : Type} {x : Eval α} (k : α → Eval β) {i : Interrupt} {σ σ₁ : State}
    (ran : x σ = .error i σ₁) : (x >>= k) σ = .error i σ₁ := by
  rw [run_bind, ran]

theorem leaves_inScope {α : Type} (x : Eval α) (scope : Nat) (σ : State) :
    (Eval.inScope scope x).leaves σ =
      { x.leaves { σ with current := scope } with current := σ.current } := by
  rcases leaves_cases (Eval.inScope scope x) σ with ⟨a, ran⟩ | ⟨i, ran⟩
  · obtain ⟨σ₁, inside, left⟩ := inScope_eq_ok ran
    rw [left, leaves_of_ok inside]
  · obtain ⟨σ₁, inside, left⟩ := inScope_eq_error ran
    rw [left, leaves_of_error inside]

/-- The second state has at least as many scopes and instances as the first, and behind the lines that
were printed there may be more.  The host is the same. -/
structure State.Grows (σ σ' : State) : Prop where
  size : σ.scopes.size ≤ σ'.scopes.size
  fields : σ.fields.size ≤ σ'.fields.size
  printed : σ.printed.toList <+: σ'.printed.toList
  host : σ'.host = σ.host

namespace State.Grows

variable {σ σ' σ'' : State}

theorem refl (σ : State) : σ.Grows σ :=
  ⟨Nat.le_refl _, Nat.le_refl _, List.prefix_rfl, rfl⟩

theorem trans (h : σ.Grows σ') (k : σ'.Grows σ'') : σ.Grows σ'' :=
  ⟨Nat.le_trans h.size k.size, Nat.le_trans h.fields k.fields, h.printed.trans k.printed,
    k.host.trans h.host⟩

theorem lines (h : σ.Grows σ') : σ.printed.size ≤ σ'.printed.size :=
  h.printed.length_le

/-- A scope that is there stays there. -/
theorem there (h : σ.Grows σ') {f : Nat} (before : f < σ.scopes.size) : f < σ'.scopes.size :=
  Nat.lt_of_lt_of_le before h.size

/-- The scope of a closure stays there. -/
theorem closed (h : σ.Grows σ') {f : Closure} (before : f.scope < σ.scopes.size) :
    f.scope < σ'.scopes.size :=
  h.there before

/-- Nothing else matters of the two states. -/
theorem of_eq (scopes : σ'.scopes.size = σ.scopes.size) (fields : σ'.fields.size = σ.fields.size)
    (printed : σ'.printed = σ.printed) (host : σ'.host = σ.host) : σ.Grows σ' :=
  ⟨Nat.le_of_eq scopes.symm, Nat.le_of_eq fields.symm, printed ▸ List.prefix_rfl, host⟩

/-- Another scope may be the present one. -/
theorem inScope (σ : State) (f : Nat) : σ.Grows { σ with current := f } :=
  .of_eq rfl rfl rfl rfl

end State.Grows

theorem grows_leaves_inScope {α : Type} (x : Eval α) (scope : Nat) (σ : State) :
    (x.leaves { σ with current := scope }).Grows ((Eval.inScope scope x).leaves σ) := by
  rw [leaves_inScope]
  exact .inScope _ _

/-- The second state has the present scope of the first and all of its scopes and instances. -/
structure State.Onward (σ σ' : State) : Prop where
  current : σ'.current = σ.current
  distances : σ'.distances = σ.distances
  grows : σ.Grows σ'

namespace State.Onward

variable {σ σ' σ'' : State}

theorem refl (σ : State) : σ.Onward σ :=
  ⟨rfl, rfl, .refl σ⟩

theorem trans (h : σ.Onward σ') (k : σ'.Onward σ'') : σ.Onward σ'' :=
  ⟨k.current.trans h.current, k.distances.trans h.distances, h.grows.trans k.grows⟩

theorem size (h : σ.Onward σ') : σ.scopes.size ≤ σ'.scopes.size :=
  h.grows.size

end State.Onward

/-- From every state, the action leads onward. -/
def Proceeds {α : Type} (x : Eval α) : Prop :=
  ∀ σ : State, σ.Onward (x.leaves σ)

namespace Proceeds

variable {α β : Type} {x : Eval α} {k : α → Eval β} {σ σ' : State}

theorem of_ok {a : α} (h : Proceeds x) (ran : x σ = .ok a σ') : σ.Onward σ' := by
  have onward := h σ
  rwa [leaves_of_ok ran] at onward

theorem of_error {i : Interrupt} (h : Proceeds x) (ran : x σ = .error i σ') : σ.Onward σ' := by
  have onward := h σ
  rwa [leaves_of_error ran] at onward

/-! ## Putting actions together -/

/-- Where the second action leads, the sequence leads. -/
theorem next {a : α} {σ₁ : State} (ran : x σ = .ok a σ₁) (h : σ'.Onward ((k a).leaves σ₁)) :
    σ'.Onward ((x >>= k).leaves σ) := by
  rwa [leaves_bind ran]

/-- What a sequence leaves lies beyond what its first action leaves. -/
theorem first (rest : ∀ a, Proceeds (k a)) (σ : State) :
    (x.leaves σ).Onward ((x >>= k).leaves σ) := by
  rcases leaves_cases x σ with ⟨a, ran⟩ | ⟨i, ran⟩
  · exact next ran (rest a _)
  · rw [leaves_of_error (run_bind_error k ran)]
    exact .refl _

protected theorem bind (h : Proceeds x) (rest : ∀ a, Proceeds (k a)) : Proceeds (x >>= k) :=
  fun σ => (h σ).trans (first rest σ)

/-- An action within another scope leads back, whatever it does there. -/
theorem inScope (scope : Nat) (h : Proceeds x) : Proceeds (Eval.inScope scope x) := by
  intro σ
  have inner := h { σ with current := scope }
  rw [leaves_inScope]
  exact ⟨rfl, inner.distances, (State.Grows.inScope σ scope).trans (inner.grows.trans (.inScope _ _))⟩

protected theorem pure (a : α) : Proceeds (pure a) :=
  State.Onward.refl

protected theorem throw (i : Interrupt) : Proceeds (throw i : Eval α) :=
  State.Onward.refl

theorem fail (fault : RuntimeFault) (line : Nat) : Proceeds (Eval.fail fault line : Eval α) :=
  State.Onward.refl

theorem get : Proceeds (get : Eval State) :=
  State.Onward.refl

/-- A change that keeps the present scope and all scopes. -/
theorem modify {f : State → State} (h : ∀ σ : State, σ.Onward (f σ)) :
    Proceeds (modify f : Eval PUnit) :=
  h

theorem modifyGet {f : State → α × State} (h : ∀ σ : State, σ.Onward (f σ).2) :
    Proceeds (modifyGet f : Eval α) :=
  h

/-- After reading the state, an action may depend on it. -/
theorem read {k : State → Eval β} (h : ∀ s, Proceeds (k s)) : Proceeds (MonadState.get >>= k) :=
  .bind get h

end Proceeds

/-! ## Single actions -/

section Actions

variable (name : Token) (value : Value) (line : Nat) (o : Object)

theorem proceeds_openScope (bindings : Bindings Value) (enclosing : Nat) :
    Proceeds (openScope bindings enclosing) := by
  refine .modifyGet fun σ => ⟨rfl, rfl, ?_, Nat.le_refl _, List.prefix_rfl, rfl⟩
  rw [Scopes.size_push]
  exact Nat.le_succ _

theorem proceeds_freshSerial : Proceeds freshSerial :=
  .modifyGet fun _ => ⟨rfl, rfl, .of_eq rfl rfl rfl rfl⟩

theorem onward_define (σ : State) (f : Nat) (name : String) :
    σ.Onward { σ with scopes := σ.scopes.define f name value } :=
  ⟨rfl, rfl, .of_eq (Scopes.size_define ..) rfl rfl rfl⟩

theorem proceeds_define (name : String) : Proceeds (define name value) :=
  .modify fun σ => onward_define value σ σ.current name

theorem proceeds_assignIn (owner : Option Nat) : Proceeds (assignIn owner name value) := by
  cases owner with
  | none => exact .fail _ _
  | some f => exact .modify fun σ => onward_define value σ f name.lexeme

theorem proceeds_assign (id : Nat) : Proceeds (assign id name value) :=
  .read fun _ => proceeds_assignIn name value _

theorem proceeds_assignOutward : Proceeds (assignOutward name value) :=
  .read fun _ => proceeds_assignIn name value _

theorem proceeds_print (text : String) : Proceeds (print text line) := by
  refine .read fun s => ?_
  split
  · refine .modify fun σ => ⟨rfl, rfl, Nat.le_refl _, Nat.le_refl _, ?_, rfl⟩
    exact ⟨[text], Array.toList_push.symm⟩
  · exact .fail _ _

theorem proceeds_readClock : Proceeds readClock :=
  .modifyGet fun _ => ⟨rfl, rfl, .of_eq rfl rfl rfl rfl⟩

theorem proceeds_allocate (type : Class) : Proceeds (allocate type) := by
  refine .modifyGet fun σ => ⟨rfl, rfl, Nat.le_refl _, ?_, List.prefix_rfl, rfl⟩
  rw [Array.size_push]
  exact Nat.le_succ _

theorem proceeds_setField (name : String) :
    Proceeds (modify fun s => s.setField o name value : Eval PUnit) :=
  .modify fun _ => ⟨rfl, rfl, .of_eq rfl Array.size_modify rfl rfl⟩

theorem Proceeds.compositional : Compositional Proceeds where
  pure := .pure
  throw := .throw
  bind := .bind
  read _ := .read
  openScope := proceeds_openScope
  freshSerial := proceeds_freshSerial
  readClock := proceeds_readClock
  allocate := proceeds_allocate
  setField o name value := proceeds_setField value o name

/-- The scope that a class declaration switches to by hand is left again, since nothing that could
fail stands in between. -/
theorem proceeds_declareClass (superclass : Option Class) (methods : List FunctionDecl) :
    Proceeds (declareClass name superclass methods) :=
  Proceeds.compositional.declareClass name (proceeds_define _ _)
    (fun v => proceeds_assignOutward name v) superclass methods

end Actions

/-! ## The interpreter -/

/-- With the given fuel, every function of the interpreter leads onward. -/
structure AllProceed (fuel : Nat) : Prop where
  evaluate : ∀ e, Proceeds (evaluate fuel e)
  evaluateAll : ∀ es, Proceeds (evaluateAll fuel es)
  call : ∀ f values line, Proceeds (call fuel f values line)
  invoke : ∀ f values, Proceeds (invoke fuel f values)
  execute : ∀ s, Proceeds (execute fuel s)
  executeAll : ∀ ss, Proceeds (executeAll fuel ss)
  repeatWhile : ∀ condition body, Proceeds (repeatWhile fuel condition body)

namespace AllProceed

variable {fuel : Nat} (h : AllProceed fuel)
include h

theorem evaluate_succ (e : Expr) : Proceeds (Eval.evaluate (fuel + 1) e) :=
  Proceeds.compositional.evaluate_succ h.evaluate h.evaluateAll
    (fun id name value => proceeds_assign name value id) h.call e

theorem evaluateAll_succ (es : List Expr) : Proceeds (Eval.evaluateAll (fuel + 1) es) :=
  Proceeds.compositional.evaluateAll_succ h.evaluate h.evaluateAll es

theorem call_succ (f : Value) (values : List Value) (line : Nat) :
    Proceeds (Eval.call (fuel + 1) f values line) :=
  Proceeds.compositional.call_succ h.invoke f values line

theorem invoke_succ (f : Closure) (values : List Value) :
    Proceeds (Eval.invoke (fuel + 1) f values) :=
  .bind (proceeds_openScope _ _) fun scope =>
    .bind (.inScope scope (h.executeAll _)) fun flow => Proceeds.compositional.result f flow

theorem execute_succ (s : Stmt) : Proceeds (Eval.execute (fuel + 1) s) := by
  cases s with
  | expression value => exact .bind (h.evaluate value) fun _ => .pure _
  | print value => exact .bind (h.evaluate value) fun _ => .bind (proceeds_print _ _) fun _ => .pure _
  | varDecl name initializer =>
    cases initializer with
    | none => exact .bind (.pure _) fun v => .bind (proceeds_define v _) fun _ => .pure _
    | some e => exact .bind (h.evaluate e) fun v => .bind (proceeds_define v _) fun _ => .pure _
  | block body =>
    exact .read fun _ => .bind (proceeds_openScope _ _) fun scope => .inScope scope (h.executeAll body)
  | ifThen condition thenBranch =>
    refine .bind (h.evaluate condition) fun v => ?_
    split
    · exact h.execute thenBranch
    · exact .pure _
  | ifElse condition thenBranch elseBranch =>
    refine .bind (h.evaluate condition) fun v => ?_
    split
    · exact h.execute thenBranch
    · exact h.execute elseBranch
  | whileLoop condition body => exact h.repeatWhile condition body
  | funDecl declaration =>
    exact .read fun _ => .bind proceeds_freshSerial fun _ => .bind (proceeds_define _ _) fun _ =>
      .pure _
  | returnStmt keyword value =>
    cases value with
    | none => exact .pure _
    | some e => exact .bind (h.evaluate e) fun _ => .pure _
  | classDecl name superclass methods =>
    have rest : ∀ parent,
        Proceeds (declareClass name parent methods >>= fun _ => pure Flow.normal) :=
      fun parent => .bind (proceeds_declareClass name parent methods) fun _ => .pure _
    cases superclass with
    | none => exact .bind (.pure none) rest
    | some e =>
      refine .bind (h.evaluate e) fun v => ?_
      split
      · exact .bind (.pure (some _)) rest
      · exact .bind (.fail _ _) rest

theorem executeAll_succ (ss : List Stmt) : Proceeds (Eval.executeAll (fuel + 1) ss) := by
  cases ss with
  | nil => exact .pure _
  | cons s ss =>
    refine .bind (h.execute s) fun flow => ?_
    split
    · exact .pure _
    · exact h.executeAll ss

theorem repeatWhile_succ (condition : Expr) (body : Stmt) :
    Proceeds (Eval.repeatWhile (fuel + 1) condition body) := by
  refine .bind (h.evaluate condition) fun v => ?_
  split
  · refine .bind (h.execute body) fun flow => ?_
    split
    · exact .pure _
    · exact h.repeatWhile condition body
  · exact .pure _

end AllProceed

theorem allProceed (fuel : Nat) : AllProceed fuel := by
  induction fuel with
  | zero =>
    exact ⟨fun _ => .throw _, fun _ => .throw _, fun _ _ _ => .throw _, fun _ _ => .throw _,
      fun _ => .throw _, fun _ => .throw _, fun _ _ => .throw _⟩
  | succ fuel h =>
    exact ⟨h.evaluate_succ, h.evaluateAll_succ, h.call_succ, h.invoke_succ, h.execute_succ,
      h.executeAll_succ, h.repeatWhile_succ⟩

/-- A whole program leads onward. -/
theorem proceeds_interpret (fuel : Nat) (program : List Stmt) :
    Proceeds (interpret fuel program) := by
  induction program with
  | nil => exact .pure _
  | cons s rest ih => exact .bind ((allProceed fuel).execute s) fun _ => ih

end ClassScript
