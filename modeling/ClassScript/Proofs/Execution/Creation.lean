import ClassScript.Proofs.Execution.Invariant

set_option autoImplicit false

/-!
# Where instances come from

An instance is made where a class is called, and its number is the next.  So instances that are made
at different points are different, and a new one is different from every instance that is there
already, in a scope, in a field or among the arguments.
-/

namespace ClassScript

open Eval

/-! ## Creation -/

/-- At a point, an instance is made. -/
inductive Creates : Point → Object → Prop where
  | made {fuel line : Nat} {c : Class} {values : List Value} {σ : State}
      (arity : values.length = c.arity) :
      Creates ⟨fuel + 1, .call (.ofClass c) values line, σ⟩ ⟨σ.fields.size, c⟩

/-- Making an instance takes its number. -/
theorem Creates.takes {p : Point} {o : Object} (h : Creates p o) : p.Takes .objects o.id := by
  cases h with
  | @made fuel line c values σ arity =>
    let made : State := { σ with fields := σ.fields.push [] }
    have allocates : allocate c σ = .ok ⟨σ.fields.size, c⟩ made := rfl
    have more : σ.fields.size < made.fields.size := by
      rw [Array.size_push]
      exact Nat.lt_succ_self _
    refine ⟨⟨Nat.le_refl _, ?_⟩, fun q calls within => ?_⟩
    · have onward : made.Onward ((call (fuel + 1) (.ofClass c) values line).leaves σ) := by
        refine Proceeds.next (checkArity_ok arity) (Proceeds.next allocates ?_)
        cases c.findMethod? initializerName with
        | none => exact .refl _
        | some method =>
          exact Proceeds.bind (Proceeds.compositional.receive method _)
            (fun f => .bind ((allProceed fuel).invoke f values) fun _ => .pure _) made
      exact Nat.lt_of_lt_of_le more onward.grows.fields
    · -- the call of the initializer begins with the instance
      cases calls with
      | initializer _ allocated _ received =>
        cases allocates.symm.trans allocated
        cases received
        exact absurd within.1 (Nat.not_le.2 more)

/-! ## What is there -/

variable (X : Execution)

/-- What a value refers to is there: an instance was made, and so was the scope of a function. -/
def Value.Present (σ : State) : Value → Prop
  | .object o => o.id < σ.fields.size ∧ ∃ p, X.reached p ∧ Creates p o
  | .function _ f => f.scope < σ.scopes.size
  | .bound _ f => f.scope < σ.scopes.size
  | _ => True

variable {X} in
theorem Value.Present.grows {σ σ' : State} {v : Value} (h : v.Present X σ) (grows : σ.Grows σ') :
    v.Present X σ' := by
  cases v with
  | object o => exact ⟨Nat.lt_of_lt_of_le h.1 grows.fields, h.2⟩
  | function _ f => exact grows.closed h
  | bound _ f => exact grows.closed h
  | _ => trivial

variable {X} in
theorem Value.Present.congr {σ σ' : State} {v : Value} (h : v.Present X σ)
    (scopes : σ'.scopes = σ.scopes) (fields : σ'.fields = σ.fields) : v.Present X σ' := by
  unfold Value.Present
  rw [scopes, fields]
  exact h

/-- The present scope is there, and so is everything that the state refers to. -/
structure State.Present (σ : State) : Prop where
  current : σ.current < σ.scopes.size
  holds : σ.Holds (Value.Present X σ)

namespace State.Present

variable {X} {σ σ' : State}

/-- What was there stays there. -/
theorem later (h : σ.Present X) (grows : σ.Grows σ') : σ.Holds (Value.Present X σ') :=
  h.holds.imp fun _ present => present.grows grows

theorem congr (h : σ.Present X) (scopes : σ'.scopes = σ.scopes) (fields : σ'.fields = σ.fields)
    (current : σ'.current = σ.current) : σ'.Present X where
  current := by
    rw [current, scopes]
    exact h.current
  holds := (h.holds.imp fun _ present => present.congr scopes fields).congr scopes fields

theorem define (h : σ.Present X) (f : Nat) (name : String) {v : Value} (hv : v.Present X σ) :
    State.Present X { σ with scopes := σ.scopes.define f name v } := by
  have grows := (onward_define v σ f name).grows
  exact ⟨grows.there h.current, (h.later grows).define f name (hv.grows grows)⟩

theorem opened (h : σ.Present X) {b : Bindings Value} (enclosing : Nat)
    (all : ∀ name v, b.get? name = some v → v.Present X σ) :
    State.Present X { σ with scopes := σ.scopes.push b (some enclosing) } := by
  have grows := (proceeds_openScope b enclosing σ).grows
  exact ⟨grows.there h.current,
    (h.later grows).opened enclosing fun name v hv => (all name v hv).grows grows⟩

/-- A scope is opened and becomes the present one. -/
theorem within (h : σ.Present X) {b : Bindings Value} (enclosing : Nat)
    (all : ∀ name v, b.get? name = some v → v.Present X σ) :
    (σ.within b enclosing).Present X where
  current := Nat.lt_of_lt_of_eq (Nat.lt_succ_self _) (Scopes.size_push ..).symm
  holds := by
    exact ((h.opened enclosing all).later (.inScope _ _)).congr rfl rfl

theorem setField (h : σ.Present X) (o : Object) (name : String) {v : Value}
    (hv : v.Present X σ) : (σ.setField o name v).Present X := by
  have grows : σ.Grows (σ.setField o name v) := (proceeds_setField v o name σ).grows
  exact ⟨h.current, (h.later grows).setField o name (hv.grows grows)⟩

theorem allocate (h : σ.Present X) :
    State.Present X { σ with fields := σ.fields.push [] } := by
  have grows := (proceeds_allocate default σ).grows
  exact ⟨h.current, (h.later grows).allocate⟩

theorem start (host : Host) (natives : List Native) : (State.start host natives).Present X where
  current := current_lt_start host natives
  holds := .start fun _ => trivial

end State.Present

/-- Nothing ever refers to an instance or a scope that is not there, and every instance was made at a
point of the execution. -/
def Invariant.present : Invariant X.reached where
  state := State.Present X
  value := Value.Present X
  closure σ f := f.scope < σ.scopes.size
  stop _ := True
  calls reached _ calls := X.calls reached calls
  value_grows h grows := h.grows grows
  closure_grows h grows := Nat.lt_of_lt_of_le h grows.size
  congr := State.Present.congr
  plain {σ v} plain := by cases v <;> trivial
  local? h found := h.holds.scopes found
  field? h found := h.holds.fields found
  type _ := trivial
  called h := h.elim id id
  define _ _ h _ hv := h.define _ _ hv
  setField h _ hv := h.setField _ _ hv
  allocate {fuel line c values σ} reached arity h _ := by
    refine ⟨h.allocate, ?_, _, reached, .made arity⟩
    rw [Array.size_push]
    exact Nat.lt_succ_self _
  block _ h := h.within _ nofun
  body _ h _ hvs :=
    h.within _ fun _ v hv => hvs v (List.of_mem_zip (Bindings.mem_of_get?_ofPairs hv)).2
  leave h h' size :=
    ⟨Nat.lt_of_lt_of_le h.current size, (h'.later (.inScope _ _)).congr rfl rfl⟩
  function _ h := h.current
  receive {p o c name method σ} _ _ h ho _ _ := by
    refine ⟨h.opened _ fun name v hv => ?_, fun _ => ?_⟩
    · obtain ⟨-, rfl⟩ := eq_of_get?_singleton hv
      exact ho
    · exact Nat.lt_of_lt_of_eq (Nat.lt_succ_self _) (Scopes.size_push ..).symm
  rootClass _ _ := trivial
  superclass {fuel name e methods σ σ₁ c} _ _ _ h := by
    refine ⟨h.opened _ fun name v hv => ?_, fun _ => trivial⟩
    obtain ⟨-, rfl⟩ := eq_of_get?_singleton hv
    trivial
  error _ _ := trivial
  spent := trivial
  malformed _ _ := trivial

end ClassScript
