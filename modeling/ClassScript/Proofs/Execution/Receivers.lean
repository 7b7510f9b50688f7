import ClassScript.Proofs.Execution.Invariant

set_option autoImplicit false

/-!
# Receivers are stable

A method that is bound to an instance gets a scope of its own for the receiver, and a class with a
superclass one for the superclass.  Such a scope never becomes the present one, so that nothing is
declared in it, and no program can assign its only name.  So it stays as it was opened, with one
value, for as long as the execution lasts.

A method value is known by its scope, since no other closure has a scope for a receiver.
-/

namespace ClassScript

open Eval

/-! ## Scopes for receivers and superclasses -/

/-- A scope is opened for a receiver, or for a superclass, and this is all there is to it. -/
inductive Reserves (reached : Point → Prop) (f : Nat) : Scope Value → Prop where
  | receiver {p : Point} {o : Object} {σ : State} {method : Closure} (bound : reached p)
      (obtains : Obtains p o σ method) (number : f = σ.scopes.size) :
      Reserves reached f ⟨[("this", .object o)], some method.scope⟩
  | superclass {fuel : Nat} {name : Token} {e : Expr} {methods : List FunctionDecl} {σ σ₁ : State}
      {c : Class} (executed : reached ⟨fuel + 1, .execute (.classDecl name (some e) methods), σ⟩)
      (first : evaluate fuel e σ = .ok (.ofClass c) σ₁) (number : f = σ₁.scopes.size) :
      Reserves reached f ⟨[("super", .ofClass c)], some σ₁.current⟩

/-- A closure is a method together with its receiver, and was made where the method was bound. -/
def Obtained (reached : Point → Prop) (o : Object) (f : Closure) : Prop :=
  ∃ p σ method, reached p ∧ Obtains p o σ method ∧ f = { method with scope := σ.scopes.size }

/-- Every scope is opened at one point only, and every instance made at one. -/
structure Execution.Single (X : Execution) : Prop where
  taker : ∀ {p q : Point} {series : Series} {n : Nat}, X.reached p → X.reached q →
    p.Takes series n → q.Takes series n → p = q

theorem Execution.Single.opener {X : Execution} (single : X.Single) {p q : Point} {f : Nat}
    {site site' : Site} (reached : X.reached p) (reached' : X.reached q) (opens : Opens p f site)
    (opens' : Opens q f site') : p = q :=
  single.taker reached reached' opens.takes opens'.takes

section Obtains

variable {p : Point} {o o' : Object} {σ σ' : State} {method method' : Closure}

theorem Obtains.receives (h : Obtains p o σ method) : Receives p σ method := by
  cases h with
  | property first missing found => exact .property first missing found
  | superMethod recorded superclass receiver found =>
    exact .superMethod recorded superclass receiver found
  | initializer arity made found => exact .initializer arity made found

theorem Obtains.opens (h : Obtains p o σ method) :
    Opens p σ.scopes.size (.this [method.declaration]) :=
  .receiver h.receives (List.mem_singleton_self _)

/-- Where a method is bound, it is bound to an instance. -/
theorem Receives.obtains (h : Receives p σ method) : ∃ o, Obtains p o σ method := by
  cases h with
  | property first missing found => exact ⟨_, .property first missing found⟩
  | superMethod recorded superclass receiver found =>
    exact ⟨_, .superMethod recorded superclass receiver found⟩
  | initializer arity made found => exact ⟨_, .initializer arity made found⟩

/-- At one point only one method is bound, to one instance. -/
theorem Obtains.unique (h : Obtains p o σ method) (k : Obtains p o' σ' method') :
    o = o' ∧ σ = σ' ∧ method = method' := by
  cases h with
  | property first missing found =>
    cases k with
    | property first' missing' found' =>
      cases first.symm.trans first'
      cases found.symm.trans found'
      exact ⟨rfl, rfl, rfl⟩
  | superMethod recorded superclass receiver found =>
    cases k with
    | superMethod recorded' superclass' receiver' found' =>
      cases recorded.symm.trans recorded'
      cases superclass.symm.trans superclass'
      cases receiver.symm.trans receiver'
      cases found.symm.trans found'
      exact ⟨rfl, rfl, rfl⟩
  | initializer arity made found =>
    cases k with
    | initializer arity' made' found' =>
      cases made.symm.trans made'
      cases found.symm.trans found'
      exact ⟨rfl, rfl, rfl⟩

/-- Reading a method of an instance, or of the superclass, yields the method value. -/
theorem Obtains.evaluate {fuel : Nat} {e : Expr} {σ₀ : State}
    (h : Obtains ⟨fuel, .evaluate e, σ₀⟩ o σ method) :
    ∃ σ₁, Eval.evaluate fuel e σ₀ =
      .ok (.bound σ.nextSerial { method with scope := σ.scopes.size }) σ₁ := by
  cases h with
  | @property fuel object name _ _ _ _ first missing found =>
    refine ⟨{ σ with
      scopes := σ.scopes.push [("this", .object o)] (some method.scope)
      nextSerial := σ.nextSerial + 1 }, ?_⟩
    rw [Eval.evaluate, run_bind, first]
    exact property_eq_bind missing found
  | superMethod recorded superclass receiver found =>
    exact ⟨_, superMethod_eq_bind recorded superclass receiver found⟩

end Obtains

/-- The only name of such a scope is no name that a program can write. -/
theorem Reserves.not_isName {reached : Point → Prop} {f : Nat} {cell : Scope Value} {name : String}
    (h : Reserves reached f cell) (has : (cell.bindings.get? name).isSome) : ¬IsName name := by
  obtain ⟨v, found⟩ := Option.isSome_iff_exists.1 has
  cases h with
  | receiver => exact fun named => named.1 (eq_of_get?_singleton found).1.symm
  | superclass => exact fun named => named.2 (eq_of_get?_singleton found).1.symm

/-! ## One point for every scope -/

namespace Execution.Single

variable {X : Execution} (single : X.Single) {f : Nat} {cell cell' : Scope Value}
include single

/-- A scope that a point opens for something else is not opened for a receiver or a superclass. -/
theorem not_reserves {p : Point} {site : Site} (reached : X.reached p) (opens : Opens p f site)
    (unbound : ∀ o σ method, ¬Obtains p o σ method)
    (other : ∀ fuel name e methods σ,
      p ≠ ⟨fuel + 1, .execute (.classDecl name (some e) methods), σ⟩) :
    ¬Reserves X.reached f cell := by
  intro h
  cases h with
  | receiver bound obtains number =>
    cases single.opener reached bound opens (number ▸ obtains.opens)
    exact unbound _ _ _ obtains
  | superclass executed first number =>
    exact other _ _ _ _ _ (single.opener reached executed opens (number ▸ Opens.superclass first))

theorem not_reserves_block {fuel : Nat} {body : List Stmt} {σ : State}
    (reached : X.reached ⟨fuel + 1, .execute (.block body), σ⟩) :
    ¬Reserves X.reached σ.scopes.size cell :=
  single.not_reserves reached (.block ..) (fun _ _ _ h => nomatch h) fun _ _ _ _ _ h => nomatch h

theorem not_reserves_body {fuel : Nat} {f : Closure} {values : List Value} {σ : State}
    (reached : X.reached ⟨fuel + 1, .invoke f values, σ⟩) :
    ¬Reserves X.reached σ.scopes.size cell :=
  single.not_reserves reached (.body ..) (fun _ _ _ h => nomatch h) fun _ _ _ _ _ h => nomatch h

/-- What a scope for a receiver or a superclass is like is known from its number. -/
theorem reserves (h : Reserves X.reached f cell) (k : Reserves X.reached f cell') :
    cell = cell' := by
  cases h with
  | receiver bound obtains number =>
    cases k with
    | receiver bound' obtains' number' =>
      cases single.opener bound bound' (number ▸ obtains.opens) (number' ▸ obtains'.opens)
      obtain ⟨rfl, rfl, rfl⟩ := obtains.unique obtains'
      rfl
    | superclass executed first number' =>
      cases single.opener bound executed (number ▸ obtains.opens) (number' ▸ Opens.superclass first)
      cases obtains
  | superclass executed first number =>
    cases k with
    | receiver bound obtains number' =>
      cases single.opener bound executed (number' ▸ obtains.opens) (number ▸ Opens.superclass first)
      cases obtains
    | superclass executed' first' number' =>
      cases single.opener executed executed' (number ▸ Opens.superclass first)
        (number' ▸ Opens.superclass first')
      cases first.symm.trans first'
      rfl

/-- A closure with a scope for a receiver was made at one point, for one instance. -/
theorem obtained {o o' : Object} {f f' : Closure} (h : Obtained X.reached o f)
    (k : Obtained X.reached o' f') (same : f.scope = f'.scope) : o = o' ∧ f = f' := by
  obtain ⟨p, σ, method, bound, obtains, rfl⟩ := h
  obtain ⟨p', σ', method', bound', obtains', rfl⟩ := k
  have number : σ.scopes.size = σ'.scopes.size := same
  cases single.opener bound bound' obtains.opens (number ▸ obtains'.opens)
  obtain ⟨rfl, rfl, rfl⟩ := obtains.unique obtains'
  exact ⟨rfl, rfl⟩

end Execution.Single

/-! ## Guarded states -/

variable (X : Execution)

/-- No scope for a receiver or a superclass has the number. -/
def Unreserved (f : Nat) : Prop :=
  ∀ cell, ¬Reserves X.reached f cell

/-- A method value was made where a method was bound, and a function lies in no scope for a receiver
or a superclass. -/
def Value.Rightful : Value → Prop
  | .bound _ f => ∃ o, Obtained X.reached o f
  | .function _ f => Unreserved X f.scope
  | _ => True

/-- All scopes for receivers and superclasses are as they were opened, no others have their words, and
bodies run in the scopes of their functions. -/
structure State.Guarded (σ : State) : Prop extends State.Holds (Value.Rightful X) σ where
  kept : ∀ {f cell}, Reserves X.reached f cell → f < σ.scopes.size → σ.scopes.cells[f]? = some cell
  only : ∀ {f name v}, σ.scopes.local? f name = some v → ¬IsName name →
    ∃ cell, Reserves X.reached f cell
  outside : Unreserved X σ.current
  bodies : ∀ {fuel f values τ}, X.reached ⟨fuel + 1, .invoke f values, τ⟩ →
    τ.scopes.size < σ.scopes.size → σ.scopes.enclosing? τ.scopes.size = some f.scope

namespace State.Guarded

variable {X} {σ : State}

theorem congr {σ' : State} (h : σ.Guarded X) (scopes : σ'.scopes = σ.scopes)
    (fields : σ'.fields = σ.fields) (current : σ'.current = σ.current) : σ'.Guarded X := by
  obtain ⟨hv, hk, hn, ho, hb⟩ := h
  rw [← scopes] at hk hn hb
  rw [← current] at ho
  exact ⟨hv.congr scopes fields, hk, hn, ho, hb⟩

/-- Giving a name a value touches no scope for a receiver or a superclass: in the present scope
because that is none, and in any other because it has the name. -/
theorem define (h : σ.Guarded X) {f : Nat} {name : String} {v : Value} (named : IsName name)
    (owned : f = σ.current ∨ (σ.scopes.local? f name).isSome) (hv : v.Rightful X) :
    State.Guarded X { σ with scopes := σ.scopes.define f name v } where
  toHolds := h.toHolds.define f name hv
  kept {g cell} reserves within := by
    rw [Scopes.size_define] at within
    have other : f ≠ g := by
      rintro rfl
      rcases owned with here | has
      · exact h.outside cell (here ▸ reserves)
      · rw [Scopes.local?, h.kept reserves within] at has
        exact reserves.not_isName has named
    rw [Scopes.cells_define, if_neg other]
    exact h.kept reserves within
  only {g other w} hw reserved := by
    rw [Scopes.local?_define] at hw
    split at hw
    · rename_i same
      exact absurd named (same.2.2 ▸ reserved)
    · exact h.only hw reserved
  outside := h.outside
  bodies reached within := by
    rw [Scopes.size_define] at within
    rw [Scopes.enclosing?_define]
    exact h.bodies reached within

/-- A scope is opened.  If it is for a receiver, a superclass or a body, it is as that says. -/
theorem opened (h : σ.Guarded X) {b : Bindings Value} {enclosing : Nat}
    (reserved : ∀ cell, Reserves X.reached σ.scopes.size cell → cell = ⟨b, some enclosing⟩)
    (only : ∀ name v, b.get? name = some v → ¬IsName name →
      ∃ cell, Reserves X.reached σ.scopes.size cell)
    (body : ∀ {fuel f values τ}, X.reached ⟨fuel + 1, .invoke f values, τ⟩ →
      τ.scopes.size = σ.scopes.size → f.scope = enclosing)
    (rightful : ∀ name v, b.get? name = some v → v.Rightful X) :
    State.Guarded X { σ with scopes := σ.scopes.push b (some enclosing) } where
  toHolds := h.toHolds.opened enclosing rightful
  kept {f cell} reserves within := by
    rw [Scopes.size_push] at within
    rw [Scopes.cells_push]
    split
    · rename_i new
      rw [reserved cell (new ▸ reserves)]
    · exact h.kept reserves (Nat.lt_of_le_of_ne (Nat.le_of_lt_succ within) ‹_›)
  only {f name v} hv named := by
    rw [Scopes.local?_push] at hv
    split at hv
    · rename_i new
      exact new ▸ only name v hv named
    · exact h.only hv named
  outside := h.outside
  bodies {fuel f values τ} reached within := by
    rw [Scopes.size_push] at within
    rw [Scopes.enclosing?_push]
    split
    · rename_i new
      rw [body reached new]
    · exact h.bodies reached (Nat.lt_of_le_of_ne (Nat.le_of_lt_succ within) ‹_›)

/-- Another scope becomes the present one. -/
theorem switch (h : σ.Guarded X) {f : Nat} (unreserved : Unreserved X f) :
    State.Guarded X { σ with current := f } :=
  ⟨h.toHolds.congr rfl rfl, h.kept, h.only, unreserved, h.bodies⟩

theorem setField (h : σ.Guarded X) (o : Object) (name : String) {v : Value}
    (hv : v.Rightful X) : (σ.setField o name v).Guarded X :=
  ⟨h.toHolds.setField o name hv, h.kept, h.only, h.outside, h.bodies⟩

theorem allocate (h : σ.Guarded X) : State.Guarded X { σ with fields := σ.fields.push [] } :=
  ⟨h.toHolds.allocate, h.kept, h.only, h.outside, h.bodies⟩

end State.Guarded

/-! ## Guarding is an invariant -/

/-- Two points that open a scope of one number do the same. -/
theorem Execution.Single.task {X : Execution} (single : X.Single) {p q : Point} {f : Nat}
    {site site' : Site} (reached : X.reached p) (reached' : X.reached q) (opens : Opens p f site)
    (opens' : Opens q f site') : p.task = q.task := by
  rw [single.opener reached reached' opens opens']

/-- Scopes for receivers and superclasses stay as they are, and closures in them are what was made
with them. -/
def Invariant.guarding (single : X.Single) : Invariant X.reached where
  state := State.Guarded X
  value _ := Value.Rightful X
  closure _ f := (∃ o, Obtained X.reached o f) ∨ Unreserved X f.scope
  stop _ := True
  calls reached _ calls := X.calls reached calls
  value_grows h _ := h
  closure_grows h _ := h
  congr := State.Guarded.congr
  plain {σ v} plain := by cases v <;> trivial
  local? h found := h.scopes found
  field? h found := h.fields found
  type _ := trivial
  called h := h.symm
  define reached writes h owned hv := h.define ((X.proper reached).isName writes) owned hv
  setField h _ hv := h.setField _ _ hv
  allocate _ _ h _ := ⟨h.allocate, trivial⟩
  block {fuel body σ} reached h := by
    have unreserved : Unreserved X σ.scopes.size := fun cell => single.not_reserves_block reached
    refine State.Guarded.switch (h.opened (b := [])
      (fun cell reserves => absurd reserves (unreserved cell)) nofun
      (fun reached' number => ?_) nofun) unreserved
    cases single.task reached reached' (.block ..) (number ▸ Opens.body ..)
  body {fuel f values σ} reached h _ hvs := by
    have unreserved : Unreserved X σ.scopes.size := fun cell => single.not_reserves_body reached
    refine State.Guarded.switch (h.opened (fun cell reserves => absurd reserves (unreserved cell))
      (fun name v hv reserved => ?_) (fun reached' number => ?_) fun name v hv => ?_) unreserved
    · obtain ⟨t, ht, rfl⟩ := List.mem_map.1 (List.of_mem_zip (Bindings.mem_of_get?_ofPairs hv)).1
      exact absurd (X.proper reached t ht) reserved
    · cases single.task reached reached' (.body ..) (number ▸ Opens.body ..)
      rfl
    · exact hvs v (List.of_mem_zip (Bindings.mem_of_get?_ofPairs hv)).2
  leave h h' _ := h'.switch h.outside
  function _ h := h.outside
  receive {p o c name method σ} reached obtains h _ _ _ := by
    refine ⟨h.opened (fun cell reserves => ?_) (fun _ _ _ _ => ⟨_, .receiver reached obtains rfl⟩)
      (fun reached' number => ?_) fun name v hv => ?_,
      fun serial => ⟨o, p, σ, method, reached, obtains, rfl⟩⟩
    · exact single.reserves reserves (.receiver reached obtains rfl)
    · cases single.opener reached reached' obtains.opens (number ▸ Opens.body ..)
      cases obtains
    · obtain ⟨-, rfl⟩ := eq_of_get?_singleton hv
      trivial
  rootClass _ _ := trivial
  superclass {fuel name e methods σ σ₁ c} reached first _ h := by
    have reserves' : Reserves X.reached (σ₁.scopes.define σ₁.current name.lexeme .nil).size
        ⟨[("super", .ofClass c)], some σ₁.current⟩ :=
      .superclass reached first (Scopes.size_define ..)
    refine ⟨h.opened (fun cell reserves => ?_) (fun _ _ _ _ => ⟨_, reserves'⟩)
      (fun reached' number => ?_) fun name v hv => ?_, fun serial => trivial⟩
    · exact single.reserves reserves reserves'
    · rw [Scopes.size_define] at number
      cases single.task reached reached' (.superclass first) (number ▸ Opens.body ..)
    · obtain ⟨-, rfl⟩ := eq_of_get?_singleton hv
      trivial
  error _ _ := trivial
  spent := trivial
  malformed _ _ := trivial

end ClassScript
