import ClassScript.Proofs.Execution.Inventory
import ClassScript.Proofs.Execution.Receivers
import ClassScript.Proofs.Scope.Chains

set_option autoImplicit false

/-!
# Where scopes lie

A scope is opened inside the present scope, for a block and for a superclass, or inside the scope of a
function, for a body and for a receiver.  Scopes and values lead to each other in circles, since a scope
holds functions and functions lie in scopes.  But what a scope is opened inside is there before it, and
stays what lies around it.  So from every scope the way out leads to lower and lower numbers.

This needs that no value, in any scope or field, is closed over a scope that is not there yet.
-/

namespace ClassScript

open Eval

/-! ## Opening inside a scope -/

/-- At a point, a scope is opened inside another one; both are known by their numbers. -/
inductive Nests : Point → Nat → Nat → Prop where
  | block (fuel : Nat) (body : List Stmt) (σ : State) :
      Nests ⟨fuel + 1, .execute (.block body), σ⟩ σ.scopes.size σ.current
  | body (fuel : Nat) (f : Closure) (values : List Value) (σ : State) :
      Nests ⟨fuel + 1, .invoke f values, σ⟩ σ.scopes.size f.scope
  | receiver {p : Point} {o : Object} {σ : State} {method : Closure}
      (obtains : Obtains p o σ method) : Nests p σ.scopes.size method.scope
  | superclass {fuel : Nat} {name : Token} {e : Expr} {methods : List FunctionDecl}
      {σ σ₁ : State} {c : Class} (first : evaluate fuel e σ = .ok (.ofClass c) σ₁) :
      Nests ⟨fuel + 1, .execute (.classDecl name (some e) methods), σ⟩ σ₁.scopes.size σ₁.current

namespace Nests

variable {p : Point} {f f' g g' : Nat}

theorem opens (h : Nests p f g) : ∃ site, Opens p f site := by
  cases h with
  | block => exact ⟨_, .block ..⟩
  | body => exact ⟨_, .body ..⟩
  | receiver obtains => exact ⟨_, obtains.opens⟩
  | superclass first => exact ⟨_, .superclass first⟩

/-- At one point only one scope is opened, inside one other. -/
theorem unique (h : Nests p f g) (k : Nests p f' g') : f = f' ∧ g = g' := by
  cases h with
  | block =>
    cases k with
    | block => exact ⟨rfl, rfl⟩
    | receiver obtains => cases obtains
  | body =>
    cases k with
    | body => exact ⟨rfl, rfl⟩
    | receiver obtains => cases obtains
  | receiver obtains =>
    cases k with
    | receiver obtains' =>
      obtain ⟨-, rfl, rfl⟩ := obtains.unique obtains'
      exact ⟨rfl, rfl⟩
    | block | body | superclass => cases obtains
  | superclass first =>
    cases k with
    | superclass first' =>
      cases first.symm.trans first'
      exact ⟨rfl, rfl⟩
    | receiver obtains => cases obtains

end Nests

/-! ## What values are closed over -/

/-- The scopes that a value is closed over: that of the function that it is, or those of the methods of
the class that it is or is an instance of, the methods that others hide among them. -/
inductive Value.Closes : Value → Nat → Prop where
  | function (serial : Nat) (f : Closure) : Closes (.function serial f) f.scope
  | bound (serial : Nat) (f : Closure) : Closes (.bound serial f) f.scope
  | method {v : Value} {c : Class} {layer : ClassLayer} {name : String} {f : Closure}
      (kind : v.class? = some c) (among : layer ∈ c.layers)
      (declared : layer.methods.get? name = some f) : Closes v f.scope

/-- The scopes that can still be come to from a state: those of the globals and of the present place, and
those that the values in a scope or in a field are closed over. -/
inductive State.Live (σ : State) : Nat → Prop where
  | globals : Live σ globalScope
  | current : Live σ σ.current
  | name {g f : Nat} {name : String} {v : Value} (held : σ.scopes.local? g name = some v)
      (closes : v.Closes f) : Live σ f
  | field {o : Object} {f : Nat} {name : String} {v : Value} (held : σ.field? o name = some v)
      (closes : v.Closes f) : Live σ f

theorem Value.Plain.not_closes {v : Value} (plain : v.Plain) {f : Nat} : ¬v.Closes f := by
  intro closes
  cases closes with
  | function | bound => exact plain
  | method kind =>
    cases v with
    | ofClass | object => exact plain
    | _ => cases kind

theorem Value.closes_ofClass {c : Class} {f : Nat} :
    (Value.ofClass c).Closes f ↔
      ∃ layer ∈ c.layers, ∃ name method, layer.methods.get? name = some method ∧ method.scope = f := by
  constructor
  · intro closes
    cases closes with
    | method kind among declared =>
      cases kind
      exact ⟨_, among, _, _, declared, rfl⟩
  · rintro ⟨layer, among, name, method, declared, rfl⟩
    exact .method rfl among declared

theorem Value.closes_object {o : Object} {f : Nat} :
    (Value.object o).Closes f ↔ (Value.ofClass o.type).Closes f := by
  rw [Value.closes_ofClass]
  constructor
  · intro closes
    cases closes with
    | method kind among declared =>
      cases kind
      exact ⟨_, among, _, _, declared, rfl⟩
  · rintro ⟨layer, among, name, method, declared, rfl⟩
    exact .method rfl among declared

/-- A class is closed over the scope of every method that is found in it. -/
theorem Class.closes_of_findMethod? {c : Class} {name : String} {method : Closure}
    (found : c.findMethod? name = some method) : (Value.ofClass c).Closes method.scope := by
  obtain ⟨layer, among, declared⟩ := List.exists_of_findSome?_eq_some found
  exact .method rfl among declared

/-- All that the value is closed over is there. -/
def Value.Based (σ : State) (v : Value) : Prop :=
  ∀ f, v.Closes f → f < σ.scopes.size

namespace Value.Based

variable {σ σ' : State} {v : Value}

theorem grows (h : v.Based σ) (grows : σ.Grows σ') : v.Based σ' := fun f closes =>
  grows.there (h f closes)

theorem congr (h : v.Based σ) (scopes : σ'.scopes = σ.scopes) : v.Based σ' := fun f closes => by
  rw [scopes]
  exact h f closes

theorem plain (plain : v.Plain) : v.Based σ := fun _ closes => absurd closes plain.not_closes

/-- The methods of a class lie in the scope that it was declared in, or are those of its superclass. -/
theorem declare {serial scope : Nat} {name : String} {methods : List FunctionDecl}
    {superclass : Option Class} (there : scope < σ.scopes.size)
    (above : ∀ c ∈ superclass, (Value.ofClass c).Based σ) :
    (Value.ofClass
      (Class.declare ⟨serial, name, closeMethods scope methods⟩ superclass)).Based σ := by
  intro f closes
  obtain ⟨layer, among, other, method, declared, rfl⟩ := Value.closes_ofClass.1 closes
  rcases List.mem_cons.1 among with rfl | inherited
  · obtain ⟨d, -, -, rfl⟩ := exists_of_closeMethods declared
    exact there
  · cases superclass with
    | none => cases inherited
    | some c => exact above c rfl _ (.method rfl inherited declared)

end Value.Based

/-! ## Linked states -/

variable (X : Execution)

/-- The present scope is there, and so is all that values are closed over; the globals are outermost, and
every other scope lies where it was opened, inside a scope that was there before. -/
structure State.Linked (σ : State) : Prop where
  current : σ.current < σ.scopes.size
  holds : σ.Holds (Value.Based σ)
  outermost : σ.scopes.enclosing? globalScope = none
  links : ∀ f < σ.scopes.size, f ≠ globalScope →
    ∃ p g, X.reached p ∧ Nests p f g ∧ g < f ∧ σ.scopes.enclosing? f = some g

namespace State.Linked

variable {X} {σ σ' : State}

theorem rooted (h : σ.Linked X) : σ.scopes.RootedAt globalScope where
  outermost := h.outermost
  inside f there other := by
    obtain ⟨p, g, -, -, lower, enclosed⟩ := h.links f there other
    exact ⟨g, lower, enclosed⟩

theorem live (h : σ.Linked X) {f : Nat} (live : σ.Live f) : f < σ.scopes.size := by
  cases live with
  | globals => exact Nat.zero_lt_of_lt h.current
  | current => exact h.current
  | name held closes => exact h.holds.scopes held f closes
  | field held closes => exact h.holds.fields held f closes

/-- What values were closed over stays there. -/
theorem later (h : σ.Linked X) (grows : σ.Grows σ') : σ.Holds (Value.Based σ') :=
  h.holds.imp fun _ based => based.grows grows

/-- Another scope that is there becomes the present one. -/
theorem switch (h : σ.Linked X) {f : Nat} (there : f < σ.scopes.size) :
    State.Linked X { σ with current := f } :=
  ⟨there, (h.later (.inScope σ f)).congr rfl rfl, h.outermost, h.links⟩

theorem congr (h : σ.Linked X) (scopes : σ'.scopes = σ.scopes) (fields : σ'.fields = σ.fields)
    (current : σ'.current = σ.current) : σ'.Linked X := by
  refine ⟨?_, (h.holds.imp fun _ based => based.congr scopes).congr scopes fields, ?_, ?_⟩
  · rw [current, scopes]
    exact h.current
  · rw [scopes]
    exact h.outermost
  · rw [scopes]
    exact h.links

/-- Giving a name a value leaves every scope where it lies. -/
theorem define (h : σ.Linked X) (f : Nat) (name : String) {v : Value} (hv : v.Based σ) :
    State.Linked X { σ with scopes := σ.scopes.define f name v } := by
  have grows := (onward_define v σ f name).grows
  refine ⟨grows.there h.current,
    (h.later grows).define f name (hv.grows grows), ?_, fun g there other => ?_⟩
  · rw [Scopes.enclosing?_define]
    exact h.outermost
  · rw [Scopes.size_define] at there
    rw [Scopes.enclosing?_define]
    exact h.links g there other

/-- A scope is opened at a point, inside one that is there. -/
theorem opened (h : σ.Linked X) {b : Bindings Value} {p : Point} {g : Nat} (reached : X.reached p)
    (nests : Nests p σ.scopes.size g) (there : g < σ.scopes.size)
    (all : ∀ name v, b.get? name = some v → v.Based σ) :
    State.Linked X { σ with scopes := σ.scopes.push b (some g) } := by
  have grows := (proceeds_openScope b g σ).grows
  have inhabited : globalScope < σ.scopes.size := h.live .globals
  refine ⟨grows.there h.current,
    (h.later grows).opened g fun name v hv => (all name v hv).grows grows, ?_, fun f bound other => ?_⟩
  · rw [Scopes.enclosing?_push, if_neg (Nat.ne_of_lt inhabited)]
    exact h.outermost
  · rw [Scopes.size_push] at bound
    rw [Scopes.enclosing?_push]
    -- the new scope lies inside `g`, and all others where they lay before
    split
    · rename_i new
      subst new
      exact ⟨p, g, reached, nests, there, rfl⟩
    · exact h.links f (Nat.lt_of_le_of_ne (Nat.le_of_lt_succ bound) ‹_›) other

/-- A scope is opened and becomes the present one. -/
theorem within (h : σ.Linked X) {b : Bindings Value} {p : Point} {g : Nat} (reached : X.reached p)
    (nests : Nests p σ.scopes.size g) (there : g < σ.scopes.size)
    (all : ∀ name v, b.get? name = some v → v.Based σ) : (σ.within b g).Linked X :=
  (h.opened reached nests there all).switch
    (Nat.lt_of_lt_of_eq (Nat.lt_succ_self _) (Scopes.size_push ..).symm)

theorem setField (h : σ.Linked X) (o : Object) (name : String) {v : Value} (hv : v.Based σ) :
    (σ.setField o name v).Linked X :=
  ⟨h.current, h.holds.setField o name hv, h.outermost, h.links⟩

theorem allocate (h : σ.Linked X) : State.Linked X { σ with fields := σ.fields.push [] } :=
  ⟨h.current, h.holds.allocate, h.outermost, h.links⟩

/-- Before the first source there is no scope but that of the globals. -/
theorem start (host : Host) (natives : List Native) : (State.start host natives).Linked X where
  current := current_lt_start host natives
  holds := .start fun _ => .plain trivial
  outermost := rfl
  links _ there other := absurd (Nat.lt_one_iff.1 there) other

end State.Linked

/-- Every scope stays where it was opened, and no value is closed over a scope that is not there. -/
def Invariant.linking : Invariant X.reached where
  state := State.Linked X
  value := Value.Based
  closure σ f := f.scope < σ.scopes.size
  stop _ := True
  calls reached _ calls := X.calls reached calls
  value_grows h grows := h.grows grows
  closure_grows h grows := grows.closed h
  congr := State.Linked.congr
  plain := .plain
  local? h found := h.holds.scopes found
  field? h found := h.holds.fields found
  type h f closes := h f (Value.closes_object.2 closes)
  called {σ serial f} h :=
    h.elim (fun h => h f.scope (.function serial f)) fun h => h f.scope (.bound serial f)
  define _ _ h _ hv := h.define _ _ hv
  setField h _ hv := h.setField _ _ hv
  allocate _ _ h hc := ⟨h.allocate, fun f closes => hc f (Value.closes_object.1 closes)⟩
  block reached h := h.within reached (.block ..) h.current nofun
  body reached h hf hvs :=
    h.within reached (.body ..) hf fun _ v hv =>
      hvs v (List.of_mem_zip (Bindings.mem_of_get?_ofPairs hv)).2
  leave h h' size := h'.switch (Nat.lt_of_lt_of_le h.current size)
  function {fuel serial d σ} _ h f closes := by
    cases closes with
    | function => exact h.current
    | method kind => cases kind
  receive {p o c name method σ} reached obtains h ho hc found := by
    have there : method.scope < σ.scopes.size := hc _ (Class.closes_of_findMethod? found)
    refine ⟨h.opened reached (.receiver obtains) there (forall_get?_singleton ho), ?_⟩
    intro serial f closes
    rw [Scopes.size_push]
    cases closes with
    | bound => exact Nat.lt_succ_self _
    | method kind => cases kind
  rootClass _ h := .declare h.current nofun
  superclass {fuel name e methods σ σ₁ c} reached first hc h := by
    -- the name of the class is given a value first, which opens no scope
    have nests : Nests ⟨fuel + 1, .execute (.classDecl name (some e) methods), σ⟩
        (σ₁.scopes.define σ₁.current name.lexeme .nil).size σ₁.current := by
      rw [Scopes.size_define]
      exact .superclass first
    have hc : (Value.ofClass c).Based _ := hc.grows (onward_define .nil σ₁ σ₁.current name.lexeme).grows
    refine ⟨h.opened reached nests h.current (forall_get?_singleton hc),
      fun serial => .declare ?_ ?_⟩
    · rw [Scopes.size_push, Scopes.size_define]
      exact Nat.lt_succ_self _
    · intro c' same
      cases same
      exact hc.grows (proceeds_openScope _ _ _).grows
  error _ _ := trivial
  spent := trivial
  malformed _ _ := trivial

end ClassScript
