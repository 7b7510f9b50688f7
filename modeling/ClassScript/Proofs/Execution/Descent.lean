import ClassScript.Proofs.Execution.Invariant

set_option autoImplicit false

/-!
# Where classes come from

Every class that a program comes to hold descends from declarations that were executed: its own, and
those of its superclasses, each the class that the superclass clause below evaluated to.  Every scope
that holds a superclass was opened by such a declaration, for that class, and since a program can
neither declare nor assign `super`, the scope holds it for ever.

Both follow from one invariant of executions.
-/

namespace ClassScript

open Eval

/-! ## Descent -/

/-- The last of several methods that has a name. -/
def FunctionDecl.last? (name : String) (methods : List FunctionDecl) : Option FunctionDecl :=
  methods.reverse.find? fun d => d.name.lexeme = name

/-- A class descends from the methods that were declared for it and for its superclasses, the nearest
first. -/
inductive Descends (reached : Point → Prop) : Class → List (List FunctionDecl) → Prop where
  | root {fuel : Nat} {name : Token} {methods : List FunctionDecl} {σ : State}
      (executed : reached ⟨fuel + 1, .execute (.classDecl name none methods), σ⟩)
      (serial scope : Nat) :
      Descends reached (Class.declare ⟨serial, name.lexeme, closeMethods scope methods⟩ none)
        [methods]
  | sub {fuel : Nat} {name : Token} {e : Expr} {methods : List FunctionDecl} {σ σ₁ : State}
      {c : Class} {above : List (List FunctionDecl)}
      (executed : reached ⟨fuel + 1, .execute (.classDecl name (some e) methods), σ⟩)
      (first : evaluate fuel e σ = .ok (.ofClass c) σ₁) (descends : Descends reached c above)
      (serial scope : Nat) :
      Descends reached (Class.declare ⟨serial, name.lexeme, closeMethods scope methods⟩ (some c))
        (methods :: above)

theorem get?_closeMethods (scope : Nat) (methods : List FunctionDecl) (name : String) :
    (closeMethods scope methods).get? name =
      (FunctionDecl.last? name methods).map fun d => ⟨d, scope, d.isInitializer⟩ := by
  unfold closeMethods FunctionDecl.last?
  rw [Bindings.get?_ofPairs, ← List.map_reverse, List.find?_map, Option.map_map]
  rfl

/-- What a declaration has under a name is one of its methods, which has that name. -/
theorem exists_of_closeMethods {scope : Nat} {methods : List FunctionDecl} {name : String}
    {f : Closure} (own : (closeMethods scope methods).get? name = some f) :
    ∃ d ∈ methods, d.name.lexeme = name ∧ f = ⟨d, scope, d.isInitializer⟩ := by
  rw [get?_closeMethods] at own
  obtain ⟨d, last, rfl⟩ := Option.map_eq_some_iff.1 own
  have named : d.name.lexeme = name := by simpa using List.find?_some last
  exact ⟨d, List.mem_reverse.1 (List.mem_of_find?_eq_some last), named, rfl⟩

/-- A method that is found in a class was declared with it or is one of its superclass. -/
theorem Class.declared_or_inherited {own : ClassLayer} {superclass : Option Class} {name : String}
    {f : Closure} (found : (Class.declare own superclass).findMethod? name = some f) :
    own.methods.get? name = some f ∨ ∃ c ∈ superclass, c.findMethod? name = some f := by
  cases superclass with
  | none =>
    rw [Class.findMethod?_declare_none] at found
    exact .inl found
  | some c =>
    rw [Class.findMethod?_declare] at found
    rcases Option.or_eq_some_iff.1 found with declared | ⟨-, inherited⟩
    · exact .inl declared
    · exact .inr ⟨c, rfl, inherited⟩

/-- The method that is found is the last one that the nearest declaration has under its name. -/
theorem Descends.findMethod? {reached : Point → Prop} {c : Class}
    {texts : List (List FunctionDecl)} (h : Descends reached c texts) (name : String) :
    (c.findMethod? name).map Closure.declaration =
      texts.findSome? (FunctionDecl.last? name) := by
  induction h with
  | @root _ _ methods _ _ serial scope =>
    rw [Class.findMethod?_declare_none, get?_closeMethods, List.findSome?_singleton]
    cases FunctionDecl.last? name methods <;> rfl
  | @sub _ _ _ methods _ _ c above _ _ _ serial scope ih =>
    rw [Class.findMethod?_declare, get?_closeMethods, List.findSome?_cons]
    cases FunctionDecl.last? name methods with
    | some d => rfl
    | none => exact ih

/-- A method that is found is an initializer if it was declared as one. -/
theorem Descends.isInitializer {reached : Point → Prop} {c : Class} {texts : List (List FunctionDecl)}
    {name : String} {method : Closure} (h : Descends reached c texts)
    (found : c.findMethod? name = some method) :
    method.isInitializer = method.declaration.isInitializer := by
  have closed : ∀ {scope methods}, (closeMethods scope methods).get? name = some method →
      method.isInitializer = method.declaration.isInitializer := by
    intro scope methods own
    obtain ⟨d, -, -, rfl⟩ := exists_of_closeMethods own
    rfl
  induction h with
  | root =>
    rw [Class.findMethod?_declare_none] at found
    exact closed found
  | sub _ _ _ _ _ ih =>
    rcases Class.declared_or_inherited found with own | ⟨c, ⟨⟩, inherited⟩
    · exact closed own
    · exact ih inherited

/-! ## Tracing -/

variable (X : Execution)

/-- A class descends from declarations. -/
def Class.Traced (c : Class) : Prop :=
  ∃ texts, Descends X.reached c texts

/-- The class in a value descends from declarations, as does that of an instance. -/
def Value.Traced : Value → Prop
  | .ofClass c => c.Traced X
  | .object o => o.type.Traced X
  | _ => True

/-- A scope was opened by a declaration for the class that its superclass clause evaluated to. -/
inductive HoldsSuper (reached : Point → Prop) : Nat → Value → Point → Prop where
  | declared {fuel : Nat} {name : Token} {e : Expr} {methods : List FunctionDecl} {σ σ₁ : State}
      {c : Class} (executed : reached ⟨fuel + 1, .execute (.classDecl name (some e) methods), σ⟩)
      (first : evaluate fuel e σ = .ok (.ofClass c) σ₁) :
      HoldsSuper reached σ₁.scopes.size (.ofClass c)
        ⟨fuel + 1, .execute (.classDecl name (some e) methods), σ⟩

/-- All classes in the state descend from declarations, and so do all scopes with a superclass. -/
structure State.Traced (σ : State) : Prop where
  holds : σ.Holds (Value.Traced X)
  super : ∀ f v, σ.scopes.local? f "super" = some v → ∃ p, HoldsSuper X.reached f v p

namespace State.Traced

variable {X} {σ : State}

theorem scopes (h : σ.Traced X) (f : Nat) (name : String) (v : Value)
    (held : σ.scopes.local? f name = some v) : v.Traced X :=
  h.holds.scopes held

/-- What a state has besides its scopes and fields does not matter. -/
theorem congr {σ' : State} (h : σ.Traced X) (scopes : σ'.scopes = σ.scopes)
    (fields : σ'.fields = σ.fields) : σ'.Traced X := by
  refine ⟨h.holds.congr scopes fields, ?_⟩
  rw [scopes]
  exact h.super

/-- A name, which is not `super`, is given a value. -/
theorem define (h : σ.Traced X) {name : String} {v : Value} (f : Nat) (named : IsName name)
    (traced : v.Traced X) : State.Traced X { σ with scopes := σ.scopes.define f name v } where
  holds := h.holds.define f name traced
  super g w hw := by
    rw [Scopes.local?_define, if_neg fun same => named.2 same.2.2.symm] at hw
    exact h.super g w hw

/-- A scope is opened. -/
theorem opened (h : σ.Traced X) {b : Bindings Value} {enclosing : Nat}
    (traced : ∀ name v, b.get? name = some v → v.Traced X)
    (super : ∀ v, b.get? "super" = some v → ∃ p, HoldsSuper X.reached σ.scopes.size v p) :
    State.Traced X { σ with scopes := σ.scopes.push b (some enclosing) } where
  holds := h.holds.opened enclosing traced
  super f v hv := by
    rw [Scopes.local?_push] at hv
    split at hv
    · rename_i new
      rw [new]
      exact super v hv
    · exact h.super f v hv

end State.Traced

/-! ## Descent is an invariant -/

/-- No parameter of a function is `super`. -/
theorem get?_parameters_super {parameters : List Token} (named : ∀ t ∈ parameters, IsName t.lexeme)
    (values : List Value) :
    (Bindings.ofPairs ((parameters.map Token.lexeme).zip values)).get? "super" = none := by
  cases found : (Bindings.ofPairs ((parameters.map Token.lexeme).zip values)).get? "super" with
  | none => rfl
  | some v =>
    obtain ⟨t, ht, same⟩ := List.mem_map.1 (List.of_mem_zip (Bindings.mem_of_get?_ofPairs found)).1
    exact absurd same (named t ht).2

/-- All classes and all scopes with a superclass come from declarations that were executed. -/
def Invariant.tracing : Invariant X.reached where
  state := State.Traced X
  value _ := Value.Traced X
  closure _ _ := True
  stop _ := True
  calls reached _ calls := X.calls reached calls
  value_grows h _ := h
  closure_grows h _ := h
  congr h scopes fields _ := h.congr scopes fields
  plain {σ v} plain := by cases v <;> trivial
  local? h found := h.scopes _ _ _ found
  field? h found := h.holds.fields found
  type h := h
  called _ := trivial
  define reached writes h _ hv := h.define _ ((X.proper reached).isName writes) hv
  setField h _ hv := ⟨h.holds.setField _ _ hv, h.super⟩
  allocate _ _ h hc := ⟨⟨h.holds.allocate, h.super⟩, hc⟩
  block _ h := (h.opened (b := []) nofun nofun).congr rfl rfl
  body reached h _ hvs := by
    refine (h.opened (fun name v hv => ?_) fun v hv => ?_).congr rfl rfl
    · exact hvs v (List.of_mem_zip (Bindings.mem_of_get?_ofPairs hv)).2
    · rw [get?_parameters_super (X.proper reached)] at hv
      cases hv
  leave _ h _ := h.congr rfl rfl
  function _ _ := trivial
  receive _ _ h ho _ _ := by
    refine ⟨h.opened (fun name v hv => ?_) fun v hv => ?_, fun _ => trivial⟩
    · obtain ⟨-, rfl⟩ := eq_of_get?_singleton hv
      exact ho
    · exact absurd (eq_of_get?_singleton hv).1 (by decide)
  rootClass reached _ := ⟨_, .root reached _ _⟩
  superclass reached first hc h := by
    obtain ⟨above, descends⟩ := hc
    refine ⟨h.opened (fun name v hv => ?_) fun v hv => ?_,
      fun serial => ⟨_, .sub reached first descends serial _⟩⟩
    · obtain ⟨-, rfl⟩ := eq_of_get?_singleton hv
      exact ⟨above, descends⟩
    · obtain ⟨-, rfl⟩ := eq_of_get?_singleton hv
      rw [Scopes.size_define]
      exact ⟨_, .declared reached first⟩
  error _ _ := trivial
  spent := trivial
  malformed _ _ := trivial

variable {X}

/-- The class in which a method is found where it is bound descends from declarations. -/
theorem Obtains.traced {p : Point} {o : Object} {σ : State} {method : Closure}
    (h : Obtains p o σ method) (reached : X.reached p) (obeys : p.Obeys (.tracing X)) :
    ∃ (c : Class) (name : String), c.Traced X ∧ c.findMethod? name = some method := by
  cases h with
  | @property fuel object name _ _ _ _ first missing found =>
    have keeps := (allKeep (.tracing X) fuel).evaluate (X.calls reached (.readObject ..)) obeys.state
    exact ⟨_, _, (keeps.of_ok first).2, found⟩
  | superMethod _ superclass _ found =>
    exact ⟨_, _, (Invariant.tracing X).getAt? obeys.state superclass, found⟩
  | initializer _ _ found => exact ⟨_, _, obeys.task.1, found⟩

end ClassScript
