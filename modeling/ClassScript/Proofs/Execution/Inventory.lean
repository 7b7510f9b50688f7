import ClassScript.Proofs.Execution.Operators

set_option autoImplicit false

/-!
# What executions take from their texts

An activity has things of its own text, such as its nodes or its tokens, and hands them on to what it
calls.  The one exception is a body, which has those of the declaration that it belongs to.  So
whatever is true of all such things in the programs of a session is true of them wherever execution
comes to, and of those of every function that a state holds: in a name, in a field, as a method value
or in a class.
-/

namespace ClassScript

open Eval

/-! ## Inventories -/

/-- What texts have of some sort, listed for the text that an activity was given itself and for
declarations. -/
structure Inventory (α : Type) where
  task : Activity → List α
  declaration : FunctionDecl → List α
  calls {p q : Point} : Calls p q → task q.task ⊆ task p.task ∨
    ∃ f values, p.task = .invoke f values ∧ q.task = .executeAll f.declaration.body
  body (d : FunctionDecl) : task (.executeAll d.body) ⊆ declaration d
  function (d : FunctionDecl) : declaration d ⊆ task (.execute (.funDecl d))
  method {d : FunctionDecl} {ds : List FunctionDecl} (name : Token) (superclass : Option Expr) :
    d ∈ ds → declaration d ⊆ task (.execute (.classDecl name superclass ds))
  first (s : Stmt) (ss : List Stmt) : task (.execute s) ⊆ task (.executeAll (s :: ss))
  rest (s : Stmt) (ss : List Stmt) : task (.executeAll ss) ⊆ task (.executeAll (s :: ss))

theorem FunctionDecl.walk_eq (d : FunctionDecl) : d.walk = Stmt.walkAll d.body := by
  obtain ⟨name, parameters, body⟩ := d
  rfl

/-- The nodes of texts. -/
def Inventory.nodes : Inventory Expr where
  task := Activity.walk
  declaration := FunctionDecl.walk
  calls := Calls.walk_subset
  body d := by
    rw [d.walk_eq]
    exact List.Subset.refl _
  function d := List.Subset.refl _
  method name superclass declared :=
    List.Subset.trans (FunctionDecl.walk_subset declared) (List.subset_append_right _ _)
  first s ss := List.subset_append_left _ _
  rest s ss := List.subset_append_right _ _

/-! ## Functions -/

/-- The functions in a value: the one that it is, or those found in the class that it is or is an
instance of. -/
inductive Value.Has : Value → Closure → Prop where
  | function (serial : Nat) (f : Closure) : Has (.function serial f) f
  | bound (serial : Nat) (f : Closure) : Has (.bound serial f) f
  | method {v : Value} {c : Class} {name : String} {f : Closure} (kind : v.class? = some c)
      (found : c.findMethod? name = some f) : Has v f

/-- The functions in the values that a state holds, in a scope or in a field. -/
inductive State.Has (σ : State) : Closure → Prop where
  | name {g : Nat} {name : String} {v : Value} {f : Closure}
      (held : σ.scopes.local? g name = some v) (has : v.Has f) : Has σ f
  | field {o : Object} {name : String} {v : Value} {f : Closure}
      (held : σ.field? o name = some v) (has : v.Has f) : Has σ f

/-- What a program did not make has no function of it. -/
theorem Value.Plain.not_has {v : Value} (plain : v.Plain) {f : Closure} : ¬v.Has f := by
  intro has
  cases has with
  | function | bound => exact plain
  | method kind found =>
    cases v with
    | ofClass | object => exact plain
    | _ => cases kind

theorem Value.has_ofClass {c : Class} {f : Closure} :
    (Value.ofClass c).Has f ↔ ∃ name, c.findMethod? name = some f := by
  constructor
  · intro has
    cases has with
    | method kind found =>
      cases kind
      exact ⟨_, found⟩
  · intro ⟨name, found⟩
    exact .method rfl found

theorem Value.has_object {o : Object} {f : Closure} :
    (Value.object o).Has f ↔ (Value.ofClass o.type).Has f := by
  rw [Value.has_ofClass]
  constructor
  · intro has
    cases has with
    | method kind found =>
      cases kind
      exact ⟨_, found⟩
  · intro ⟨name, found⟩
    exact .method rfl found

/-! ## Running -/

section Shows

variable {α : Type} (V : Inventory α) (P : α → Prop)

/-- All that a point has of its text is as said. -/
def Point.Shows (p : Point) : Prop :=
  ∀ x ∈ V.task p.task, P x

/-- All that the function has of its text is as said. -/
def Closure.Shows (f : Closure) : Prop :=
  ∀ x ∈ V.declaration f.declaration, P x

/-- The functions in the value are as said. -/
def Value.Shows (v : Value) : Prop :=
  ∀ f, v.Has f → f.Shows V P

variable {V P}

theorem Value.Shows.declare {own : ClassLayer} {superclass : Option Class}
    (declared : ∀ name f, own.methods.get? name = some f → f.Shows V P)
    (above : ∀ c ∈ superclass, (Value.ofClass c).Shows V P) :
    (Value.ofClass (Class.declare own superclass)).Shows V P := by
  intro f has
  obtain ⟨name, found⟩ := Value.has_ofClass.1 has
  rcases Class.declared_or_inherited found with mine | ⟨c, parent, inherited⟩
  · exact declared name f mine
  · exact above c parent f (Value.has_ofClass.2 ⟨name, inherited⟩)

/-- The methods of a class declaration are as its text is. -/
theorem Point.Shows.closeMethods {fuel scope : Nat} {name : Token} {superclass : Option Expr}
    {methods : List FunctionDecl} {σ : State}
    (h : Point.Shows V P ⟨fuel, .execute (.classDecl name superclass methods), σ⟩) :
    ∀ other f, (closeMethods scope methods).get? other = some f → f.Shows V P := by
  intro other f own x hx
  obtain ⟨d, declared, -, rfl⟩ := exists_of_closeMethods own
  exact h x (V.method name superclass declared hx)

/-- A scope is opened with a single name. -/
theorem State.Holds.openedWith {Q : Value → Prop} {σ : State} (h : σ.Holds Q) (enclosing : Nat)
    (name : String) {v : Value} (hv : Q v) :
    State.Holds Q { σ with scopes := σ.scopes.push [(name, v)] (some enclosing) } :=
  h.opened enclosing (forall_get?_singleton hv)

variable (V P)

/-- What all texts show, all functions show that are held. -/
def Invariant.shows : Invariant (Point.Shows V P) where
  state := State.Holds (Value.Shows V P)
  value _ v := v.Shows V P
  closure _ f := f.Shows V P
  stop _ := True
  calls {p q} reached runs calls x hx := by
    rcases V.calls calls with sub | ⟨f, values, invoked, executed⟩
    · exact reached x (sub hx)
    · rw [Point.Runs, invoked] at runs
      rw [executed] at hx
      exact runs x (V.body _ hx)
  value_grows h _ := h
  closure_grows h _ := h
  congr h scopes fields _ := h.congr scopes fields
  plain plain _ has := (plain.not_has has).elim
  local? h found := h.scopes found
  field? h found := h.fields found
  type h f has := h f (Value.has_object.2 has)
  called {σ serial f} h := h.elim (fun h => h f (.function serial f)) fun h => h f (.bound serial f)
  define _ _ h _ hv := h.define _ _ hv
  setField h _ hv := h.setField _ _ hv
  allocate _ _ h hc := ⟨h.allocate, fun f has => hc f (Value.has_object.1 has)⟩
  block {fuel body σ} _ h := by
    have empty := h.opened (b := []) σ.current fun _ _ => nofun
    exact empty.congr rfl rfl
  body {fuel f values σ} _ h _ hvs := by
    have arguments : ∀ name v, (Bindings.ofPairs
        ((f.declaration.parameters.map Token.lexeme).zip values)).get? name = some v →
        v.Shows V P :=
      fun name v hv => hvs v (List.of_mem_zip (Bindings.mem_of_get?_ofPairs hv)).2
    exact (h.opened f.scope arguments).congr rfl rfl
  leave _ h' _ := h'.congr rfl rfl
  function {fuel serial d σ} reached _ f has x hx := by
    cases has with
    | function => exact reached x (V.function d hx)
    | method kind found => cases kind
  receive _ _ h ho hc found := by
    have method := hc _ (Value.has_ofClass.2 ⟨_, found⟩)
    refine ⟨h.openedWith _ "this" ho, fun serial f has => ?_⟩
    cases has with
    | bound => exact method
    | method kind found => cases kind
  rootClass reached _ := .declare reached.closeMethods nofun
  superclass reached _ hc h := by
    refine ⟨h.openedWith _ "super" hc, fun serial => .declare reached.closeMethods ?_⟩
    intro c same
    cases same
    exact hc
  error _ _ := trivial
  spent := trivial
  malformed _ _ := trivial

variable {V P}

/-- What a state holds shows what the texts show. -/
theorem State.Holds.has {σ : State} (h : σ.Holds (Value.Shows V P)) {f : Closure} (has : σ.Has f) :
    f.Shows V P := by
  cases has with
  | name held has => exact h.scopes held f has
  | field held has => exact h.fields held f has

/-- The statements of a program show what the program shows. -/
theorem Starts.shows {fuel : Nat} {program : List Stmt} {σ : State} {p : Point}
    (all : ∀ x ∈ V.task (.executeAll program), P x) (starts : Starts fuel program σ p) :
    p.Shows V P := by
  induction starts with
  | here s ss σ => exact fun x hx => all x (V.first s ss hx)
  | @later s ss _ _ _ _ _ _ ih => exact ih fun x hx => all x (V.rest s ss hx)

/-- Before the first source there is no function of a program. -/
theorem State.Holds.shows_start (host : Host) (natives : List Native) :
    (State.start host natives).Holds (Value.Shows V P) :=
  .start fun g _ has => absurd has (Value.Plain.not_has (v := .native g) trivial)

end Shows

end ClassScript
