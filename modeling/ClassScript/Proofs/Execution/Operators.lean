import ClassScript.Proofs.Execution.Descent
import ClassScript.Proofs.Grammar.Operators

set_option autoImplicit false

/-!
# Trees that can be run

A program that was read is run without meeting a node that has no meaning, whatever the lexemes of
its tokens are.  Its nodes have operators of their sorts, and so have those of all functions that it
makes, also of functions that earlier programs left behind.

Of classes it is known besides that what is found in them under a name was declared under it.
Hence an initializer is marked as one in whichever class it is found.
-/

namespace ClassScript

open Eval

/-! ## The nodes of an activity -/

/-- The nodes that an activity was given itself. -/
def Activity.walk : Activity → List Expr
  | .evaluate e => e.walk
  | .evaluateAll es => Expr.walkAll es
  | .call .. => []
  | .invoke .. => []
  | .execute s => s.walk
  | .executeAll ss => Stmt.walkAll ss
  | .repeatWhile condition body => condition.walk ++ body.walk

theorem Expr.mem_walk (e : Expr) : e ∈ e.walk := by
  unfold Expr.walk
  exact List.mem_cons_self

/-- What is called is given nodes of the caller, unless it is the body of a function. -/
theorem Calls.walk_subset {p q : Point} (calls : Calls p q) :
    q.task.walk ⊆ p.task.walk ∨ ∃ f values, p.task = .invoke f values ∧
      q.task = .executeAll f.declaration.body := by
  cases calls with
  | body => exact .inr ⟨_, _, rfl, rfl⟩
  | call | function | method | initializer => exact .inl (List.nil_subset _)
  | grouping | operand | assigned | readObject => exact .inl (List.subset_cons_self _ _)
  | binaryLeft | logicalLeft | callee | setObject =>
    exact .inl fun e he => .tail _ (List.mem_append_left _ he)
  | binaryRight | logicalRight | arguments | setValue =>
    exact .inl fun e he => .tail _ (List.mem_append_right _ he)
  | head | ifThenCondition | superclass | first | condition =>
    exact .inl (List.subset_append_left _ _)
  | tail | ifThen | elseBranch | rest | round => exact .inl (List.subset_append_right _ _)
  | ifElseCondition =>
    exact .inl fun e he => List.mem_append_left _ (List.mem_append_left _ he)
  | thenBranch => exact .inl fun e he => List.mem_append_left _ (List.mem_append_right _ he)
  | expression | print | varDecl | block | whileLoop | returned | again =>
    exact .inl (List.Subset.refl _)

/-! ## Functions and classes -/

/-- The nodes of a body have operators of their sorts. -/
def Closure.Operable (f : Closure) : Prop :=
  AllOperable f.declaration.walk

/-- What is found in a class was declared under its name, marked as it was declared, with a body that
can be run. -/
def Class.Operable (c : Class) : Prop :=
  ∀ name method, c.findMethod? name = some method →
    method.Operable ∧ method.name = name ∧ method.isInitializer = method.declaration.isInitializer

/-- An initializer that is found is marked as one. -/
theorem Class.Operable.isInitializer {c : Class} {method : Closure} (h : c.Operable)
    (found : c.findMethod? initializerName = some method) : method.isInitializer = true := by
  obtain ⟨-, named, marked⟩ := h _ _ found
  rw [marked, FunctionDecl.isInitializer]
  exact beq_iff_eq.2 named

theorem FunctionDecl.walk_subset {f : FunctionDecl} {methods : List FunctionDecl}
    (declared : f ∈ methods) : f.walk ⊆ FunctionDecl.walkAll methods := by
  induction methods with
  | nil => cases declared
  | cons g methods ih =>
    rcases List.mem_cons.1 declared with rfl | later
    · exact List.subset_append_left _ _
    · exact List.Subset.trans (ih later) (List.subset_append_right _ _)

/-- The methods of a declaration. -/
theorem operable_closeMethods {scope : Nat} {methods : List FunctionDecl} {name : String}
    {method : Closure} (all : AllOperable (FunctionDecl.walkAll methods))
    (own : (closeMethods scope methods).get? name = some method) :
    method.Operable ∧ method.name = name ∧
      method.isInitializer = method.declaration.isInitializer := by
  obtain ⟨d, declared, named, rfl⟩ := exists_of_closeMethods own
  exact ⟨all.subset (FunctionDecl.walk_subset declared), named, rfl⟩

theorem Class.Operable.declare {serial scope : Nat} {name : String} {methods : List FunctionDecl}
    {superclass : Option Class} (all : AllOperable (FunctionDecl.walkAll methods))
    (above : ∀ c ∈ superclass, c.Operable) :
    (Class.declare ⟨serial, name, closeMethods scope methods⟩ superclass).Operable := by
  intro other method found
  rcases Class.declared_or_inherited found with own | ⟨c, parent, inherited⟩
  · exact operable_closeMethods all own
  · exact above c parent other method inherited

/-- The class that a value is, or is an instance of. -/
def Value.class? : Value → Option Class
  | .ofClass c => some c
  | .object o => some o.type
  | _ => none

/-- The functions and classes in a value can be run. -/
def Value.Operable (v : Value) : Prop :=
  match v with
  | .function _ f => f.Operable
  | .bound _ f => f.Operable
  | v => ∀ c ∈ v.class?, c.Operable

theorem Value.Operable.class {v : Value} {c : Class} (h : v.Operable) (hc : v.class? = some c) :
    c.Operable := by
  cases v with
  | function | bound => cases hc
  | _ => exact h c hc

/-! ## Running -/

/-- A name that the present scope has can be assigned. -/
theorem assignOutward_of_local {σ : State} {name : Token}
    (has : (σ.scopes.local? σ.current name.lexeme).isSome) (v : Value) :
    assignOutward name v σ =
      .ok ⟨⟩ { σ with scopes := σ.scopes.define σ.current name.lexeme v } := by
  have owner : σ.scopes.owner? σ.current name.lexeme = some σ.current := by
    rw [Scopes.owner?, Scopes.ownerWithin, if_pos has]
  unfold assignOutward
  rw [run_bind, run_get]
  simp only [owner]
  rfl

/-- The present scope is there, and all functions and classes can be run. -/
structure State.Operable (σ : State) : Prop where
  current : σ.current < σ.scopes.size
  holds : σ.Holds Value.Operable

namespace State.Operable

variable {σ σ' : State}

theorem congr (h : σ.Operable) (scopes : σ'.scopes = σ.scopes) (fields : σ'.fields = σ.fields)
    (current : σ'.current = σ.current) : σ'.Operable where
  current := by
    rw [current, scopes]
    exact h.current
  holds := h.holds.congr scopes fields

theorem opened (h : σ.Operable) {b : Bindings Value} (enclosing : Nat)
    (all : ∀ name v, b.get? name = some v → v.Operable) :
    State.Operable { σ with scopes := σ.scopes.push b (some enclosing) } where
  current := Nat.lt_of_lt_of_le h.current (proceeds_openScope b enclosing σ).size
  holds := h.holds.opened enclosing all

/-- A scope is opened and becomes the present one. -/
theorem within (h : σ.Operable) {b : Bindings Value} (enclosing : Nat)
    (all : ∀ name v, b.get? name = some v → v.Operable) : (σ.within b enclosing).Operable where
  current := Nat.lt_of_lt_of_eq (Nat.lt_succ_self _) (Scopes.size_push ..).symm
  holds := (h.holds.opened enclosing all).congr rfl rfl

theorem start (host : Host) (natives : List Native) : (State.start host natives).Operable where
  current := current_lt_start host natives
  holds := .start fun _ => nofun

/-- The name of a class can be assigned, since it was declared in the scope that it is looked for
from. -/
theorem declareClass (h : σ.Operable) (name : Token) (superclass : Option Class)
    (methods : List FunctionDecl) :
    ∃ σ', Eval.declareClass name superclass methods σ = .ok ⟨⟩ σ' := by
  let named := σ.scopes.define σ.current name.lexeme .nil
  have declared : (named.local? σ.current name.lexeme).isSome := by
    rw [Scopes.local?_define, if_pos ⟨rfl, h.current, rfl⟩]
    rfl
  cases superclass with
  | none =>
    let τ : State := { σ with scopes := named, nextSerial := σ.nextSerial + 1 }
    have has : (τ.scopes.local? τ.current name.lexeme).isSome := declared
    exact ⟨_, Eq.trans (b := assignOutward name _ τ) rfl (assignOutward_of_local has _)⟩
  | some c =>
    let opened := named.push [("super", .ofClass c)] (some σ.current)
    let τ : State := { σ with scopes := opened, nextSerial := σ.nextSerial + 1 }
    have has : (τ.scopes.local? τ.current name.lexeme).isSome := by
      have other : σ.current ≠ named.size := by
        rw [Scopes.size_define]
        exact Nat.ne_of_lt h.current
      change (opened.local? σ.current name.lexeme).isSome
      rw [Scopes.local?_push, if_neg other]
      exact declared
    exact ⟨_, Eq.trans (b := assignOutward name _ τ) rfl (assignOutward_of_local has _)⟩

end State.Operable

/-- The nodes that a point was given have operators of their sorts. -/
def Point.Operable (p : Point) : Prop :=
  AllOperable p.task.walk

/-- Everything that a program which was read comes to hold can be run, so that no run stops for a node
without meaning. -/
def Invariant.operable : Invariant Point.Operable where
  state := State.Operable
  value _ := Value.Operable
  closure _ := Closure.Operable
  stop i := i ≠ .malformed
  calls {p q} reached runs calls := by
    rcases calls.walk_subset with sub | ⟨f, values, invoked, executed⟩
    · exact reached.subset sub
    · rw [Point.Runs, invoked] at runs
      rw [Point.Operable, executed]
      obtain ⟨⟨name, parameters, body⟩, scope, isInitializer⟩ := f
      exact runs
  value_grows h _ := h
  closure_grows h _ := h
  congr := State.Operable.congr
  plain {σ v} plain := by cases v <;> first | exact plain.elim | exact nofun
  local? h found := h.holds.scopes found
  field? h found := h.holds.fields found
  type h := h
  called h := h.elim id id
  define {p σ f name v} _ _ h _ hv :=
    ⟨Nat.lt_of_lt_of_le h.current (onward_define v σ f name).size, h.holds.define _ _ hv⟩
  setField h _ hv := ⟨h.current, h.holds.setField _ _ hv⟩
  allocate _ _ h hc := ⟨⟨h.current, h.holds.allocate⟩, hc⟩
  block _ h := h.within _ nofun
  body _ h _ hvs :=
    h.within _ fun _ v hv => hvs v (List.of_mem_zip (Bindings.mem_of_get?_ofPairs hv)).2
  leave h h' size := ⟨Nat.lt_of_lt_of_le h.current size, h'.holds.congr rfl rfl⟩
  function reached _ := reached
  receive _ _ h ho hc found := by
    refine ⟨h.opened _ fun name v hv => ?_, fun _ => (hc _ rfl _ _ found).1⟩
    obtain ⟨-, rfl⟩ := eq_of_get?_singleton hv
    exact ho
  rootClass reached _ := by
    rintro c ⟨⟩
    exact .declare reached nofun
  superclass reached _ hc h := by
    refine ⟨h.opened _ fun name v hv => ?_, fun serial => ?_⟩
    · obtain ⟨-, rfl⟩ := eq_of_get?_singleton hv
      exact hc
    · rintro c ⟨⟩
      exact .declare (reached.subset (List.subset_append_right _ _)) hc
  error _ _ := nofun
  spent := nofun
  malformed {fuel e σ} reached inoperable := absurd (reached e e.mem_walk) inoperable

end ClassScript
