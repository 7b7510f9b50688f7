import ClassScript.Proofs.Execution.Held
import ClassScript.Proofs.Execution.Order
import ClassScript.Proofs.Scope.Access
import ClassScript.Proofs.Tree.Operators

set_option autoImplicit false

/-!
# Invariants of executions

Something that holds of all states, of all values and of all functions that are called is given by
what it says and by one rule for each thing that an execution does: giving a name or a field a value,
making an instance, opening a scope and leaving it, making a function, a class or a method.  Where a
rule is about a construct of the program, it may use the point at which the construct is at work.

What is said of a value may depend on the state that it is met in, as long as it stays true while
scopes and instances are added.  What is known of a point may depend on how it was called: a body is
executed for a function of which the invariant holds.

From the rules it follows that every action keeps the invariant, and so it holds at every point.
There is one lemma for every way to put actions together and one for every single action.
-/

namespace ClassScript

open Eval

/-! ## Executions -/

/-- What a point writes itself it writes to a name. -/
def Point.Proper (p : Point) : Prop :=
  match p.task with
  | .evaluate e => ∀ r ∈ e.reference?, r.Spelled
  | .invoke f _ => ∀ t ∈ f.declaration.parameters, IsName t.lexeme
  | .execute s => ∀ t ∈ s.declares?, IsName t.lexeme
  | _ => True

/-- What a point writes itself it writes to the name. -/
def Point.Writes (p : Point) (name : String) : Prop :=
  match p.task with
  | .evaluate (.assign _ target _) => target.lexeme = name
  | .execute s => ∃ t ∈ s.declares?, t.lexeme = name
  | _ => False

theorem Point.Proper.isName {p : Point} {name : String} (proper : p.Proper) (writes : p.Writes name) :
    IsName name := by
  obtain ⟨fuel, task, σ⟩ := p
  cases task with
  | evaluate e =>
    cases e with
    | assign id target value =>
      have named : IsName target.lexeme := proper ⟨.assign, id, target⟩ rfl
      exact writes ▸ named
    | _ => exact writes.elim
  | execute s =>
    obtain ⟨t, declares, same⟩ := writes
    exact same ▸ proper t declares
  | _ => exact writes.elim

/-- The function whose body a point runs is as said. -/
def Point.Runs (closure : State → Closure → Prop) (p : Point) : Prop :=
  match p.task with
  | .invoke f _ => closure p.state f
  | _ => True

/-- The points of executions. -/
structure Execution where
  reached : Point → Prop
  calls : ∀ {p q : Point}, reached p → Calls p q → reached q
  proper : ∀ {p : Point}, reached p → p.Proper

/-- At a point, a method is bound to an instance, in a state and under the name by which the class of
the instance, or a superclass, has it. -/
inductive Obtains : Point → Object → State → Closure → Prop where
  | property {fuel : Nat} {object : Expr} {name : Token} {σ σ₁ : State} {o : Object}
      {method : Closure} (first : evaluate fuel object σ = .ok (.object o) σ₁)
      (missing : σ₁.field? o name.lexeme = none)
      (found : o.type.findMethod? name.lexeme = some method) :
      Obtains ⟨fuel + 1, .evaluate (.get object name), σ⟩ o σ₁ method
  | superMethod {fuel id nearer : Nat} {keyword name : Token} {σ : State} {c : Class}
      {o : Object} {method : Closure} (recorded : σ.distances.get? id = some (nearer + 1))
      (superclass : σ.scopes.getAt? σ.current (nearer + 1) keyword.lexeme = some (.ofClass c))
      (receiver : σ.scopes.getAt? σ.current nearer "this" = some (.object o))
      (found : c.findMethod? name.lexeme = some method) :
      Obtains ⟨fuel + 1, .evaluate (.super id keyword name), σ⟩ o σ method
  | initializer {fuel line : Nat} {c : Class} {values : List Value} {σ σ₁ : State} {o : Object}
      {method : Closure} (arity : values.length = c.arity) (made : allocate c σ = .ok o σ₁)
      (found : c.findMethod? initializerName = some method) :
      Obtains ⟨fuel + 1, .call (.ofClass c) values line, σ⟩ o σ₁ method

/-- At a point, an error may be raised that is none of what it calls.  The construct that the point
is at says what can go wrong, and which of its tokens the error is placed by. -/
inductive Raises : Point → RuntimeError → Prop where
  | name {fuel id : Nat} {token : Token} {σ : State} :
      Raises ⟨fuel, .evaluate (.name id token), σ⟩ ⟨.undefinedVariable token.lexeme, token.line⟩
  | assign {fuel id : Nat} {target : Token} {value : Expr} {σ : State} :
      Raises ⟨fuel, .evaluate (.assign id target value), σ⟩
        ⟨.undefinedVariable target.lexeme, target.line⟩
  | this {fuel id : Nat} {keyword : Token} {σ : State} :
      Raises ⟨fuel, .evaluate (.this id keyword), σ⟩
        ⟨.undefinedVariable keyword.lexeme, keyword.line⟩
  | super {fuel id : Nat} {keyword method : Token} {σ : State} {missing : String} :
      Raises ⟨fuel, .evaluate (.super id keyword method), σ⟩
        ⟨.undefinedVariable missing, keyword.line⟩
  | superMethod {fuel id : Nat} {keyword method : Token} {σ : State} :
      Raises ⟨fuel, .evaluate (.super id keyword method), σ⟩
        ⟨.undefinedProperty method.lexeme, method.line⟩
  | unary {fuel : Nat} {operator : Token} {operand : Expr} {σ : State} :
      Raises ⟨fuel, .evaluate (.unary operator operand), σ⟩ ⟨.operandNotNumber, operator.line⟩
  | binary {fuel : Nat} {left right : Expr} {operator : Token} {σ : State} :
      Raises ⟨fuel, .evaluate (.binary left operator right), σ⟩
        ⟨.operandsNotNumbers, operator.line⟩
  | sum {fuel : Nat} {left right : Expr} {operator : Token} {σ : State} :
      Raises ⟨fuel, .evaluate (.binary left operator right), σ⟩
        ⟨.operandsNotAddable, operator.line⟩
  | property {fuel : Nat} {object : Expr} {name : Token} {σ : State} :
      Raises ⟨fuel, .evaluate (.get object name), σ⟩ ⟨.undefinedProperty name.lexeme, name.line⟩
  | get {fuel : Nat} {object : Expr} {name : Token} {σ : State} :
      Raises ⟨fuel, .evaluate (.get object name), σ⟩ ⟨.propertyOfNonInstance, name.line⟩
  | set {fuel : Nat} {object value : Expr} {name : Token} {σ : State} :
      Raises ⟨fuel, .evaluate (.set object name value), σ⟩ ⟨.fieldOfNonInstance, name.line⟩
  | call {fuel line : Nat} {f : Value} {values : List Value} {σ : State} :
      Raises ⟨fuel, .call f values line, σ⟩ ⟨.notCallable, line⟩
  | arity {fuel line expected : Nat} {f : Value} {values : List Value} {σ : State} :
      Raises ⟨fuel, .call f values line, σ⟩ ⟨.arityMismatch expected values.length, line⟩
  | native {fuel line : Nat} {f : Value} {values : List Value} {σ : State} {message : String} :
      Raises ⟨fuel, .call f values line, σ⟩ ⟨.native message, line⟩
  | print {fuel : Nat} {value : Expr} {σ : State} :
      Raises ⟨fuel, .execute (.print value), σ⟩ ⟨.outputFull, value.line?.getD 0⟩
  | superclass {fuel : Nat} {name : Token} {e : Expr} {methods : List FunctionDecl} {σ : State} :
      Raises ⟨fuel, .execute (.classDecl name (some e) methods), σ⟩
        ⟨.superclassNotClass, e.line?.getD name.line⟩
  | className {fuel : Nat} {name : Token} {superclass : Option Expr}
      {methods : List FunctionDecl} {σ : State} :
      Raises ⟨fuel, .execute (.classDecl name superclass methods), σ⟩
        ⟨.undefinedVariable name.lexeme, name.line⟩

/-! ## Rules -/

/-- A value that is not made by the program. -/
def Value.Plain : Value → Prop
  | .function .. | .bound .. | .ofClass _ | .object _ => False
  | .nil | .bool _ | .number _ | .text _ | .native _ => True

/-- The state with a new scope, which is present. -/
def State.within (σ : State) (bindings : Bindings Value) (enclosing : Nat) : State :=
  { σ with scopes := σ.scopes.push bindings (some enclosing), current := σ.scopes.size }

/-- What holds throughout an execution with these points. -/
structure Invariant (R : Point → Prop) where
  state : State → Prop
  value : State → Value → Prop
  /-- of the functions that are called -/
  closure : State → Closure → Prop
  /-- of what a run stops early with -/
  stop : Interrupt → Prop
  calls {p q : Point} : R p → p.Runs closure → Calls p q → R q
  value_grows {σ σ' : State} {v : Value} : value σ v → σ.Grows σ' → value σ' v
  closure_grows {σ σ' : State} {f : Closure} : closure σ f → σ.Grows σ' → closure σ' f
  congr {σ σ' : State} : state σ → σ'.scopes = σ.scopes → σ'.fields = σ.fields →
    σ'.current = σ.current → state σ'
  plain {σ : State} {v : Value} : v.Plain → value σ v
  local? {σ : State} {f : Nat} {name : String} {v : Value} : state σ →
    σ.scopes.local? f name = some v → value σ v
  field? {σ : State} {o : Object} {name : String} {v : Value} : state σ →
    σ.field? o name = some v → value σ v
  type {σ : State} {o : Object} : value σ (.object o) → value σ (.ofClass o.type)
  called {σ : State} {serial : Nat} {f : Closure} :
    value σ (.function serial f) ∨ value σ (.bound serial f) → closure σ f
  /-- a name is given a value in the present scope, or in a scope that has it -/
  define {p : Point} {σ : State} {f : Nat} {name : String} {v : Value} : R p → p.Writes name →
    state σ → f = σ.current ∨ (σ.scopes.local? f name).isSome → value σ v →
    state { σ with scopes := σ.scopes.define f name v }
  setField {σ : State} {o : Object} {name : String} {v : Value} : state σ → value σ (.object o) →
    value σ v → state (σ.setField o name v)
  allocate {fuel line : Nat} {c : Class} {values : List Value} {σ : State} :
    R ⟨fuel + 1, .call (.ofClass c) values line, σ⟩ → values.length = c.arity → state σ →
    value σ (.ofClass c) →
    let made := { σ with fields := σ.fields.push [] }
    state made ∧ value made (.object ⟨σ.fields.size, c⟩)
  block {fuel : Nat} {body : List Stmt} {σ : State} :
    R ⟨fuel + 1, .execute (.block body), σ⟩ → state σ → state (σ.within [] σ.current)
  body {fuel : Nat} {f : Closure} {values : List Value} {σ : State} :
    R ⟨fuel + 1, .invoke f values, σ⟩ → state σ → closure σ f → (∀ v ∈ values, value σ v) →
    state (σ.within (Bindings.ofPairs ((f.declaration.parameters.map Token.lexeme).zip values))
      f.scope)
  leave {σ σ' : State} : state σ → state σ' → σ.scopes.size ≤ σ'.scopes.size →
    state { σ' with current := σ.current }
  function {fuel serial : Nat} {declaration : FunctionDecl} {σ : State} :
    R ⟨fuel + 1, .execute (.funDecl declaration), σ⟩ → state σ →
    value σ (.function serial ⟨declaration, σ.current, false⟩)
  receive {p : Point} {o : Object} {c : Class} {name : String} {method : Closure} {σ : State} :
    R p → Obtains p o σ method → state σ → value σ (.object o) → value σ (.ofClass c) →
    c.findMethod? name = some method →
    let opened := { σ with scopes := σ.scopes.push [("this", .object o)] (some method.scope) }
    state opened ∧ ∀ serial, value opened (.bound serial { method with scope := σ.scopes.size })
  rootClass {fuel serial : Nat} {name : Token} {methods : List FunctionDecl} {σ : State} :
    R ⟨fuel + 1, .execute (.classDecl name none methods), σ⟩ → state σ →
    value σ (.ofClass (Class.declare ⟨serial, name.lexeme, closeMethods σ.current methods⟩ none))
  superclass {fuel : Nat} {name : Token} {e : Expr} {methods : List FunctionDecl}
    {σ σ₁ : State} {c : Class} :
    R ⟨fuel + 1, .execute (.classDecl name (some e) methods), σ⟩ →
    evaluate fuel e σ = .ok (.ofClass c) σ₁ → value σ₁ (.ofClass c) →
    let named := σ₁.scopes.define σ₁.current name.lexeme .nil
    let opened := { σ₁ with scopes := named.push [("super", .ofClass c)] (some σ₁.current) }
    state { σ₁ with scopes := named } →
    state opened ∧ ∀ serial, value opened (.ofClass (Class.declare
      ⟨serial, name.lexeme, closeMethods σ₁.scopes.size methods⟩ (some c)))
  error {p : Point} {e : RuntimeError} : R p → Raises p e → stop (.error e)
  spent : stop .outOfFuel
  malformed {fuel : Nat} {e : Expr} {σ : State} :
    R ⟨fuel + 1, .evaluate e, σ⟩ → ¬e.Operable → stop .malformed

variable {R : Point → Prop} (I : Invariant R)

/-- A `return` on its way has a value as the invariant says. -/
def Invariant.flow (σ : State) : Flow → Prop
  | .normal => True
  | .returned v => I.value σ v

theorem Invariant.flow_grows {σ σ' : State} {flow : Flow} (h : I.flow σ flow) (grows : σ.Grows σ') :
    I.flow σ' flow := by
  cases flow with
  | normal => trivial
  | returned v => exact I.value_grows h grows

/-! ## Putting actions together -/

/-- The action leaves the invariant in place, and what it yields or stops with is as said. -/
structure Keeps (σ : State) {α : Type} (x : Eval α) (Q : State → α → Prop) : Prop where
  leaves : I.state (x.leaves σ)
  yields : ∀ a σ', x σ = .ok a σ' → Q σ' a
  stops : ∀ i σ', x σ = .error i σ' → I.stop i

namespace Keeps

variable {I} {σ : State} {α β : Type} {x : Eval α} {k : α → Eval β} {Q : State → α → Prop}
  {T : State → β → Prop}

theorem of_ok {a : α} {σ' : State} (h : Keeps I σ x Q) (ran : x σ = .ok a σ') :
    I.state σ' ∧ Q σ' a := by
  have left := h.leaves
  rw [leaves_of_ok ran] at left
  exact ⟨left, h.yields a σ' ran⟩

protected theorem bind (h : Keeps I σ x Q)
    (next : ∀ a σ', x σ = .ok a σ' → I.state σ' → Q σ' a → Keeps I σ' (k a) T) :
    Keeps I σ (x >>= k) T := by
  rcases leaves_cases x σ with ⟨a, ran⟩ | ⟨i, ran⟩
  · have rest := next a _ ran h.leaves (h.yields a _ ran)
    have runs := run_bind σ x k
    rw [ran] at runs
    refine ⟨?_, fun b σ' ran' => ?_, fun i σ' ran' => ?_⟩
    · rw [leaves_bind ran]
      exact rest.leaves
    · exact rest.yields b σ' (runs.symm.trans ran')
    · exact rest.stops i σ' (runs.symm.trans ran')
  · have stops := run_bind_error k ran
    refine ⟨?_, fun b σ' ran' => ?_, fun j σ' ran' => ?_⟩
    · rw [leaves_of_error stops]
      exact h.leaves
    · rw [stops] at ran'
      cases ran'
    · rw [stops] at ran'
      cases ran'
      exact h.stops i _ ran

theorem congr {y : Eval α} (same : x σ = y σ) (h : Keeps I σ y Q) : Keeps I σ x Q := by
  refine ⟨?_, fun a σ' ran => h.yields a σ' (same ▸ ran), fun i σ' ran => h.stops i σ' (same ▸ ran)⟩
  rw [leaves_congr same]
  exact h.leaves

theorem done {a : α} {σ' : State} (ran : x σ = .ok a σ') (holds : I.state σ') (q : Q σ' a) :
    Keeps I σ x Q := by
  refine ⟨?_, fun b σ'' ran' => ?_, fun i σ'' ran' => ?_⟩
  · rw [leaves_of_ok ran]
    exact holds
  · cases ran.symm.trans ran'
    exact q
  · cases ran.symm.trans ran'

theorem stopped {i : Interrupt} (ran : x σ = .error i σ) (holds : I.state σ) (stop : I.stop i) :
    Keeps I σ x Q := by
  refine ⟨?_, fun b σ'' ran' => ?_, fun j σ'' ran' => ?_⟩
  · rw [leaves_of_error ran]
    exact holds
  · cases ran.symm.trans ran'
  · cases ran.symm.trans ran'
    exact stop

protected theorem pure {a : α} (holds : I.state σ) (q : Q σ a) : Keeps I σ (pure a) Q :=
  done rfl holds q

theorem fail {fault : RuntimeFault} {line : Nat} (holds : I.state σ)
    (stop : I.stop (.error ⟨fault, line⟩)) : Keeps I σ (Eval.fail fault line) Q :=
  stopped rfl holds stop

theorem spent (holds : I.state σ) : Keeps I σ (Eval.spent : Eval α) Q :=
  stopped rfl holds I.spent

/-- After reading the state, an action may depend on it. -/
theorem read {l : State → Eval β} (h : Keeps I σ (l σ) T) : Keeps I σ (MonadState.get >>= l) T :=
  congr (show (MonadState.get >>= l) σ = l σ σ from rfl) h

/-- A scope is opened, and left once an action is done that goes on there. -/
theorem within {b : Bindings Value} {enclosing : Nat} {x : Eval Flow} (holds : I.state σ)
    (onward : Proceeds x) (h : Keeps I (σ.within b enclosing) x I.flow) :
    Keeps I σ (openScope b enclosing >>= fun scope => inScope scope x) I.flow := by
  have opens : openScope b enclosing σ =
      .ok σ.scopes.size { σ with scopes := σ.scopes.push b (some enclosing) } := rfl
  have size : σ.scopes.size ≤ (x.leaves (σ.within b enclosing)).scopes.size := by
    refine Nat.le_trans ?_ (onward _).size
    rw [State.within, Scopes.size_push]
    exact Nat.le_succ _
  refine ⟨?_, fun flow σ' ran => ?_, fun i σ' ran => ?_⟩
  · have left := I.leave holds h.leaves size
    rw [leaves_bind opens, leaves_inScope]
    exact left
  · rw [run_bind, opens] at ran
    obtain ⟨σ₁, inside, rfl⟩ := inScope_eq_ok ran
    exact I.flow_grows (h.yields flow σ₁ inside) (.inScope _ _)
  · rw [run_bind, opens] at ran
    obtain ⟨σ₁, inside, -⟩ := inScope_eq_error ran
    exact h.stops i σ₁ inside

end Keeps

/-! ## Single actions -/

section Writing

variable {I} {p : Point} {name : String} (reached : R p) (writes : p.Writes name) {σ : State}
  (holds : I.state σ)
include reached writes holds

theorem keeps_define {v : Value} (hv : I.value σ v) : Keeps I σ (define name v) fun _ _ => True :=
  .done rfl (I.define reached writes holds (.inl rfl) hv) trivial

theorem keeps_assignIn {token : Token} {v : Value} {owner : Option Nat} (named : token.lexeme = name)
    (unborn : I.stop (.error ⟨.undefinedVariable token.lexeme, token.line⟩))
    (owns : ∀ f, owner = some f → (σ.scopes.local? f token.lexeme).isSome) (hv : I.value σ v) :
    Keeps I σ (assignIn owner token v) fun _ _ => True := by
  cases owner with
  | none => exact .fail holds unborn
  | some f => exact .done rfl (I.define reached (named ▸ writes) holds (.inr (owns f rfl)) hv) trivial

theorem keeps_assign {token : Token} {v : Value} (id : Nat) (named : token.lexeme = name)
    (unborn : I.stop (.error ⟨.undefinedVariable token.lexeme, token.line⟩))
    (hv : I.value σ v) : Keeps I σ (assign id token v) fun _ _ => True := by
  refine .read (keeps_assignIn reached writes holds named unborn (fun f owner => ?_) hv)
  cases recorded : σ.distances.get? id with
  | none =>
    rw [recorded] at owner
    exact Scopes.owns_of_owner? owner
  | some distance =>
    rw [recorded] at owner
    exact (Option.filter_eq_some_iff.1 owner).2

theorem keeps_assignOutward {token : Token} {v : Value} (named : token.lexeme = name)
    (unborn : I.stop (.error ⟨.undefinedVariable token.lexeme, token.line⟩))
    (hv : I.value σ v) : Keeps I σ (assignOutward token v) fun _ _ => True :=
  .read (keeps_assignIn reached writes holds named unborn
    (fun _ owner => Scopes.owns_of_owner? owner) hv)

end Writing

section Actions

variable {I} {σ : State} (holds : I.state σ)
include holds

theorem Invariant.getAt? {f d : Nat} {name : String} {v : Value}
    (found : σ.scopes.getAt? f d name = some v) : I.value σ v := by
  obtain ⟨g, -, here⟩ := Option.bind_eq_some_iff.1 found
  exact I.local? holds here

theorem keeps_lookUp (id : Nat) (name : Token)
    (unborn : I.stop (.error ⟨.undefinedVariable name.lexeme, name.line⟩)) :
    Keeps I σ (lookUp id name) I.value := by
  refine .read ?_
  extract_lets found
  cases hv : found with
  | none => exact .fail holds unborn
  | some v =>
    refine .pure holds ?_
    cases recorded : σ.distances.get? id with
    | none =>
      simp only [found, recorded] at hv
      obtain ⟨g, -, here⟩ := Option.bind_eq_some_iff.1 hv
      exact I.local? holds here
    | some d =>
      simp only [found, recorded] at hv
      exact I.getAt? holds hv

theorem keeps_print (text : String) {line : Nat} (full : I.stop (.error ⟨.outputFull, line⟩)) :
    Keeps I σ (print text line) fun _ _ => True := by
  refine .read ?_
  split
  · exact .done (run_modify ..) (I.congr holds rfl rfl rfl) trivial
  · exact .fail holds full

theorem keeps_setField {o : Object} {v : Value} (name : String) (ho : I.value σ (.object o))
    (hv : I.value σ v) :
    Keeps I σ (modify fun s => s.setField o name v : Eval PUnit) fun _ _ => True :=
  .done rfl (I.setField holds ho hv) trivial

theorem keeps_allocate {fuel line : Nat} {c : Class} {values : List Value}
    (reached : R ⟨fuel + 1, .call (.ofClass c) values line, σ⟩) (arity : values.length = c.arity)
    (hc : I.value σ (.ofClass c)) :
    Keeps I σ (allocate c) fun σ' o => o.type = c ∧ I.value σ' (.object o) := by
  have made := I.allocate reached arity holds hc
  exact .done rfl made.1 ⟨rfl, made.2⟩

theorem keeps_freshSerial : Keeps I σ freshSerial fun _ _ => True :=
  .done rfl (I.congr holds rfl rfl rfl) trivial

/-- A method is bound, and the scope of the receiver is the next. -/
theorem keeps_receive {p : Point} {o : Object} {c : Class} {name : String} {method : Closure}
    (reached : R p) (obtains : Obtains p o σ method) (ho : I.value σ (.object o))
    (hc : I.value σ (.ofClass c)) (found : c.findMethod? name = some method) :
    Keeps I σ (receive method o) fun σ' f => ∀ serial, I.value σ' (.bound serial f) := by
  have opened := I.receive reached obtains holds ho hc found
  exact .done rfl opened.1 opened.2

theorem keeps_bind {p : Point} {o : Object} {c : Class} {name : String} {method : Closure}
    (reached : R p) (obtains : Obtains p o σ method) (ho : I.value σ (.object o))
    (hc : I.value σ (.ofClass c)) (found : c.findMethod? name = some method) :
    Keeps I σ (Eval.bind method o) I.value :=
  .bind (keeps_receive holds reached obtains ho hc found) fun _ _ _ holds bound =>
    .bind (keeps_freshSerial holds) fun serial _ ran holds _ =>
      .pure holds (I.value_grows (bound serial) (proceeds_freshSerial.of_ok ran).grows)

/-- The property of the instance that an expression evaluated to. -/
theorem keeps_property {fuel : Nat} {object : Expr} {name : Token} {σ₀ : State} {o : Object}
    (reached : R ⟨fuel + 1, .evaluate (.get object name), σ₀⟩)
    (first : evaluate fuel object σ₀ = .ok (.object o) σ) (ho : I.value σ (.object o)) :
    Keeps I σ (property o name) I.value := by
  refine .read ?_
  split
  · rename_i v hv
    exact .pure holds (I.field? holds hv)
  · rename_i missing
    split
    · rename_i method found
      exact keeps_bind holds reached (.property first missing found) ho (I.type ho) found
    · exact .fail holds (I.error reached .property)

theorem keeps_superMethod {fuel id : Nat} {keyword name : Token}
    (reached : R ⟨fuel + 1, .evaluate (.super id keyword name), σ⟩) :
    Keeps I σ (superMethod id keyword name) I.value := by
  refine .read ?_
  split
  · exact .fail holds (I.error reached .super)
  · rename_i distance recorded
    split
    · rename_i c nearer superclass
      split
      · rename_i o receiver
        split
        · rename_i method found
          exact keeps_bind holds reached (.superMethod recorded superclass receiver found)
            (I.getAt? holds receiver) (I.getAt? holds superclass) found
        · exact .fail holds (I.error reached .superMethod)
      · exact .fail holds (I.error reached .super)
      · exact .fail holds (I.error reached .super)
    · exact .fail holds (I.error reached .super)

/-- What a call yields is what the body returned, or the receiver. -/
theorem keeps_result (f : Closure) {flow : Flow} (returned : I.flow σ flow) :
    Keeps I σ (result f flow) I.value := by
  unfold result
  split
  · refine .read (.pure holds ?_)
    cases found : σ.scopes.local? f.scope "this" with
    | none => exact I.plain trivial
    | some v => exact I.local? holds found
  · cases flow with
    | normal => exact .pure holds (I.plain trivial)
    | returned v => exact .pure holds returned

theorem keeps_checkArity {expected : Nat} {values : List Value} {line : Nat}
    (mismatch : I.stop (.error ⟨.arityMismatch expected values.length, line⟩)) :
    Keeps I σ (checkArity expected values line) fun _ _ => values.length = expected := by
  unfold checkArity
  split
  · exact .pure holds ‹_›
  · exact .fail holds mismatch

theorem keeps_applyNative (f : Native) (values : List Value) {line : Nat}
    (refusal : ∀ message, I.stop (.error ⟨.native message, line⟩)) :
    Keeps I σ (applyNative readClock f values line) I.value := by
  cases f with
  | clock =>
    have read : Keeps I σ readClock fun _ _ => True := .done rfl (I.congr holds rfl rfl rfl) trivial
    exact .bind read fun _ _ _ holds _ => .pure holds (I.plain trivial)
  | fail => exact .fail holds (refusal _)
  | typeName | text | inspected | truthy | equal => exact .pure holds (I.plain trivial)

theorem keeps_applyUnary {fuel : Nat} {operator : Token} {operand : Expr} {σ₀ : State}
    (reached : R ⟨fuel + 1, .evaluate (.unary operator operand), σ₀⟩) (v : Value) :
    Keeps I σ (applyUnary operator v) I.value := by
  unfold applyUnary
  split
  · split
    · exact .pure holds (I.plain trivial)
    · exact .fail holds (I.error reached .unary)
  · exact .pure holds (I.plain trivial)
  · rename_i minus bang
    exact .stopped rfl holds (I.malformed reached fun operable => operable.elim minus bang)

theorem keeps_add (left right : Value) {line : Nat}
    (unsuitable : I.stop (.error ⟨.operandsNotAddable, line⟩)) :
    Keeps I σ (add left right line) I.value := by
  unfold add
  split
  · exact .pure holds (I.plain trivial)
  · exact .pure holds (I.plain trivial)
  · exact .fail holds unsuitable

omit holds in
theorem plain_arithmetic {kind : TokenKind} {a b : Float} {v : Value}
    (h : arithmetic kind a b = some v) : v.Plain := by
  unfold arithmetic at h
  split at h <;> cases h <;> trivial

omit holds in
/-- Of the binary operators, only equality and sums are not for two numbers. -/
theorem arithmetic_isSome {kind : TokenKind} (among : kind ∈ binaryOperators)
    (equal : kind ≠ .equalEqual) (unequal : kind ≠ .bangEqual) (plus : kind ≠ .plus) (a b : Float) :
    (arithmetic kind a b).isSome := by
  cases kind <;> first | contradiction | rfl

theorem keeps_applyBinary {fuel : Nat} {left right : Expr} {operator : Token} {σ₀ : State}
    (reached : R ⟨fuel + 1, .evaluate (.binary left operator right), σ₀⟩) (a b : Value) :
    Keeps I σ (applyBinary operator a b) I.value := by
  unfold applyBinary
  split
  · exact .pure holds (I.plain trivial)
  · exact .pure holds (I.plain trivial)
  · exact keeps_add holds a b (I.error reached .sum)
  · rename_i equal unequal plus
    split
    · rename_i x y
      split
      · exact .pure holds (I.plain (plain_arithmetic ‹_›))
      · rename_i fails
        refine .stopped rfl holds (I.malformed reached fun operable => ?_)
        have computes := arithmetic_isSome operable equal unequal plus x y
        rw [fails] at computes
        cases computes
    · exact .fail holds (I.error reached .binary)

/-- A class is made and given its name. -/
theorem keeps_closeClass {p : Point} {name : Token} {parent : Option Class}
    {methods : List FunctionDecl} (reached : R p) (writes : p.Writes name.lexeme)
    (unborn : I.stop (.error ⟨.undefinedVariable name.lexeme, name.line⟩)) (scope : Nat)
    (made : ∀ serial, I.value σ (.ofClass
      (Class.declare ⟨serial, name.lexeme, closeMethods scope methods⟩ parent))) :
    Keeps I σ (do
      let serial ← freshSerial
      let own := ⟨serial, name.lexeme, closeMethods scope methods⟩
      assignOutward name (.ofClass (Class.declare own parent))) fun _ _ => True :=
  .bind (keeps_freshSerial holds) fun serial _ ran holds _ =>
    keeps_assignOutward reached writes holds rfl unborn
      (I.value_grows (made serial) (proceeds_freshSerial.of_ok ran).grows)

theorem keeps_rootClass {fuel : Nat} {name : Token} {methods : List FunctionDecl}
    (reached : R ⟨fuel + 1, .execute (.classDecl name none methods), σ⟩) :
    Keeps I σ (declareClass name none methods) fun _ _ => True := by
  have writes : Point.Writes ⟨fuel + 1, .execute (.classDecl name none methods), σ⟩ name.lexeme :=
    ⟨name, rfl, rfl⟩
  have grows := (onward_define .nil σ σ.current name.lexeme).grows
  have made : ∀ serial, I.value { σ with scopes := σ.scopes.define σ.current name.lexeme .nil }
      (.ofClass (Class.declare ⟨serial, name.lexeme, closeMethods σ.current methods⟩ none)) :=
    fun _ => I.value_grows (I.rootClass reached holds) grows
  rw [declareClass_eq]
  refine .bind (.done rfl (I.define reached writes holds (.inl rfl) (I.plain trivial)) trivial)
    (Q := fun _ _ => True) fun _ σ₁ ran holds _ => ?_
  cases ran
  refine .bind (.read (.pure holds made))
    (Q := fun σ' scope => ∀ serial, I.value σ' (.ofClass
      (Class.declare ⟨serial, name.lexeme, closeMethods scope methods⟩ none)))
    fun scope _ _ holds made => ?_
  exact keeps_closeClass holds reached writes (I.error reached .className) scope made

/-- A class is declared on top of the class that its superclass clause evaluated to. -/
theorem keeps_subclass {fuel : Nat} {name : Token} {e : Expr} {methods : List FunctionDecl}
    {σ₀ : State} {c : Class}
    (reached : R ⟨fuel + 1, .execute (.classDecl name (some e) methods), σ₀⟩)
    (first : evaluate fuel e σ₀ = .ok (.ofClass c) σ) (hc : I.value σ (.ofClass c)) :
    Keeps I σ (declareClass name (some c) methods) fun _ _ => True := by
  have writes : Point.Writes ⟨fuel + 1, .execute (.classDecl name (some e) methods), σ₀⟩
      name.lexeme := ⟨name, rfl, rfl⟩
  have holds := I.define reached writes holds (.inl rfl) (I.plain (v := .nil) trivial)
  obtain ⟨opened, made⟩ := I.superclass reached first hc holds
  rw [declareClass_eq]
  refine .bind (.done rfl holds trivial) (Q := fun _ _ => True) fun _ σ₁ ran _ _ => ?_
  cases ran
  refine .bind (.read (.done rfl opened ?_))
    (Q := fun σ' scope => ∀ serial, I.value σ' (.ofClass
      (Class.declare ⟨serial, name.lexeme, closeMethods scope methods⟩ (some c))))
    fun scope _ _ holds made => ?_
  · rw [Scopes.size_define]
    exact made
  · exact keeps_closeClass holds reached writes (I.error reached .className) scope made

end Actions

/-! ## The interpreter -/

/-- With the given fuel, every function of the interpreter keeps the invariant where it is reached. -/
structure AllKeep (fuel : Nat) : Prop where
  evaluate : ∀ {e σ}, R ⟨fuel, .evaluate e, σ⟩ → I.state σ → Keeps I σ (evaluate fuel e) I.value
  evaluateAll : ∀ {es σ}, R ⟨fuel, .evaluateAll es, σ⟩ → I.state σ →
    Keeps I σ (evaluateAll fuel es) fun σ' vs => ∀ v ∈ vs, I.value σ' v
  call : ∀ {f values line σ}, R ⟨fuel, .call f values line, σ⟩ → I.state σ →
    I.value σ f → (∀ v ∈ values, I.value σ v) → Keeps I σ (call fuel f values line) I.value
  invoke : ∀ {f values σ}, R ⟨fuel, .invoke f values, σ⟩ → I.state σ →
    I.closure σ f → (∀ v ∈ values, I.value σ v) → Keeps I σ (invoke fuel f values) I.value
  execute : ∀ {s σ}, R ⟨fuel, .execute s, σ⟩ → I.state σ → Keeps I σ (execute fuel s) I.flow
  executeAll : ∀ {ss σ}, R ⟨fuel, .executeAll ss, σ⟩ → I.state σ →
    Keeps I σ (executeAll fuel ss) I.flow
  repeatWhile : ∀ {condition body σ}, R ⟨fuel, .repeatWhile condition body, σ⟩ →
    I.state σ → Keeps I σ (repeatWhile fuel condition body) I.flow

namespace AllKeep

variable {I} {fuel : Nat} (h : AllKeep I fuel) {σ : State} (holds : I.state σ)
include h holds

theorem evaluate_succ {e : Expr} (reached : R ⟨fuel + 1, .evaluate e, σ⟩) :
    Keeps I σ (Eval.evaluate (fuel + 1) e) I.value := by
  have goes : ∀ {q}, Calls ⟨fuel + 1, .evaluate e, σ⟩ q → R q := I.calls reached trivial
  cases e with
  | constant value => exact .pure holds (I.plain (by cases value <;> trivial))
  | grouping inner => exact h.evaluate (goes (.grouping ..)) holds
  | unary operator operand =>
    exact .bind (h.evaluate (goes (.operand ..)) holds) fun v _ _ holds _ =>
      keeps_applyUnary holds reached v
  | binary left operator right =>
    exact .bind (h.evaluate (goes (.binaryLeft ..)) holds) fun a _ first holds _ =>
      .bind (h.evaluate (goes (.binaryRight first)) holds) fun b _ _ holds _ =>
        keeps_applyBinary holds reached a b
  | logical left operator right =>
    refine .bind (h.evaluate (goes (.logicalLeft ..)) holds) fun a _ first holds ha => ?_
    split
    · exact .pure holds ha
    · rename_i undecided
      exact h.evaluate (goes (.logicalRight first (by simpa using undecided))) holds
  | name id token => exact keeps_lookUp holds id token (I.error reached .name)
  | assign id target value =>
    refine .bind (h.evaluate (goes (.assigned ..)) holds) fun v _ _ holds hv => ?_
    have unborn := I.error reached .assign
    refine .bind (keeps_assign reached ?writes holds id rfl unborn hv) fun _ _ ran holds _ => ?_
    case writes => rfl
    exact .pure holds (I.value_grows hv ((proceeds_assign target v id).of_ok ran).grows)
  | call callee closing arguments =>
    refine .bind (h.evaluate (goes (.callee ..)) holds) fun f _ first holds hf => ?_
    refine .bind (h.evaluateAll (goes (.arguments first)) holds) fun values _ second holds hvs => ?_
    have hf := I.value_grows hf (((allProceed fuel).evaluateAll arguments).of_ok second).grows
    exact h.call (goes (.call first second)) holds hf hvs
  | get object name =>
    refine .bind (h.evaluate (goes (.readObject ..)) holds) fun v _ first holds hv => ?_
    split
    · exact keeps_property holds reached first hv
    · exact .fail holds (I.error reached .get)
  | set object name value =>
    refine .bind (h.evaluate (goes (.setObject ..)) holds) fun o _ first holds ho => ?_
    split
    · refine .bind (h.evaluate (goes (.setValue first)) holds) fun v _ second holds hv => ?_
      have ho := I.value_grows ho (((allProceed fuel).evaluate value).of_ok second).grows
      refine .bind (keeps_setField holds _ ho hv) fun _ _ ran holds _ => ?_
      exact .pure holds (I.value_grows hv ((proceeds_setField v _ _).of_ok ran).grows)
    · exact .fail holds (I.error reached .set)
  | this id keyword => exact keeps_lookUp holds id keyword (I.error reached .this)
  | super id keyword method => exact keeps_superMethod holds reached

theorem evaluateAll_succ {es : List Expr} (reached : R ⟨fuel + 1, .evaluateAll es, σ⟩) :
    Keeps I σ (Eval.evaluateAll (fuel + 1) es) fun σ' vs => ∀ v ∈ vs, I.value σ' v := by
  have goes : ∀ {q}, Calls ⟨fuel + 1, .evaluateAll es, σ⟩ q → R q := I.calls reached trivial
  cases es with
  | nil => exact .pure holds fun v hv => absurd hv List.not_mem_nil
  | cons e es =>
    refine .bind (h.evaluate (goes (.head ..)) holds) fun v _ first holds hv => ?_
    refine .bind (h.evaluateAll (goes (.tail first)) holds) fun vs _ second holds hvs => ?_
    have hv := I.value_grows hv (((allProceed fuel).evaluateAll es).of_ok second).grows
    exact .pure holds (List.forall_mem_cons.2 ⟨hv, hvs⟩)

theorem call_succ {f : Value} {values : List Value} {line : Nat}
    (reached : R ⟨fuel + 1, .call f values line, σ⟩) (hf : I.value σ f)
    (hvs : ∀ v ∈ values, I.value σ v) :
    Keeps I σ (Eval.call (fuel + 1) f values line) I.value := by
  have goes : ∀ {q}, Calls ⟨fuel + 1, .call f values line, σ⟩ q → R q := I.calls reached trivial
  have checked : ∀ {expected : Nat} {l : Unit → Eval Value},
      (values.length = expected → Keeps I σ (l ⟨⟩) I.value) →
      Keeps I σ (checkArity expected values line >>= l) I.value := by
    intro expected l rest
    refine .bind (keeps_checkArity holds (I.error reached .arity)) fun _ σ₁ ran _ arity => ?_
    cases (checkArity_ok arity).symm.trans ran
    exact rest arity
  cases f with
  | native f =>
    exact checked fun _ => keeps_applyNative holds f values fun _ => I.error reached .native
  | function _ f =>
    exact checked fun arity => h.invoke (goes (.function arity)) holds (I.called (.inl hf)) hvs
  | bound _ f =>
    exact checked fun arity => h.invoke (goes (.method arity)) holds (I.called (.inr hf)) hvs
  | ofClass c =>
    refine checked fun arity => ?_
    refine .bind (keeps_allocate holds reached arity hf) fun o _ made holds ho => ?_
    have onward := (proceeds_allocate c).of_ok made
    cases found : c.findMethod? initializerName with
    | none => exact .pure holds ho.2
    | some method =>
      have hc := I.value_grows hf onward.grows
      refine .bind (keeps_receive holds reached (.initializer arity made found) ho.2 hc found) ?_
      intro f _ received holds bound
      have onward := onward.trans ((Proceeds.compositional.receive method o).of_ok received)
      have hvs : ∀ v ∈ values, I.value _ v := fun v hv => I.value_grows (hvs v hv) onward.grows
      refine .bind (h.invoke (goes (.initializer arity made found received)) holds
        (I.called (.inr (bound 0))) hvs) fun _ _ ran holds _ => ?_
      have grows := ((Proceeds.compositional.receive method o).of_ok received).grows.trans
        (((allProceed fuel).invoke f values).of_ok ran).grows
      exact .pure holds (I.value_grows ho.2 grows)
  | nil | bool | number | text | object => exact .fail holds (I.error reached .call)

theorem invoke_succ {f : Closure} {values : List Value}
    (reached : R ⟨fuel + 1, .invoke f values, σ⟩) (hf : I.closure σ f)
    (hvs : ∀ v ∈ values, I.value σ v) : Keeps I σ (Eval.invoke (fuel + 1) f values) I.value := by
  have inside := h.executeAll (I.calls reached hf (.body rfl)) (I.body reached holds hf hvs)
  have body := Keeps.within holds ((allProceed fuel).executeAll f.declaration.body) inside
  refine .congr ?_ (.bind body fun flow _ _ holds hflow => keeps_result holds f hflow)
  rfl

theorem execute_succ {s : Stmt} (reached : R ⟨fuel + 1, .execute s, σ⟩) :
    Keeps I σ (Eval.execute (fuel + 1) s) I.flow := by
  have goes : ∀ {q}, Calls ⟨fuel + 1, .execute s, σ⟩ q → R q := I.calls reached trivial
  cases s with
  | expression value =>
    exact .bind (h.evaluate (goes (.expression ..)) holds) fun _ _ _ holds _ =>
      .pure holds trivial
  | print value =>
    exact .bind (h.evaluate (goes (.print ..)) holds) fun _ _ _ holds _ =>
      .bind (keeps_print holds _ (I.error reached .print)) fun _ _ _ holds _ =>
        .pure holds trivial
  | varDecl name initializer =>
    have rest : ∀ v σ, I.state σ → I.value σ v → Keeps I σ
        (define name.lexeme v >>= fun _ => pure .normal) I.flow :=
      fun v σ holds hv => .bind (keeps_define reached ⟨name, rfl, rfl⟩ holds hv)
        fun _ _ _ holds _ => .pure holds trivial
    cases initializer with
    | none => exact .bind (.pure holds (I.plain trivial)) fun v _ _ holds hv => rest v _ holds hv
    | some e =>
      exact .bind (h.evaluate (goes (.varDecl ..)) holds) fun v _ _ holds hv => rest v _ holds hv
  | block body =>
    have inside := h.executeAll (goes (.block rfl)) (I.block reached holds)
    exact .read (.within holds ((allProceed fuel).executeAll body) inside)
  | ifThen condition thenBranch =>
    refine .bind (h.evaluate (goes (.ifThenCondition ..)) holds) ?_
    intro v _ first holds _
    split
    · exact h.execute (goes (.ifThen first ‹_›)) holds
    · exact .pure holds trivial
  | ifElse condition thenBranch elseBranch =>
    refine .bind (h.evaluate (goes (.ifElseCondition ..)) holds) ?_
    intro v _ first holds _
    split
    · exact h.execute (goes (.thenBranch first ‹_›)) holds
    · rename_i fails
      exact h.execute (goes (.elseBranch first (by simpa using fails))) holds
  | whileLoop condition body => exact h.repeatWhile (goes (.whileLoop ..)) holds
  | funDecl declaration =>
    refine .read (.bind (keeps_freshSerial holds) fun serial _ ran holds' _ => ?_)
    have made : I.value _ (.function serial ⟨declaration, σ.current, false⟩) :=
      I.value_grows (I.function reached holds) (proceeds_freshSerial.of_ok ran).grows
    exact .bind (keeps_define reached ⟨declaration.name, rfl, rfl⟩ holds' made)
      fun _ _ _ holds _ => .pure holds trivial
  | returnStmt keyword value =>
    cases value with
    | none => exact .pure holds (I.plain trivial)
    | some e =>
      exact .bind (h.evaluate (goes (.returned ..)) holds) fun _ _ _ holds hv => .pure holds hv
  | classDecl name superclass methods =>
    have last : ∀ {σ parent}, Keeps I σ (declareClass name parent methods) (fun _ _ => True) →
        Keeps I σ (declareClass name parent methods >>= fun _ => pure .normal) I.flow :=
      fun declared => declared.bind fun _ _ _ holds _ => .pure holds trivial
    cases superclass with
    | none => exact last (keeps_rootClass holds reached)
    | some e =>
      refine .bind (h.evaluate (goes (.superclass ..)) holds) ?_
      intro v _ first holds hv
      cases v with
      | ofClass c => exact last (keeps_subclass holds reached first hv)
      | nil | bool | number | text | native | function | bound | object =>
        exact .stopped rfl holds (I.error reached .superclass)

theorem executeAll_succ {ss : List Stmt} (reached : R ⟨fuel + 1, .executeAll ss, σ⟩) :
    Keeps I σ (Eval.executeAll (fuel + 1) ss) I.flow := by
  have goes : ∀ {q}, Calls ⟨fuel + 1, .executeAll ss, σ⟩ q → R q := I.calls reached trivial
  cases ss with
  | nil => exact .pure holds trivial
  | cons s ss =>
    refine .bind (h.execute (goes (.first ..)) holds) fun flow _ first holds hflow => ?_
    cases flow with
    | returned v => exact .pure holds hflow
    | normal => exact h.executeAll (goes (.rest first)) holds

theorem repeatWhile_succ {condition : Expr} {body : Stmt}
    (reached : R ⟨fuel + 1, .repeatWhile condition body, σ⟩) :
    Keeps I σ (Eval.repeatWhile (fuel + 1) condition body) I.flow := by
  have goes : ∀ {q}, Calls ⟨fuel + 1, .repeatWhile condition body, σ⟩ q → R q :=
    I.calls reached trivial
  refine .bind (h.evaluate (goes (.condition ..)) holds) fun v _ first holds _ => ?_
  split
  · rename_i truthy
    refine .bind (h.execute (goes (.round first truthy)) holds) ?_
    intro flow _ second holds hflow
    cases flow with
    | returned v => exact .pure holds hflow
    | normal => exact h.repeatWhile (goes (.again first truthy second)) holds
  · exact .pure holds trivial

end AllKeep

theorem allKeep (fuel : Nat) : AllKeep I fuel := by
  induction fuel with
  | zero =>
    exact ⟨fun _ => .spent, fun _ => .spent, fun _ holds _ _ => .spent holds,
      fun _ holds _ _ => .spent holds, fun _ => .spent, fun _ => .spent, fun _ => .spent⟩
  | succ fuel h =>
    exact ⟨fun reached holds => h.evaluate_succ holds reached,
      fun reached holds => h.evaluateAll_succ holds reached,
      fun reached holds => h.call_succ holds reached,
      fun reached holds => h.invoke_succ holds reached,
      fun reached holds => h.execute_succ holds reached,
      fun reached holds => h.executeAll_succ holds reached,
      fun reached holds => h.repeatWhile_succ holds reached⟩

/-! ## Points -/

/-- The invariant holds of the state of a point, and of the values that it was called with. -/
structure Point.Obeys (p : Point) : Prop where
  state : I.state p.state
  task : match p.task with
    | .call f values _ => I.value p.state f ∧ ∀ v ∈ values, I.value p.state v
    | .invoke f values => I.closure p.state f ∧ ∀ v ∈ values, I.value p.state v
    | _ => True

namespace Point.Obeys

variable {I} {p q : Point}

/-- What a point calls is one of the points as well. -/
theorem reaches (h : p.Obeys I) (reached : R p) (calls : Calls p q) : R q := by
  obtain ⟨fuel, task, σ⟩ := p
  refine I.calls reached ?_ calls
  cases task with
  | invoke f values => exact h.task.1
  | _ => trivial

/-- Where a point calls another, the invariant holds there as well. -/
theorem calls (h : p.Obeys I) (reached : R p) (calls : Calls p q) : q.Obeys I := by
  have holds := h.state
  have all := fun fuel => allKeep I fuel
  have goes : ∀ {r}, Calls p r → R r := h.reaches reached
  cases calls with
  | binaryRight first =>
    exact ⟨((all _).evaluate (goes (.binaryLeft ..)) holds).of_ok first |>.1, trivial⟩
  | logicalRight first _ =>
    exact ⟨((all _).evaluate (goes (.logicalLeft ..)) holds).of_ok first |>.1, trivial⟩
  | arguments first =>
    exact ⟨((all _).evaluate (goes (.callee ..)) holds).of_ok first |>.1, trivial⟩
  | call first second =>
    obtain ⟨holds₁, hf⟩ := ((all _).evaluate (goes (.callee ..)) holds).of_ok first
    obtain ⟨holds₂, hvs⟩ := ((all _).evaluateAll (goes (.arguments first)) holds₁).of_ok second
    have onward := ((allProceed _).evaluateAll _).of_ok second
    exact ⟨holds₂, I.value_grows hf onward.grows, hvs⟩
  | setValue first =>
    exact ⟨((all _).evaluate (goes (.setObject ..)) holds).of_ok first |>.1, trivial⟩
  | tail first =>
    exact ⟨((all _).evaluate (goes (.head ..)) holds).of_ok first |>.1, trivial⟩
  | function => exact ⟨holds, I.called (.inl h.task.1), h.task.2⟩
  | method => exact ⟨holds, I.called (.inr h.task.1), h.task.2⟩
  | @initializer fuel line c values σ σ₁ σ₂ o method f arity made found received =>
    obtain ⟨holds₁, -, ho⟩ := (keeps_allocate holds reached arity h.task.1).of_ok made
    have onward := (proceeds_allocate c).of_ok made
    have hc := I.value_grows h.task.1 onward.grows
    obtain ⟨holds₂, bound⟩ := (keeps_receive holds₁ reached (.initializer arity made found) ho
      hc found).of_ok received
    have onward := onward.trans ((Proceeds.compositional.receive method o).of_ok received)
    exact ⟨holds₂, I.called (.inr (bound 0)),
      fun v hv => I.value_grows (h.task.2 v hv) onward.grows⟩
  | body entered =>
    cases entered
    exact ⟨I.body reached holds h.task.1 h.task.2, trivial⟩
  | block entered =>
    cases entered
    exact ⟨I.block reached holds, trivial⟩
  | ifThen first _ =>
    exact ⟨((all _).evaluate (goes (.ifThenCondition ..)) holds).of_ok first |>.1, trivial⟩
  | thenBranch first _ | elseBranch first _ =>
    exact ⟨((all _).evaluate (goes (.ifElseCondition ..)) holds).of_ok first |>.1, trivial⟩
  | rest first =>
    exact ⟨((all _).execute (goes (.first ..)) holds).of_ok first |>.1, trivial⟩
  | round first _ =>
    exact ⟨((all _).evaluate (goes (.condition ..)) holds).of_ok first |>.1, trivial⟩
  | again first truthy second =>
    have holds₁ := ((all _).evaluate (goes (.condition ..)) holds).of_ok first |>.1
    exact ⟨((all _).execute (goes (.round first truthy)) holds₁).of_ok second |>.1, trivial⟩
  | _ => exact ⟨holds, trivial⟩

/-- Once a point is done, the invariant holds of the state that is left. -/
theorem leaves (h : p.Obeys I) (reached : R p) : I.state p.leaves := by
  obtain ⟨fuel, task, σ⟩ := p
  have all := allKeep I fuel
  cases task with
  | evaluate e => exact (all.evaluate reached h.state).leaves
  | evaluateAll es => exact (all.evaluateAll reached h.state).leaves
  | call f values line => exact (all.call reached h.state h.task.1 h.task.2).leaves
  | invoke f values => exact (all.invoke reached h.state h.task.1 h.task.2).leaves
  | execute s => exact (all.execute reached h.state).leaves
  | executeAll ss => exact (all.executeAll reached h.state).leaves
  | repeatWhile condition body => exact (all.repeatWhile reached h.state).leaves

/-- The invariant holds of the statements of a program where they start, if the program starts so. -/
theorem of_starts {fuel : Nat} {program : List Stmt} {σ : State} (holds : I.state σ)
    (reached : ∀ q, Starts fuel program σ q → R q)
    (starts : Starts fuel program σ p) : p.Obeys I := by
  induction starts with
  | here s ss σ => exact ⟨holds, trivial⟩
  | later first rest ih =>
    have ran := (allKeep I fuel).execute (reached _ (.here ..)) holds
    exact ih (ran.of_ok first).1 fun q starts => reached q (.later first starts)

end Point.Obeys

/-- A whole program keeps the invariant. -/
theorem keeps_interpret {fuel : Nat} {program : List Stmt} {σ : State} (holds : I.state σ)
    (reached : ∀ q, Starts fuel program σ q → R q) :
    Keeps I σ (interpret fuel program) fun _ _ => True := by
  induction program generalizing σ with
  | nil => exact .pure holds trivial
  | cons s rest ih =>
    exact .bind ((allKeep I fuel).execute (reached _ (.here ..)) holds) fun _ _ first holds _ =>
      ih holds fun q starts => reached q (.later first starts)

end ClassScript
