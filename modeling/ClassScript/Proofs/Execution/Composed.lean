import ClassScript.Proofs.Execution.Running

set_option autoImplicit false

/-!
# Properties that go from steps to actions

Much of what the interpreter does is put together from a few steps: opening a scope, taking a serial
number, making an instance, giving a field a value, reading the clock and reading the state.  A
property of actions that those steps have, and that sequences take over from their parts, is one of
everything put together from them.  What prints and what writes to a scope that is there already is
not, and is left to whoever knows more of the property.
-/

namespace ClassScript

open Eval

/-- The steps have the property, and a sequence has it if its parts do.  What is read does not tell
what host the program meets. -/
structure Compositional (P : ∀ {α : Type}, Eval α → Prop) : Prop where
  pure : ∀ {α : Type} (a : α), P (Pure.pure a : Eval α)
  throw : ∀ {α : Type} (i : Interrupt), P (MonadExcept.throw i : Eval α)
  bind : ∀ {α β : Type} {x : Eval α} {k : α → Eval β}, P x → (∀ a, P (k a)) → P (x >>= k)
  read : ∀ {α : Type} {k : State → Eval α},
    (∀ (host : Host) (σ : State), k { σ with host } = k σ) → (∀ σ, P (k σ)) →
      P (MonadState.get >>= k)
  openScope : ∀ bindings enclosing, P (openScope bindings enclosing)
  freshSerial : P freshSerial
  readClock : P readClock
  allocate : ∀ type, P (allocate type)
  setField : ∀ (o : Object) (name : String) (value : Value),
    P (modify fun s => s.setField o name value : Eval PUnit)

namespace Compositional

variable {P : ∀ {α : Type}, Eval α → Prop} (h : Compositional P) (name : Token) (value : Value)
  (line : Nat) (method : Closure) (o : Object)
include h

theorem fail {α : Type} (fault : RuntimeFault) : P (Eval.fail fault line : Eval α) :=
  h.throw _

theorem lookUp (id : Nat) : P (Eval.lookUp id name) := by
  refine h.read (fun _ _ => rfl) fun s => ?_
  extract_lets found
  cases found with
  | some v => exact h.pure v
  | none => exact h.fail _ _

theorem receive : P (Eval.receive method o) :=
  h.bind (h.openScope _ _) fun _ => h.pure _

theorem bindMethod : P (Eval.bind method o) :=
  h.bind (h.receive method o) fun _ => h.bind h.freshSerial fun _ => h.pure _

theorem property : P (Eval.property o name) := by
  refine h.read (fun _ _ => rfl) fun s => ?_
  split
  · exact h.pure _
  · split
    · exact h.bindMethod _ o
    · exact h.fail _ _

theorem checkArity (expected : Nat) (values : List Value) :
    P (Eval.checkArity expected values line) := by
  unfold Eval.checkArity
  split
  · exact h.pure _
  · exact h.fail _ _

theorem applyNative (f : Native) (values : List Value) :
    P (Eval.applyNative Eval.readClock f values line) := by
  cases f with
  | clock => exact h.bind h.readClock fun _ => h.pure _
  | fail => exact h.fail _ _
  | typeName | text | inspected | truthy | equal => exact h.pure _

theorem applyUnary (operator : Token) : P (Eval.applyUnary operator value) := by
  unfold Eval.applyUnary
  split
  · split
    · exact h.pure _
    · exact h.fail _ _
  · exact h.pure _
  · exact h.throw _

theorem add (left right : Value) : P (Eval.add left right line) := by
  unfold Eval.add
  split
  · exact h.pure _
  · exact h.pure _
  · exact h.fail _ _

theorem applyBinary (operator : Token) (left right : Value) :
    P (Eval.applyBinary operator left right) := by
  unfold Eval.applyBinary
  split
  · exact h.pure _
  · exact h.pure _
  · exact h.add _ left right
  · split
    · split
      · exact h.pure _
      · exact h.throw _
    · exact h.fail _ _

theorem superMethod (id : Nat) (keyword : Token) : P (Eval.superMethod id keyword name) := by
  refine h.read (fun _ _ => rfl) fun s => ?_
  split
  · exact h.fail _ _
  · split
    · split
      · split
        · exact h.bindMethod _ _
        · exact h.fail _ _
      · exact h.fail _ _
      · exact h.fail _ _
    · exact h.fail _ _

theorem result (flow : Flow) : P (Eval.result method flow) := by
  unfold Eval.result
  split
  · exact h.read (fun _ _ => rfl) fun _ => h.pure _
  · split
    · exact h.pure _
    · exact h.pure _

/-- Declaring a class takes two writes, the first of which makes the name. -/
theorem declareClass (defines : P (Eval.define name.lexeme .nil))
    (assigns : ∀ v, P (Eval.assignOutward name v)) (superclass : Option Class)
    (methods : List FunctionDecl) : P (Eval.declareClass name superclass methods) := by
  rw [declareClass_eq]
  refine h.bind defines fun _ => h.bind ?_ fun _ => h.bind h.freshSerial fun _ => assigns _
  cases superclass with
  | none => exact h.read (fun _ _ => rfl) fun _ => h.pure _
  | some c => exact h.read (fun _ _ => rfl) fun _ => h.openScope _ _

/-! ## Expressions and calls -/

section Interpreter

variable {fuel : Nat} (evaluates : ∀ e, P (Eval.evaluate fuel e))
  (evaluatesAll : ∀ es, P (Eval.evaluateAll fuel es))
include evaluates evaluatesAll

/-- What an expression does but for its parts is put together from steps and assignments. -/
theorem evaluate_succ (assigns : ∀ id name value, P (Eval.assign id name value))
    (calls : ∀ f values line, P (Eval.call fuel f values line)) (e : Expr) :
    P (Eval.evaluate (fuel + 1) e) := by
  cases e with
  | constant value => exact h.pure _
  | grouping inner => exact evaluates inner
  | unary operator operand =>
    exact h.bind (evaluates operand) fun v => h.applyUnary v operator
  | binary left operator right =>
    exact h.bind (evaluates left) fun a => h.bind (evaluates right) fun b =>
      h.applyBinary operator a b
  | logical left operator right =>
    refine h.bind (evaluates left) fun a => ?_
    split
    · exact h.pure _
    · exact evaluates right
  | name id token => exact h.lookUp token id
  | assign id target value =>
    exact h.bind (evaluates value) fun v => h.bind (assigns id target v) fun _ => h.pure _
  | call callee closing arguments =>
    exact h.bind (evaluates callee) fun f => h.bind (evaluatesAll arguments) fun values =>
      calls f values closing.line
  | get object name =>
    refine h.bind (evaluates object) fun v => ?_
    split
    · exact h.property name _
    · exact h.fail _ _
  | set object name value =>
    refine h.bind (evaluates object) fun v => ?_
    split
    · exact h.bind (evaluates value) fun v => h.bind (h.setField _ _ v) fun _ => h.pure _
    · exact h.fail _ _
  | this id keyword => exact h.lookUp keyword id
  | super id keyword method => exact h.superMethod method id keyword

theorem evaluateAll_succ (es : List Expr) : P (Eval.evaluateAll (fuel + 1) es) := by
  cases es with
  | nil => exact h.pure _
  | cons e es => exact h.bind (evaluates e) fun _ => h.bind (evaluatesAll es) fun _ => h.pure _

omit evaluates evaluatesAll in
/-- A call, which makes an instance if it is that of a class. -/
theorem call_succ (invokes : ∀ f values, P (Eval.invoke fuel f values)) (f : Value)
    (values : List Value) (line : Nat) : P (Eval.call (fuel + 1) f values line) := by
  cases f with
  | native f => exact h.bind (h.checkArity _ _ _) fun _ => h.applyNative _ f values
  | function _ f => exact h.bind (h.checkArity _ _ _) fun _ => invokes f values
  | bound _ f => exact h.bind (h.checkArity _ _ _) fun _ => invokes f values
  | ofClass c =>
    refine h.bind (h.checkArity _ _ _) fun _ => h.bind (h.allocate c) fun o => ?_
    cases c.findMethod? initializerName with
    | none => exact h.pure _
    | some method =>
      exact h.bind (h.receive method o) fun f => h.bind (invokes f values) fun _ => h.pure _
  | nil | bool | number | text | object => exact h.fail _ _

end Interpreter

end Compositional

end ClassScript
