import ClassScript.Proofs.Execution.Points
import ClassScript.Proofs.Execution.Restored

set_option autoImplicit false

/-!
# Runs that the output cuts short

An output that takes only so many lines has no part in a run that prints no more than that.  A run
that prints more stops where it prints the first line too many.  It leaves the state in which that
line was about to be printed, since an error on its way out changes nothing but the present scope.

Both are said of every action, against the same action with an output that takes every line.  Actions
that do not print do the same in both cases, so that only a `print` tells the two apart.
-/

namespace ClassScript

open Eval

/-! ## Capacities -/

/-- The state with an output that takes so many lines in all, or every line. -/
def State.withCapacity (capacity : Option Nat) (σ : State) : State :=
  { σ with host := { σ.host with capacity } }

/-- An ending, its state with another capacity. -/
def endingWith (capacity : Option Nat) {α : Type} :
    EStateM.Result Interrupt State α → EStateM.Result Interrupt State α
  | .ok a σ => .ok a (σ.withCapacity capacity)
  | .error i σ => .error i (σ.withCapacity capacity)

/-! ## Actions that do not print -/

/-- On the way from one state to the other nothing was printed. -/
structure State.Quiet (σ σ' : State) : Prop where
  onward : σ.Onward σ'
  printed : σ'.printed = σ.printed

theorem State.Quiet.refl (σ : State) : σ.Quiet σ :=
  ⟨.refl σ, rfl⟩

theorem State.Quiet.trans {σ σ' σ'' : State} (h : σ.Quiet σ') (k : σ'.Quiet σ'') : σ.Quiet σ'' :=
  ⟨h.onward.trans k.onward, k.printed.trans h.printed⟩

/-- The action prints nothing and does not ask what the output takes. -/
structure Silent {α : Type} (x : Eval α) : Prop where
  quiet : ∀ σ : State, σ.Quiet (x.leaves σ)
  blind : ∀ (capacity : Option Nat) (σ : State),
    x (σ.withCapacity capacity) = endingWith capacity (x σ)

namespace Silent

variable {α β : Type} {x : Eval α} {k : α → Eval β}

protected theorem bind (h : Silent x) (rest : ∀ a, Silent (k a)) : Silent (x >>= k) where
  quiet σ := by
    have first := h.quiet σ
    rcases leaves_cases x σ with ⟨a, ran⟩ | ⟨i, ran⟩
    · rw [leaves_bind ran]
      exact first.trans ((rest a).quiet _)
    · rwa [leaves_of_error (run_bind_error k ran)]
  blind capacity σ := by
    rw [run_bind, run_bind, h.blind]
    cases x σ with
    | ok a σ₁ => exact (rest a).blind capacity σ₁
    | error i σ₁ => rfl

protected theorem pure (a : α) : Silent (pure a) :=
  ⟨.refl, fun _ _ => rfl⟩

protected theorem throw (i : Interrupt) : Silent (throw i : Eval α) :=
  ⟨.refl, fun _ _ => rfl⟩

theorem fail (fault : RuntimeFault) (line : Nat) : Silent (Eval.fail fault line : Eval α) :=
  .throw _

/-- A change of anything but the output. -/
theorem modifyGet {f : State → α × State} (quiet : ∀ σ : State, σ.Quiet (f σ).2)
    (blind : ∀ (capacity : Option Nat) (σ : State),
      f (σ.withCapacity capacity) = ((f σ).1, (f σ).2.withCapacity capacity)) :
    Silent (modifyGet f : Eval α) := by
  refine ⟨quiet, fun capacity σ => ?_⟩
  rw [run_modifyGet, run_modifyGet, blind]
  rfl

theorem modify {f : State → State} (quiet : ∀ σ : State, σ.Quiet (f σ))
    (blind : ∀ (capacity : Option Nat) (σ : State),
      f (σ.withCapacity capacity) = (f σ).withCapacity capacity) :
    Silent (modify f : Eval PUnit) :=
  .modifyGet quiet fun capacity σ => by rw [blind]

/-- After reading the state, an action may depend on all of it but the capacity. -/
theorem read {l : State → Eval β}
    (blind : ∀ (capacity : Option Nat) (σ : State), l (σ.withCapacity capacity) = l σ)
    (h : ∀ σ, Silent (l σ)) : Silent (MonadState.get >>= l) where
  quiet σ := (h σ).quiet σ
  blind capacity σ := by
    change l (σ.withCapacity capacity) (σ.withCapacity capacity) = endingWith capacity (l σ σ)
    rw [blind]
    exact (h σ).blind capacity σ

end Silent

section Actions

variable (name : Token) (value : Value) (o : Object)

theorem silent_openScope (bindings : Bindings Value) (enclosing : Nat) :
    Silent (openScope bindings enclosing) :=
  .modifyGet (fun σ => ⟨proceeds_openScope bindings enclosing σ, rfl⟩) fun _ _ => rfl

theorem silent_freshSerial : Silent freshSerial :=
  .modifyGet (fun σ => ⟨proceeds_freshSerial σ, rfl⟩) fun _ _ => rfl

theorem silent_define (name : String) : Silent (define name value) :=
  .modify (fun σ => ⟨proceeds_define value name σ, rfl⟩) fun _ _ => rfl

theorem silent_assignIn (owner : Option Nat) : Silent (assignIn owner name value) := by
  cases owner with
  | none => exact .fail _ _
  | some f => exact .modify (fun σ => ⟨onward_define value σ f name.lexeme, rfl⟩) fun _ _ => rfl

theorem silent_assign (id : Nat) : Silent (assign id name value) :=
  .read (fun _ _ => rfl) fun _ => silent_assignIn name value _

theorem silent_assignOutward : Silent (assignOutward name value) :=
  .read (fun _ _ => rfl) fun _ => silent_assignIn name value _

theorem silent_readClock : Silent readClock :=
  .modifyGet (fun σ => ⟨proceeds_readClock σ, rfl⟩) fun _ _ => rfl

theorem silent_allocate (type : Class) : Silent (allocate type) :=
  .modifyGet (fun σ => ⟨proceeds_allocate type σ, rfl⟩) fun _ _ => rfl

theorem silent_setField (name : String) :
    Silent (modify fun s => s.setField o name value : Eval PUnit) :=
  .modify (fun σ => ⟨proceeds_setField value o name σ, rfl⟩) fun _ _ => rfl

theorem Silent.compositional : Compositional Silent where
  pure := .pure
  throw := .throw
  bind := .bind
  read blind := .read fun _ _ => blind _ _
  openScope := silent_openScope
  freshSerial := silent_freshSerial
  readClock := silent_readClock
  allocate := silent_allocate
  setField o name value := silent_setField value o name

theorem silent_declareClass (superclass : Option Class) (methods : List FunctionDecl) :
    Silent (declareClass name superclass methods) :=
  Silent.compositional.declareClass name (silent_define _ _)
    (fun v => silent_assignOutward name v) superclass methods

end Actions

/-! ## Where a run is cut short -/

/-- While a point is at work, an expression is evaluated in order to be printed, which yields a value
and leaves a state. -/
inductive AboutToPrint : Point → Expr → Value → State → Prop where
  | here {fuel : Nat} {e : Expr} {v : Value} {σ σ₁ : State}
      (evaluated : evaluate fuel e σ = .ok v σ₁) :
      AboutToPrint ⟨fuel + 1, .execute (.print e), σ⟩ e v σ₁
  | called {p q : Point} {e : Expr} {v : Value} {σ₁ : State} (calls : Calls p q)
      (prints : AboutToPrint q e v σ₁) : AboutToPrint p e v σ₁

/-- In the state `τ`, on the way to `σ'`, the output holds `limit` lines and a value is next. -/
structure Overflows (limit : Nat) (v : Value) (τ σ' : State) : Prop where
  full : τ.printed.size = limit
  next : (τ.printed.push v.toText).toList <+: σ'.printed.toList

theorem Overflows.later {limit : Nat} {v : Value} {τ σ σ' : State} (h : Overflows limit v τ σ)
    (grows : σ.Grows σ') : Overflows limit v τ σ' :=
  ⟨h.full, h.next.trans grows.printed⟩

/-- An action that prints too much for an output that takes `limit` lines stops there with the first
line too many, of which `P` says how it comes about.  Any other action is the same there. -/
structure Truncates (limit : Nat) (P : Expr → Value → State → Prop) (σ : State) {α : Type} (x : Eval α) :
    Prop where
  onward : σ.Onward (x.leaves σ)
  within : σ.host.capacity = none → (x.leaves σ).printed.size ≤ limit →
    x (σ.withCapacity (some limit)) = endingWith (some limit) (x σ)
  beyond : σ.host.capacity = none → σ.printed.size ≤ limit → limit < (x.leaves σ).printed.size →
    ∃ e v τ, P e v τ ∧ Overflows limit v τ (x.leaves σ) ∧
      x (σ.withCapacity (some limit)) = .error (.error ⟨.outputFull, e.line?.getD 0⟩)
        { τ.withCapacity (some limit) with current := σ.current }

theorem run_print (text : String) (line : Nat) (σ : State) :
    print text line σ =
      if σ.host.accepts σ.printed.size then .ok ⟨⟩ { σ with printed := σ.printed.push text }
      else .error (.error ⟨.outputFull, line⟩) σ := by
  unfold print
  rw [run_bind, run_get]
  dsimp only
  split <;> rfl

namespace Truncates

variable {limit : Nat} {P : Expr → Value → State → Prop} {α β : Type} {x : Eval α} {k : α → Eval β}
  {σ : State}

/-- An action that does not print is not cut short. -/
theorem of_silent (h : Silent x) : Truncates limit P σ x where
  onward := (h.quiet σ).onward
  within _ _ := h.blind (some limit) σ
  beyond _ room more := by
    rw [(h.quiet σ).printed] at more
    exact absurd room (Nat.not_le.2 more)

theorem imp {P' : Expr → Value → State → Prop} (h : Truncates limit P σ x)
    (imp : ∀ e v τ, P e v τ → P' e v τ) : Truncates limit P' σ x where
  onward := h.onward
  within := h.within
  beyond unlimited room more := by
    obtain ⟨e, v, τ, prints, rest⟩ := h.beyond unlimited room more
    exact ⟨e, v, τ, imp e v τ prints, rest⟩

/-- What is cut short in a call is cut short in its caller. -/
theorem called {p q : Point} (h : Truncates limit (AboutToPrint q) σ x) (calls : Calls p q) :
    Truncates limit (AboutToPrint p) σ x :=
  h.imp fun _ _ _ prints => .called calls prints

/-- A sequence is cut short in its first action, or else in what follows. -/
protected theorem bind (h : Truncates limit P σ x)
    (rest : ∀ a σ₁, x σ = .ok a σ₁ → Truncates limit P σ₁ (k a)) : Truncates limit P σ (x >>= k) := by
  rcases leaves_cases x σ with ⟨a, ran⟩ | ⟨i, ran⟩
  · have second := rest a _ ran
    have leads := leaves_bind (k := k) ran
    refine ⟨?_, fun unlimited room => ?_, fun unlimited room more => ?_⟩
    · rw [leads]
      exact h.onward.trans second.onward
    · rw [leads] at room
      have first := h.within unlimited (Nat.le_trans second.onward.grows.lines room)
      rw [run_bind, run_bind, first, ran]
      exact second.within (h.onward.grows.host ▸ unlimited) room
    · rw [leads] at more ⊢
      by_cases early : limit < (x.leaves σ).printed.size
      · obtain ⟨e, v, τ, prints, overflows, stops⟩ := h.beyond unlimited room early
        exact ⟨e, v, τ, prints, overflows.later second.onward.grows, run_bind_error k stops⟩
      · have fits := Nat.not_lt.1 early
        obtain ⟨e, v, τ, prints, overflows, stops⟩ :=
          second.beyond (h.onward.grows.host ▸ unlimited) fits more
        refine ⟨e, v, τ, prints, overflows, ?_⟩
        rw [run_bind, h.within unlimited fits, ran, ← h.onward.current]
        exact stops
  · have stops := run_bind_error k ran
    have leads := leaves_of_error stops
    refine ⟨?_, fun unlimited room => ?_, fun unlimited room more => ?_⟩
    · rw [leads]
      exact h.onward
    · rw [leads] at room
      rw [run_bind, h.within unlimited room, stops, ran]
      rfl
    · rw [leads] at more ⊢
      obtain ⟨e, v, τ, prints, overflows, stops⟩ := h.beyond unlimited room more
      exact ⟨e, v, τ, prints, overflows, run_bind_error k stops⟩

/-- After reading the state, an action may depend on all of it but the capacity. -/
theorem read {l : State → Eval β} (blind : l (σ.withCapacity (some limit)) = l σ)
    (h : Truncates limit P σ (l σ)) : Truncates limit P σ (MonadState.get >>= l) := by
  have same : (MonadState.get >>= l) (σ.withCapacity (some limit)) =
      l σ (σ.withCapacity (some limit)) := by
    rw [← blind]
    rfl
  refine ⟨h.onward, fun unlimited room => ?_, fun unlimited room more => ?_⟩
  · exact same.trans (h.within unlimited room)
  · rw [same]
    exact h.beyond unlimited room more

/-- Within another scope an action is cut short as well, and only the scope is left again. -/
theorem inScope {f : Nat} (h : Truncates limit P { σ with current := f } x) :
    Truncates limit P σ (Eval.inScope f x) := by
  have leads := leaves_inScope x f σ
  refine ⟨?_, fun unlimited room => ?_, fun unlimited room more => ?_⟩
  · rw [leads]
    exact ⟨rfl, h.onward.distances,
      (State.Grows.inScope σ f).trans (h.onward.grows.trans (.inScope _ _))⟩
  · rw [leads] at room
    have same := h.within unlimited room
    change x { σ.withCapacity (some limit) with current := f } = _ at same
    unfold Eval.inScope
    rw [same]
    cases x { σ with current := f } <;> rfl
  · rw [leads] at more ⊢
    obtain ⟨e, v, τ, prints, overflows, stops⟩ := h.beyond unlimited room more
    change x { σ.withCapacity (some limit) with current := f } = _ at stops
    refine ⟨e, v, τ, prints, ⟨overflows.full, overflows.next⟩, ?_⟩
    unfold Eval.inScope
    rw [stops]
    rfl

/-- A `print` is itself cut short, if the output is full. -/
theorem print {fuel : Nat} {e : Expr} {v : Value} {σ₁ : State}
    (evaluated : evaluate fuel e σ = .ok v σ₁) :
    Truncates limit (AboutToPrint ⟨fuel + 1, .execute (.print e), σ⟩) σ₁
      (Eval.print v.toText (e.line?.getD 0)) := by
  have printed : ∀ {τ : State}, τ.host.accepts τ.printed.size = true →
      Eval.print v.toText (e.line?.getD 0) τ =
        .ok ⟨⟩ { τ with printed := τ.printed.push v.toText } := by
    intro τ accepts
    rw [run_print, if_pos accepts]
  refine ⟨proceeds_print _ _ σ₁, fun unlimited room => ?_, fun unlimited room more => ?_⟩
  · have accepts : σ₁.host.accepts σ₁.printed.size = true := by
      rw [Host.accepts, unlimited]
    have ran := printed accepts
    rw [leaves_of_ok ran] at room
    have limited : (σ₁.withCapacity (some limit)).host.accepts σ₁.printed.size = true := by
      simpa [Host.accepts, State.withCapacity] using room
    rw [ran]
    exact printed limited
  · have accepts : σ₁.host.accepts σ₁.printed.size = true := by
      rw [Host.accepts, unlimited]
    have ran := printed accepts
    rw [leaves_of_ok ran] at more ⊢
    have full : σ₁.printed.size = limit := by
      simp only [Array.size_push] at more
      omega
    refine ⟨e, v, σ₁, .here evaluated, ⟨full, List.prefix_rfl⟩, ?_⟩
    have refused : ¬(σ₁.withCapacity (some limit)).host.accepts σ₁.printed.size = true := by
      simp [Host.accepts, State.withCapacity, full]
    exact (run_print ..).trans (if_neg refused)

end Truncates

/-! ## The interpreter -/

/-- With the given fuel, every function of the interpreter is cut short by a full output only. -/
structure AllTruncate (limit fuel : Nat) : Prop where
  evaluate : ∀ e σ, Truncates limit (AboutToPrint ⟨fuel, .evaluate e, σ⟩) σ (evaluate fuel e)
  evaluateAll : ∀ es σ,
    Truncates limit (AboutToPrint ⟨fuel, .evaluateAll es, σ⟩) σ (evaluateAll fuel es)
  call : ∀ f values line σ,
    Truncates limit (AboutToPrint ⟨fuel, .call f values line, σ⟩) σ (call fuel f values line)
  invoke : ∀ f values σ,
    Truncates limit (AboutToPrint ⟨fuel, .invoke f values, σ⟩) σ (invoke fuel f values)
  execute : ∀ s σ, Truncates limit (AboutToPrint ⟨fuel, .execute s, σ⟩) σ (execute fuel s)
  executeAll : ∀ ss σ,
    Truncates limit (AboutToPrint ⟨fuel, .executeAll ss, σ⟩) σ (executeAll fuel ss)
  repeatWhile : ∀ condition body σ,
    Truncates limit (AboutToPrint ⟨fuel, .repeatWhile condition body, σ⟩) σ
      (repeatWhile fuel condition body)

namespace AllTruncate

variable {limit fuel : Nat} (h : AllTruncate limit fuel) (σ : State)
include h

theorem evaluate_succ (e : Expr) :
    Truncates limit (AboutToPrint ⟨fuel + 1, .evaluate e, σ⟩) σ (Eval.evaluate (fuel + 1) e) := by
  cases e with
  | constant value => exact .of_silent (.pure _)
  | grouping inner => exact (h.evaluate inner σ).called (.grouping ..)
  | unary operator operand =>
    exact .bind ((h.evaluate operand σ).called (.operand ..)) fun v _ _ =>
      .of_silent (Silent.compositional.applyUnary v operator)
  | binary left operator right =>
    exact .bind ((h.evaluate left σ).called (.binaryLeft ..)) fun a σ₁ first =>
      .bind ((h.evaluate right σ₁).called (.binaryRight first)) fun b _ _ =>
        .of_silent (Silent.compositional.applyBinary operator a b)
  | logical left operator right =>
    refine .bind ((h.evaluate left σ).called (.logicalLeft ..)) fun a σ₁ first => ?_
    split
    · exact .of_silent (.pure _)
    · rename_i undecided
      exact (h.evaluate right σ₁).called (.logicalRight first (by simpa using undecided))
  | name id token => exact .of_silent (Silent.compositional.lookUp token id)
  | assign id target value =>
    exact .bind ((h.evaluate value σ).called (.assigned ..)) fun v _ _ =>
      .of_silent (.bind (silent_assign target v id) fun _ => .pure v)
  | call callee closing arguments =>
    exact .bind ((h.evaluate callee σ).called (.callee ..)) fun f σ₁ first =>
      .bind ((h.evaluateAll arguments σ₁).called (.arguments first)) fun values σ₂ second =>
        (h.call f values closing.line σ₂).called (.call first second)
  | get object name =>
    refine .bind ((h.evaluate object σ).called (.readObject ..)) fun v _ _ => ?_
    split
    · exact .of_silent (Silent.compositional.property name _)
    · exact .of_silent (.fail _ _)
  | set object name value =>
    refine .bind ((h.evaluate object σ).called (.setObject ..)) fun v σ₁ first => ?_
    split
    · exact .bind ((h.evaluate value σ₁).called (.setValue first)) fun v _ _ =>
        .of_silent (.bind (silent_setField v _ _) fun _ => .pure v)
    · exact .of_silent (.fail _ _)
  | this id keyword => exact .of_silent (Silent.compositional.lookUp keyword id)
  | super id keyword method => exact .of_silent (Silent.compositional.superMethod method id keyword)

theorem evaluateAll_succ (es : List Expr) :
    Truncates limit (AboutToPrint ⟨fuel + 1, .evaluateAll es, σ⟩) σ
      (Eval.evaluateAll (fuel + 1) es) := by
  cases es with
  | nil => exact .of_silent (.pure _)
  | cons e es =>
    exact .bind ((h.evaluate e σ).called (.head ..)) fun v σ₁ first =>
      .bind ((h.evaluateAll es σ₁).called (.tail first)) fun vs _ _ => .of_silent (.pure _)

theorem call_succ (f : Value) (values : List Value) (line : Nat) :
    Truncates limit (AboutToPrint ⟨fuel + 1, .call f values line, σ⟩) σ
      (Eval.call (fuel + 1) f values line) := by
  have checked : ∀ {P : Expr → Value → State → Prop} {expected : Nat} {l : Unit → Eval Value},
      (values.length = expected → Truncates limit P σ (l ⟨⟩)) →
      Truncates limit P σ (checkArity expected values line >>= l) := by
    intro P expected l rest
    refine .bind (.of_silent (Silent.compositional.checkArity ..)) fun _ σ₁ ran => ?_
    unfold checkArity at ran
    split at ran
    · cases ran
      exact rest ‹_›
    · cases ran
  cases f with
  | native f => exact checked fun _ => .of_silent (Silent.compositional.applyNative ..)
  | function _ f => exact checked fun arity => (h.invoke f values σ).called (.function arity)
  | bound _ f => exact checked fun arity => (h.invoke f values σ).called (.method arity)
  | ofClass c =>
    refine checked fun arity => .bind (.of_silent (silent_allocate c)) fun o σ₁ made => ?_
    cases found : c.findMethod? initializerName with
    | none => exact .of_silent (.pure _)
    | some method =>
      refine .bind (.of_silent (Silent.compositional.receive method o)) fun f σ₂ received => ?_
      refine .bind ((h.invoke f values σ₂).called (.initializer arity made found received)) ?_
      exact fun _ _ _ => .of_silent (.pure _)
  | nil | bool | number | text | object => exact .of_silent (.fail _ _)

theorem invoke_succ (f : Closure) (values : List Value) :
    Truncates limit (AboutToPrint ⟨fuel + 1, .invoke f values, σ⟩) σ
      (Eval.invoke (fuel + 1) f values) := by
  refine .bind (.of_silent (silent_openScope ..)) fun scope σ₁ entered => ?_
  have body := (h.executeAll f.declaration.body { σ₁ with current := scope }).called (.body entered)
  exact .bind (.inScope body) fun flow _ _ => .of_silent (Silent.compositional.result f flow)

theorem execute_succ (s : Stmt) :
    Truncates limit (AboutToPrint ⟨fuel + 1, .execute s, σ⟩) σ (Eval.execute (fuel + 1) s) := by
  cases s with
  | expression value =>
    exact .bind ((h.evaluate value σ).called (.expression ..)) fun _ _ _ => .of_silent (.pure _)
  | print value =>
    exact .bind ((h.evaluate value σ).called (.print ..)) fun v σ₁ evaluated =>
      .bind (.print evaluated) fun _ _ _ => .of_silent (.pure _)
  | varDecl name initializer =>
    cases initializer with
    | none => exact .of_silent (.bind (.pure _) fun v => .bind (silent_define v _) fun _ => .pure _)
    | some e =>
      exact .bind ((h.evaluate e σ).called (.varDecl ..)) fun v _ _ =>
        .of_silent (.bind (silent_define v _) fun _ => .pure _)
  | block body =>
    refine .read rfl (.bind (.of_silent (silent_openScope [] _)) fun scope σ₁ entered => ?_)
    exact .inScope ((h.executeAll body { σ₁ with current := scope }).called (.block entered))
  | ifThen condition thenBranch =>
    refine .bind ((h.evaluate condition σ).called (.ifThenCondition ..)) fun v σ₁ first => ?_
    split
    · exact (h.execute thenBranch σ₁).called (.ifThen first ‹_›)
    · exact .of_silent (.pure _)
  | ifElse condition thenBranch elseBranch =>
    refine .bind ((h.evaluate condition σ).called (.ifElseCondition ..)) fun v σ₁ first => ?_
    split
    · exact (h.execute thenBranch σ₁).called (.thenBranch first ‹_›)
    · rename_i fails
      exact (h.execute elseBranch σ₁).called (.elseBranch first (by simpa using fails))
  | whileLoop condition body => exact (h.repeatWhile condition body σ).called (.whileLoop ..)
  | funDecl declaration =>
    exact .of_silent (.read (fun _ _ => rfl) fun _ => .bind silent_freshSerial fun _ =>
      .bind (silent_define _ _) fun _ => .pure _)
  | returnStmt keyword value =>
    cases value with
    | none => exact .of_silent (.pure _)
    | some e =>
      exact .bind ((h.evaluate e σ).called (.returned ..)) fun _ _ _ => .of_silent (.pure _)
  | classDecl name superclass methods =>
    have declared : ∀ parent,
        Silent (declareClass name parent methods >>= fun _ => pure Flow.normal) :=
      fun parent => .bind (silent_declareClass name parent methods) fun _ => .pure _
    cases superclass with
    | none => exact .of_silent (.bind (.pure none) declared)
    | some e =>
      refine .bind ((h.evaluate e σ).called (.superclass ..)) fun v _ _ => ?_
      split
      · exact .of_silent (.bind (.pure (some _)) declared)
      · exact .of_silent (.bind (.fail _ _) declared)

theorem executeAll_succ (ss : List Stmt) :
    Truncates limit (AboutToPrint ⟨fuel + 1, .executeAll ss, σ⟩) σ
      (Eval.executeAll (fuel + 1) ss) := by
  cases ss with
  | nil => exact .of_silent (.pure _)
  | cons s ss =>
    refine .bind ((h.execute s σ).called (.first ..)) fun flow σ₁ first => ?_
    cases flow with
    | returned v => exact .of_silent (.pure _)
    | normal => exact (h.executeAll ss σ₁).called (.rest first)

theorem repeatWhile_succ (condition : Expr) (body : Stmt) :
    Truncates limit (AboutToPrint ⟨fuel + 1, .repeatWhile condition body, σ⟩) σ
      (Eval.repeatWhile (fuel + 1) condition body) := by
  refine .bind ((h.evaluate condition σ).called (.condition ..)) fun v σ₁ first => ?_
  split
  · rename_i holds
    refine .bind ((h.execute body σ₁).called (.round first holds)) fun flow σ₂ second => ?_
    cases flow with
    | returned v => exact .of_silent (.pure _)
    | normal => exact (h.repeatWhile condition body σ₂).called (.again first holds second)
  · exact .of_silent (.pure _)

end AllTruncate

theorem allTruncate (limit fuel : Nat) : AllTruncate limit fuel := by
  induction fuel with
  | zero =>
    have spent : ∀ {P : Expr → Value → State → Prop} {α : Type} {σ : State},
        Truncates limit P σ (Eval.spent : Eval α) := .of_silent (.throw _)
    exact ⟨fun _ _ => spent, fun _ _ => spent, fun _ _ _ _ => spent, fun _ _ _ => spent,
      fun _ _ => spent, fun _ _ => spent, fun _ _ _ => spent⟩
  | succ fuel h =>
    exact ⟨fun e σ => h.evaluate_succ σ e, fun es σ => h.evaluateAll_succ σ es,
      fun f values line σ => h.call_succ σ f values line,
      fun f values σ => h.invoke_succ σ f values, fun s σ => h.execute_succ σ s,
      fun ss σ => h.executeAll_succ σ ss,
      fun condition body σ => h.repeatWhile_succ σ condition body⟩

/-- A whole program is cut short in one of its statements. -/
theorem truncates_interpret (limit fuel : Nat) (program : List Stmt) (σ : State) :
    Truncates limit (fun e v τ => ∃ p, Starts fuel program σ p ∧ AboutToPrint p e v τ) σ
      (interpret fuel program) := by
  induction program generalizing σ with
  | nil => exact .of_silent (.pure _)
  | cons s rest ih =>
    have first := (allTruncate limit fuel).execute s σ
    refine .bind (first.imp fun e v τ prints => ⟨_, .here .., prints⟩) fun flow σ₁ ran => ?_
    refine (ih σ₁).imp fun e v τ later => ?_
    obtain ⟨p, starts, prints⟩ := later
    exact ⟨p, .later ran starts, prints⟩

end ClassScript
