import ClassScript.Proofs.Execution.Creation
import ClassScript.Proofs.Session.Dispatch
import ClassScript.Proofs.Session.Receivers

set_option autoImplicit false

/-!
# Initializers yield their receivers

Whatever the body of an initializer does, a call of it that ends well yields the instance to which it
was bound: the method value is marked as an initializer wherever it was obtained, and the scope from
which the instance is read has stayed as it was opened.

Calling a class yields an instance of it that nobody has had before.
-/

namespace ClassScript

open Eval

/-! ## Running an initializer -/

/-- What an initializer yields is read from the scope it is closed over, once its body is done. -/
theorem invoke_isInitializer {n : Nat} {f : Closure} {values : List Value} {σ σ' : State} {v : Value}
    (initializer : f.isInitializer = true) (ran : invoke (n + 1) f values σ = .ok v σ') :
    v = (σ'.scopes.local? f.scope "this").getD .nil := by
  rw [invoke] at ran
  obtain ⟨scope, σ₁, -, inside⟩ := run_bind_eq_ok ran
  obtain ⟨flow, σ₂, -, yields⟩ := run_bind_eq_ok inside
  unfold result at yields
  rw [if_pos initializer] at yields
  cases yields
  rfl

/-- A call with the wrong number of arguments does not get beyond the check. -/
theorem checkArity_eq_ok {expected line : Nat} {values : List Value} {σ σ' : State} {u : Unit}
    (ran : checkArity expected values line σ = .ok u σ') : values.length = expected ∧ σ' = σ := by
  unfold checkArity at ran
  split at ran
  · cases ran
    exact ⟨‹_›, rfl⟩
  · cases ran

/-- Calling a method value runs the method. -/
theorem call_bound_eq_ok {fuel serial line : Nat} {f : Closure} {values : List Value} {σ σ' : State}
    {v : Value} (ran : call (fuel + 1) (.bound serial f) values line σ = .ok v σ') :
    values.length = f.arity ∧ invoke fuel f values σ = .ok v σ' := by
  rw [call] at ran
  obtain ⟨_, σ₁, checked, invoked⟩ := run_bind_eq_ok ran
  obtain ⟨arity, rfl⟩ := checkArity_eq_ok checked
  exact ⟨arity, invoked⟩

/-- Calling a class makes an instance, and yields it whatever the initializer does. -/
theorem call_ofClass_eq_ok {fuel line : Nat} {c : Class} {values : List Value} {σ σ' : State}
    {v : Value} (ran : call fuel (.ofClass c) values line σ = .ok v σ') :
    Creates ⟨fuel, .call (.ofClass c) values line, σ⟩ ⟨σ.fields.size, c⟩ ∧
      v = .object ⟨σ.fields.size, c⟩ := by
  cases fuel with
  | zero => cases ran
  | succ fuel =>
    rw [call] at ran
    obtain ⟨_, σ₁, checked, goesOn⟩ := run_bind_eq_ok ran
    obtain ⟨arity, rfl⟩ := checkArity_eq_ok checked
    refine ⟨.made arity, ?_⟩
    obtain ⟨o, σ₂, made, initialized⟩ := run_bind_eq_ok goesOn
    cases made
    cases found : c.findMethod? initializerName with
    | none =>
      rw [found] at initialized
      cases initialized
      rfl
    | some method =>
      rw [found] at initialized
      obtain ⟨f, σ₃, -, invoked⟩ := run_bind_eq_ok initialized
      obtain ⟨_, σ₄, -, yields⟩ := run_bind_eq_ok invoked
      cases yields
      rfl

/-- A call with the wrong number of arguments changes nothing, and calls nothing. -/
theorem call_of_arity_ne {fuel line : Nat} {callee : Value} {arity : Nat} {values : List Value}
    {σ : State} (expects : (∃ c : Class, callee = .ofClass c ∧ arity = c.arity) ∨
      ∃ serial f, callee = .bound serial f ∧ arity = f.arity) (wrong : values.length ≠ arity) :
    call (fuel + 1) callee values line σ =
        .error (.error ⟨.arityMismatch arity values.length, line⟩) σ ∧
      ∀ q, ¬Calls ⟨fuel + 1, .call callee values line, σ⟩ q := by
  have stops : checkArity arity values line σ =
      .error (.error ⟨.arityMismatch arity values.length, line⟩) σ := by
    unfold checkArity
    rw [if_neg wrong]
    rfl
  rcases expects with ⟨c, rfl, rfl⟩ | ⟨serial, f, rfl, rfl⟩
  · refine ⟨run_bind_error _ stops, fun q calls => ?_⟩
    cases calls with
    | initializer arity _ _ _ => exact wrong arity
  · refine ⟨run_bind_error _ stops, fun q calls => ?_⟩
    cases calls with
    | method arity => exact wrong arity

/-! ## Initializers of a session -/

section Session

variable {host : Host} {natives : List Native} {runs : List (Nat × String)} {n : Nat} {f : Closure}
  {o : Object} {values : List Value} {σ σ' : State} {v : Value}

/-- A method value with the name of an initializer is one, from whichever class it was obtained. -/
theorem Obtained.isInitializer
    (obtained : Obtained (Execution.ofSession host natives runs).reached o f)
    (named : f.name = initializerName) : f.isInitializer = true := by
  obtain ⟨p, σ, method, reached, obtains, rfl⟩ := obtained
  have obeys : p.Obeys (.tracing (.ofSession host natives runs)) :=
    .of_reached (State.traced_start _ host natives) reached
  obtain ⟨c, name, ⟨texts, descends⟩, found⟩ := obtains.traced reached obeys
  have same : method.isInitializer = method.declaration.isInitializer := descends.isInitializer found
  change method.isInitializer = true
  rw [same, FunctionDecl.isInitializer]
  exact beq_iff_eq.2 named

/-- An initializer that is run for an instance yields it. -/
theorem invoke_obtained
    (reached : (Execution.ofSession host natives runs).reached ⟨n, .invoke f values, σ⟩)
    (obtained : Obtained (Execution.ofSession host natives runs).reached o f)
    (named : f.name = initializerName) (ran : invoke n f values σ = .ok v σ') : v = .object o := by
  have initializer := obtained.isInitializer named
  obtain ⟨p, τ, method, bound, obtains, rfl⟩ := obtained
  have reserves : Reserves (Execution.ofSession host natives runs).reached τ.scopes.size
      ⟨[("this", .object o)], some method.scope⟩ := .receiver bound obtains rfl
  -- the scope of the receiver is there when the body begins, and is the same when it is done
  have there : τ.scopes.size < σ.scopes.size :=
    (Point.Obeys.of_reached (I := .present (.ofSession host natives runs))
      (State.Present.start host natives) reached).task.1
  have within : τ.scopes.size < σ'.scopes.size :=
    Nat.lt_of_lt_of_le there (((allProceed n).invoke _ values).of_ok ran).size
  have guarded : σ'.Guarded (.ofSession host natives runs) := by
    rw [← leaves_of_ok ran]
    exact (Point.Obeys.of_reached (I := .guarding (.ofSession host natives runs)
      Execution.single_ofSession) State.guarded_start reached).leaves reached
  have kept := guarded.kept reserves within
  cases n with
  | zero => cases ran
  | succ n =>
    rw [invoke_isInitializer initializer ran, Scopes.local?, kept]
    rfl

/-- What is run when a method value or a class is called was obtained for an instance. -/
theorem Calls.obtained {fuel line : Nat} {callee : Value} {us : List Value}
    (reached : (Execution.ofSession host natives runs).reached ⟨fuel, .call callee values line, σ⟩)
    (calls : Calls ⟨fuel, .call callee values line, σ⟩ ⟨n, .invoke f us, σ'⟩)
    (method : ∀ serial, callee ≠ .function serial f) :
    ∃ o, Obtained (Execution.ofSession host natives runs).reached o f := by
  cases calls with
  | @function _ serial _ _ _ _ _ => exact absurd rfl (method serial)
  | method =>
    exact (Point.Obeys.of_reached (I := .guarding (.ofSession host natives runs)
      Execution.single_ofSession) State.guarded_start reached).task.1
  | initializer arity made found received =>
    cases received
    exact ⟨_, _, _, _, reached, .initializer arity made found, rfl⟩

/-- The instance that a method value was obtained for is known from the value. -/
theorem Obtained.unique {o' : Object}
    (h : Obtained (Execution.ofSession host natives runs).reached o f)
    (k : Obtained (Execution.ofSession host natives runs).reached o' f) : o' = o :=
  (Execution.single_ofSession.obtained k h rfl).1

/-- An initializer that a call runs, of a method value or of a class, is what the call yields the
receiver of. -/
theorem call_obtained {fuel line : Nat} {callee : Value} {us : List Value} {τ : State}
    (reached : (Execution.ofSession host natives runs).reached ⟨fuel, .call callee values line, σ⟩)
    (ran : call fuel callee values line σ = .ok v σ')
    (calls : Calls ⟨fuel, .call callee values line, σ⟩ ⟨n, .invoke f us, τ⟩)
    (obtained : Obtained (Execution.ofSession host natives runs).reached o f)
    (method : ∀ serial, callee ≠ .function serial f) (named : f.name = initializerName) :
    v = .object o := by
  have invoked := (Execution.ofSession host natives runs).calls reached calls
  cases calls with
  | @function _ serial _ _ _ _ _ => exact absurd rfl (method serial)
  | method => exact invoke_obtained invoked obtained named (call_bound_eq_ok ran).2
  | initializer arity made found received =>
    obtain ⟨-, rfl⟩ := call_ofClass_eq_ok ran
    cases made
    cases received
    rw [obtained.unique ⟨_, _, _, reached, .initializer arity rfl found, rfl⟩]

/-- A call of a method that is read from an instance, or through `super`, yields the receiver if the
method is an initializer. -/
theorem evaluate_call_obtains {fuel : Nat} {e : Expr} {closing : Token} {arguments : List Expr}
    {σ₁ : State} {method : Closure}
    (reached : (Execution.ofSession host natives runs).reached
      ⟨fuel + 1, .evaluate (.call e closing arguments), σ⟩)
    (obtains : Obtains ⟨fuel, .evaluate e, σ⟩ o σ₁ method) (named : method.name = initializerName)
    (ran : evaluate (fuel + 1) (.call e closing arguments) σ = .ok v σ') : v = .object o := by
  have calls : ∀ {q}, Calls _ q → (Execution.ofSession host natives runs).reached q :=
    (Execution.ofSession host natives runs).calls reached
  obtain ⟨callee, σ₂, first, rest⟩ := run_bind_eq_ok ran
  obtain ⟨values, σ₃, second, called⟩ := run_bind_eq_ok rest
  obtain ⟨σ₄, evaluates⟩ := obtains.evaluate
  cases evaluates.symm.trans first
  have obtained : Obtained (Execution.ofSession host natives runs).reached o
      { method with scope := σ₁.scopes.size } := ⟨_, _, _, calls (.callee ..), obtains, rfl⟩
  have reached' := calls (.call first second)
  cases fuel with
  | zero => cases called
  | succ fuel =>
    obtain ⟨arity, -⟩ := call_bound_eq_ok called
    exact call_obtained reached' called (.method arity) obtained (fun _ => nofun) named

/-- An instance that is there already is none that is made in the state. -/
theorem Creates.apart {p : Point} {o' : Object}
    (reached : (Execution.ofSession host natives runs).reached p) (creates : Creates p o)
    (there : (∃ g name, p.state.scopes.local? g name = some (.object o')) ∨
      (∃ o₁ name, p.state.field? o₁ name = some (.object o')) ∨
      ∃ callee values line, p.task = .call callee values line ∧ .object o' ∈ values) :
    o'.id ≠ o.id := by
  have obeys : p.Obeys (.present (.ofSession host natives runs)) :=
    .of_reached (State.Present.start host natives) reached
  cases creates with
  | @made fuel line c values σ arity =>
    have older : (Value.object o').Present (.ofSession host natives runs) σ := by
      rcases there with ⟨g, name, held⟩ | ⟨o₁, name, held⟩ | ⟨callee, values', line', at_, among⟩
      · exact obeys.state.holds.scopes held
      · exact obeys.state.holds.fields held
      · cases at_
        exact obeys.task.2 _ among
    exact Nat.ne_of_lt older.1

end Session

/-- In a session, a call that runs a method with the name of an initializer, be it the call of a class
or of a method value, yields the instance that the method was bound to whenever it ends well; so does
a call of such a method that is read from an instance or through `super`.  Calling a class yields an
instance of this class that is made by this call and no other, and that is none of those that a scope,
a field or an argument has when the call begins; all instances that there ever are were made so.  With
a wrong number of arguments, a call changes nothing and runs nothing. -/
theorem initializers_yield_receiver (host : Host) (natives : List Native)
    (runs : List (Nat × String)) :
    let s := Session.start host natives
    let W := World.ofLaunches (s.launches runs)
    (∀ fuel callee values line σ v σ' n f us τ,
      W.reached ⟨fuel, .call callee values line, σ⟩ →
      call fuel callee values line σ = .ok v σ' →
      Calls ⟨fuel, .call callee values line, σ⟩ ⟨n, .invoke f us, τ⟩ →
      (∀ serial, callee ≠ .function serial f) → f.name = initializerName →
      ∃ o, Obtained W.reached o f ∧ (∀ o', Obtained W.reached o' f → o' = o) ∧ v = .object o) ∧
    (∀ fuel e closing arguments σ o σ₁ method v σ',
      W.reached ⟨fuel + 1, .evaluate (.call e closing arguments), σ⟩ →
      Obtains ⟨fuel, .evaluate e, σ⟩ o σ₁ method → method.name = initializerName →
      evaluate (fuel + 1) (.call e closing arguments) σ = .ok v σ' → v = .object o) ∧
    (∀ fuel c values line σ v σ',
      W.reached ⟨fuel, .call (.ofClass c) values line, σ⟩ →
      call fuel (.ofClass c) values line σ = .ok v σ' →
      ∃ o, v = .object o ∧ o.type = c ∧ Creates ⟨fuel, .call (.ofClass c) values line, σ⟩ o ∧
        (∀ p o', W.reached p → Creates p o' → p ≠ ⟨fuel, .call (.ofClass c) values line, σ⟩ →
          o'.id ≠ o.id) ∧
        ∀ o', (∃ g name, σ.scopes.local? g name = some (.object o')) ∨
            (∃ o₁ name, σ.field? o₁ name = some (.object o')) ∨ .object o' ∈ values →
          o'.id ≠ o.id) ∧
    (∀ σ, s.ComesTo runs σ → ∀ o, (∃ g name, σ.scopes.local? g name = some (.object o)) ∨
        (∃ o₁ name, σ.field? o₁ name = some (.object o)) → ∃ p, W.reached p ∧ Creates p o) ∧
    ∀ fuel callee arity values line σ,
      ((∃ c : Class, callee = .ofClass c ∧ arity = c.arity) ∨
        ∃ serial f, callee = .bound serial f ∧ arity = f.arity) → values.length ≠ arity →
      call (fuel + 1) callee values line σ =
          .error (.error ⟨.arityMismatch arity values.length, line⟩) σ ∧
        ∀ q, ¬Calls ⟨fuel + 1, .call callee values line, σ⟩ q := by
  intro s W
  refine ⟨?_, ?_, ?_, ?_, ?_⟩
  · intro fuel callee values line σ v σ' n f us τ reached ran calls method named
    obtain ⟨o, obtained⟩ := Calls.obtained reached calls method
    exact ⟨o, obtained, fun o' other => obtained.unique other,
      call_obtained reached ran calls obtained method named⟩
  · intro fuel e closing arguments σ o σ₁ method v σ' reached obtains named ran
    exact evaluate_call_obtains reached obtains named ran
  · intro fuel c values line σ v σ' reached ran
    obtain ⟨creates, yields⟩ := call_ofClass_eq_ok ran
    refine ⟨_, yields, rfl, creates, ?_, ?_⟩
    · intro p o' reached' creates' other same
      refine other (Execution.single_ofSession.taker reached' reached creates'.takes ?_)
      exact same ▸ creates.takes
    · intro o' there
      refine creates.apart reached (there.imp_right fun h => h.imp_right fun among => ?_)
      exact ⟨_, _, _, rfl, among⟩
  · intro σ comes o there
    have present : σ.Present (.ofSession host natives runs) :=
      Invariant.state_of_comesTo (I := .present (.ofSession host natives runs))
        (State.Present.start host natives) comes
    rcases there with ⟨g, name, held⟩ | ⟨o₁, name, held⟩
    · exact (present.holds.scopes held).2
    · exact (present.holds.fields held).2
  · intro fuel callee arity values line σ expects wrong
    exact call_of_arity_ne expects wrong

/-- An initializer that returns early. -/
def returningInitializer : FunctionDecl :=
  ⟨wordOf .identifier "init", [], [.returnStmt (wordOf .kwReturn "return") none]⟩

/-- A new instance of a class with this initializer. -/
def newInstance : Expr :=
  .call (.name 0 (wordOf .identifier "A")) (wordOf .rightParen ")") []

/-- What is launched by the class and a second call of the initializer of an instance. -/
def initializingLaunch : Launch where
  program :=
    [.classDecl (wordOf .identifier "A") none [returningInitializer],
      .expression (.call (.get newInstance (wordOf .identifier "init")) (wordOf .rightParen ")") [])]
  session := { state := State.start .still [], nextId := 1 }

theorem launches_initializing : (Session.start .still []).launches
    [(20, "class A \x7b init() \x7b return; \x7d \x7d A().init();")] =
      [(20, initializingLaunch)] := by
  cbv

/-- The class as a value. -/
def initializingClass : Class :=
  Class.declare ⟨0, "A", closeMethods 0 [returningInitializer]⟩ none

/-- The state once the class is declared. -/
def initializingState : State :=
  (execute 20 (.classDecl (wordOf .identifier "A") none [returningInitializer])).leaves
    initializingLaunch.session.state

/-- The state once an instance is made. -/
def initializedState : State :=
  (evaluate 17 newInstance).leaves initializingState

theorem initializers_yield_receiver_again :
    Obtains ⟨18, .evaluate (.get newInstance (wordOf .identifier "init")), initializingState⟩
        ⟨0, initializingClass⟩ initializedState ⟨returningInitializer, 0, true⟩ ∧
      ∀ v σ', evaluate 19 (.call (.get newInstance (wordOf .identifier "init"))
          (wordOf .rightParen ")") []) initializingState = .ok v σ' →
        v = .object ⟨0, initializingClass⟩ := by
  have declared : execute 20 (.classDecl (wordOf .identifier "A") none [returningInitializer])
      initializingLaunch.session.state = .ok .normal initializingState := rfl
  have launched : (20, initializingLaunch) ∈ (Session.start .still []).launches
      [(20, "class A \x7b init() \x7b return; \x7d \x7d A().init();")] := by
    rw [launches_initializing]
    exact List.mem_singleton_self _
  have reached : initializingLaunch.Reaches 20 _ :=
    .call (.start (.later declared (.here _ [] _))) (.expression ..)
  have made : evaluate 17 newInstance initializingState =
      .ok (.object ⟨0, initializingClass⟩) initializedState := rfl
  have obtains : Obtains ⟨18, .evaluate (.get newInstance (wordOf .identifier "init")),
      initializingState⟩ ⟨0, initializingClass⟩ initializedState ⟨returningInitializer, 0, true⟩ :=
    .property made rfl rfl
  refine ⟨obtains, fun v σ' ran => ?_⟩
  have yields := (initializers_yield_receiver .still []
    [(20, "class A \x7b init() \x7b return; \x7d \x7d A().init();")]).2.1
  exact yields _ _ _ _ _ _ _ _ _ _ ⟨_, launched, reached⟩ obtains rfl ran

end ClassScript
