import ClassScript.Proofs.Lexical.Readiness

set_option autoImplicit false

/-!
# The lexical interpreter follows the running program

By induction on the fuel, which both interpreters count down alike: if all that either does with some
fuel is followed, so is all it does with one more.
-/

namespace ClassScript

open Lexical (Environment)

/-- With the given fuel, whatever the running program does is followed. -/
structure Simulates (W : World) (fuel : Nat) : Prop where
  evaluate : ∀ {c : Twin} {sites frames env} {e : Expr}, c.Matched W →
    c.Ready W sites frames env e.references → W.reached ⟨fuel, .evaluate e, c.state⟩ →
    Follows W none c (SameResult W) (Eval.evaluate fuel e) (Lexical.evaluate fuel env e)
  evaluateAll : ∀ {c : Twin} {sites frames env} {es : List Expr}, c.Matched W →
    c.Ready W sites frames env (Expr.referencesAll es) →
    W.reached ⟨fuel, .evaluateAll es, c.state⟩ →
    Follows W none c (fun vs ws c' => List.Forall₂ (SameValue (c'.view W)) vs ws)
      (Eval.evaluateAll fuel es) (Lexical.evaluateAll fuel env es)
  call : ∀ {c : Twin} {f f' : Value} {vs ws : List Value} {line : Nat}, c.Matched W →
    SameValue (c.view W) f f' → List.Forall₂ (SameValue (c.view W)) vs ws →
    W.reached ⟨fuel, .call f vs line, c.state⟩ →
    Follows W none c (SameResult W) (Eval.call fuel f vs line) (Lexical.call fuel f' ws line)
  invoke : ∀ {c : Twin} {f f' : Closure} {vs ws : List Value}, c.Matched W →
    SameFunction (c.view W) f f' → List.Forall₂ (SameValue (c.view W)) vs ws →
    vs.length = f.arity → W.reached ⟨fuel, .invoke f vs, c.state⟩ →
    Follows W none c (SameResult W) (Eval.invoke fuel f vs) (Lexical.invoke fuel f' ws)
  execute : ∀ {c : Twin} {sites frames env} {s : Stmt}, c.Matched W →
    c.Stands W sites frames env → s.Known (c.view W) sites frames →
    W.reached ⟨fuel, .execute s, c.state⟩ →
    Follows W (some c.state.current) c
      (fun flow p c' => SameFlow W flow p.1 c' ∧ c'.Stands W sites (s.after frames) p.2)
      (Eval.execute fuel s) (Lexical.execute fuel env s)
  executeAll : ∀ {c : Twin} {sites frames env} {ss : List Stmt}, c.Matched W →
    c.Stands W sites frames env → Stmt.KnownAll (c.view W) sites frames ss →
    W.reached ⟨fuel, .executeAll ss, c.state⟩ →
    Follows W (some c.state.current) c (SameFlow W) (Eval.executeAll fuel ss)
      (Lexical.executeAll fuel env ss)
  repeatWhile : ∀ {c : Twin} {sites frames env} {condition : Expr} {body : Stmt}, c.Matched W →
    c.Stands W sites frames env → (Stmt.whileLoop condition body).Known (c.view W) sites frames →
    W.reached ⟨fuel, .repeatWhile condition body, c.state⟩ →
    Follows W (some c.state.current) c
      (fun flow flow' c' => SameFlow W flow flow' c' ∧ c'.Stands W sites frames env)
      (Eval.repeatWhile fuel condition body) (Lexical.repeatWhile fuel env condition body)

section Entering

variable {W : World} {fuel : Nat} {c : Twin}

/-- A body is entered: its parameters are in a new scope, and in the map. -/
theorem Twin.Matched.entersBody {f f' : Closure} {vs ws : List Value} (m : c.Matched W)
    (same : SameFunction (c.view W) f f') (values : List.Forall₂ (SameValue (c.view W)) vs ws)
    (length : vs.length = f.arity) (reached : W.reached ⟨fuel + 1, .invoke f vs, c.state⟩) :
    ∃ (c₁ : Twin) (sites : List Site) (frames : List Frame) (env : Environment),
      Eval.openScope (Bindings.ofPairs ((f.declaration.parameters.map Token.lexeme).zip vs))
          f.scope c.state = .ok c.state.scopes.size c₁.state ∧
      Lexical.extendAll (c.memory.environment f').enter
          ((f.declaration.parameters.map Token.lexeme).zip ws) c.memory = .ok env c₁.memory ∧
      c₁.Matched W ∧ c.Grown W none c₁ ∧
      (c₁.moveTo c.state.scopes.size).Stands W sites frames env ∧
      Stmt.KnownAll (c₁.view W) sites frames f.declaration.body := by
  obtain ⟨sites, frames, env, captured, laid, known, -⟩ := same.scope
  obtain ⟨new, named, body⟩ := known.parts
  obtain ⟨c₁, env', state, extended, m₁, grown₁, inner, precise⟩ :=
    m.enterBody laid (W.opens reached (.body ..)) new named values
      (by simpa [Closure.arity] using length)
  refine ⟨c₁, _, _, env', ?_, ?_, m₁, grown₁, ⟨inner, precise⟩, body.mono grown₁.kept⟩
  · rw [state]
    rfl
  · rw [Twin.environment_eq captured]
    exact extended

/-- A block is entered: it has a scope of its own without names. -/
theorem Twin.Stands.entersBlock {sites : List Site} {frames : List Frame} {env : Environment}
    {body : List Stmt} (stands : c.Stands W sites frames env)
    (known : (Stmt.block body).Known (c.view W) sites frames)
    (reached : W.reached ⟨fuel + 1, .execute (.block body), c.state⟩) :
    ((c.enter c.state.current).moveTo c.state.scopes.size).Stands W (.block body :: sites)
        ([] :: frames) env.enter ∧
      Stmt.KnownAll ((c.enter c.state.current).view W) (.block body :: sites) ([] :: frames)
        body :=
  ⟨⟨stands.laid.enterNew (W.opens reached (.block ..)), Exact.enterNew c c.state.current⟩,
    known.block.mono (Twin.kept_enter W c c.state.current)⟩

end Entering

namespace Simulates

variable {W : World} {fuel : Nat} {c : Twin} {sites : List Site} {frames : List Frame}
  {env : Environment}

/-! ## Expressions -/

section Expressions

variable (h : Simulates W fuel) (m : c.Matched W)

include h m

theorem binaryExpr {left right : Expr} {operator : Token}
    (ready : c.Ready W sites frames env (Expr.binary left operator right).references)
    (reached : W.reached ⟨fuel + 1, .evaluate (.binary left operator right), c.state⟩) :
    Follows W none c (SameResult W) (Eval.evaluate (fuel + 1) (.binary left operator right))
      (Lexical.evaluate (fuel + 1) env (.binary left operator right)) := by
  rw [Expr.references_binary] at ready
  apply (h.evaluate m ready.left (W.calls reached (.binaryLeft ..))).bind
  intro a b c₁ first m₁ grown₁ same
  apply (h.evaluate m₁ (ready.right.grown m grown₁) (W.calls reached (.binaryRight first))).bind
  intro a' b' c₂ _ m₂ grown₂ same'
  exact .applyBinary m₂ (same.mono grown₂.kept) same' operator

theorem logicalExpr {left right : Expr} {operator : Token}
    (ready : c.Ready W sites frames env (Expr.logical left operator right).references)
    (reached : W.reached ⟨fuel + 1, .evaluate (.logical left operator right), c.state⟩) :
    Follows W none c (SameResult W) (Eval.evaluate (fuel + 1) (.logical left operator right))
      (Lexical.evaluate (fuel + 1) env (.logical left operator right)) := by
  rw [Expr.references_logical] at ready
  apply (h.evaluate m ready.left (W.calls reached (.logicalLeft ..))).bind
  intro a b c₁ first m₁ grown₁ same
  have decides : Eval.decides operator b = Eval.decides operator a := by
    unfold Eval.decides
    rw [same.isTruthy]
  rw [decides]
  cases decided : Eval.decides operator a with
  | true => exact .pure m₁ same
  | false =>
    exact h.evaluate m₁ (ready.right.grown m grown₁)
      (W.calls reached (.logicalRight first decided))

theorem assignExpr {id : Nat} {target : Token} {value : Expr}
    (ready : c.Ready W sites frames env (Expr.assign id target value).references)
    (reached : W.reached ⟨fuel + 1, .evaluate (.assign id target value), c.state⟩) :
    Follows W none c (SameResult W) (Eval.evaluate (fuel + 1) (.assign id target value))
      (Lexical.evaluate (fuel + 1) env (.assign id target value)) := by
  have inner : c.Ready W sites frames env value.references :=
    ready.subset fun _ hr => List.mem_cons_of_mem _ hr
  apply (h.evaluate m inner (W.calls reached (.assigned ..))).bind
  intro a b c₁ _ m₁ grown₁ same
  have here := (ready.grown m grown₁).refers ⟨.assign, id, target⟩ List.mem_cons_self
  apply (Follows.assign m₁ (ready.laid.grown grown₁) here rfl same).bind
  intro _ _ c₂ _ m₂ grown₂ _
  exact .pure m₂ (same.mono grown₂.kept)

theorem callExpr {callee : Expr} {closing : Token} {arguments : List Expr}
    (ready : c.Ready W sites frames env (Expr.call callee closing arguments).references)
    (reached : W.reached ⟨fuel + 1, .evaluate (.call callee closing arguments), c.state⟩) :
    Follows W none c (SameResult W) (Eval.evaluate (fuel + 1) (.call callee closing arguments))
      (Lexical.evaluate (fuel + 1) env (.call callee closing arguments)) := by
  rw [Expr.references_call] at ready
  apply (h.evaluate m ready.left (W.calls reached (.callee ..))).bind
  intro f f' c₁ first m₁ grown₁ same
  apply (h.evaluateAll m₁ (ready.right.grown m grown₁)
    (W.calls reached (.arguments first))).bind
  intro vs ws c₂ second m₂ grown₂ values
  exact h.call m₂ (same.mono grown₂.kept) values (W.calls reached (.call first second))

theorem getExpr {object : Expr} {name : Token}
    (ready : c.Ready W sites frames env (Expr.get object name).references)
    (reached : W.reached ⟨fuel + 1, .evaluate (.get object name), c.state⟩) :
    Follows W none c (SameResult W) (Eval.evaluate (fuel + 1) (.get object name))
      (Lexical.evaluate (fuel + 1) env (.get object name)) := by
  rw [Expr.references_get] at ready
  apply (h.evaluate m ready (W.calls reached (.readObject ..))).bind
  intro a b c₁ first m₁ _ same
  cases same with
  | object id types =>
    apply Follows.property m₁ id types name
    intro f missing found methods declared
    exact W.opens reached (.receiver (.property first missing found) declared)
  | nil | bool | number | text | native | function | bound | ofClass => exact .fail m₁ _ _

theorem setExpr {object value : Expr} {name : Token}
    (ready : c.Ready W sites frames env (Expr.set object name value).references)
    (reached : W.reached ⟨fuel + 1, .evaluate (.set object name value), c.state⟩) :
    Follows W none c (SameResult W) (Eval.evaluate (fuel + 1) (.set object name value))
      (Lexical.evaluate (fuel + 1) env (.set object name value)) := by
  rw [Expr.references_set] at ready
  apply (h.evaluate m ready.left (W.calls reached (.setObject ..))).bind
  intro a b c₁ first m₁ grown₁ same
  cases same with
  | object id types =>
    apply (h.evaluate m₁ (ready.right.grown m grown₁) (W.calls reached (.setValue first))).bind
    intro v w c₂ _ m₂ _ value
    exact .done v w rfl rfl (m₂.setField id name.lexeme value)
      (Twin.grown_setField W c₂ id name.lexeme v w) value
  | nil | bool | number | text | native | function | bound | ofClass => exact .fail m₁ _ _

theorem evaluate_succ {e : Expr} (ready : c.Ready W sites frames env e.references)
    (reached : W.reached ⟨fuel + 1, .evaluate e, c.state⟩) :
    Follows W none c (SameResult W) (Eval.evaluate (fuel + 1) e)
      (Lexical.evaluate (fuel + 1) env e) := by
  cases e with
  | constant value => exact .pure m (.ofConstant value)
  | grouping inner => exact h.evaluate m ready (W.calls reached (.grouping ..))
  | unary operator operand =>
    rw [Expr.references_unary] at ready
    apply (h.evaluate m ready (W.calls reached (.operand ..))).bind
    intro a b c₁ _ m₁ _ same
    exact .applyUnary m₁ same operator
  | binary left operator right => exact h.binaryExpr m ready reached
  | logical left operator right => exact h.logicalExpr m ready reached
  | name id token =>
    have here := ready.refers ⟨.name, id, token⟩ List.mem_cons_self
    exact .lookUp m ready.laid here nofun
  | assign id target value => exact h.assignExpr m ready reached
  | call callee closing arguments => exact h.callExpr m ready reached
  | get object name => exact h.getExpr m ready reached
  | set object name value => exact h.setExpr m ready reached
  | this id keyword =>
    have here := ready.refers ⟨.this, id, keyword⟩ List.mem_cons_self
    exact .lookUp m ready.laid here nofun
  | super id keyword method =>
    have here := ready.refers ⟨.super, id, keyword⟩ List.mem_cons_self
    apply Follows.superMethod m ready.laid here rfl method
    intro nearer o f s recorded above receiver found methods declared
    exact W.opens reached (.receiver (.superMethod recorded above receiver found) declared)

theorem evaluateAll_succ {es : List Expr}
    (ready : c.Ready W sites frames env (Expr.referencesAll es))
    (reached : W.reached ⟨fuel + 1, .evaluateAll es, c.state⟩) :
    Follows W none c (fun vs ws c' => List.Forall₂ (SameValue (c'.view W)) vs ws)
      (Eval.evaluateAll (fuel + 1) es) (Lexical.evaluateAll (fuel + 1) env es) := by
  cases es with
  | nil => exact .pure m .nil
  | cons e es =>
    rw [Expr.referencesAll_cons] at ready
    apply (h.evaluate m ready.left (W.calls reached (.head ..))).bind
    intro v w c₁ first m₁ grown₁ same
    apply (h.evaluateAll m₁ (ready.right.grown m grown₁) (W.calls reached (.tail first))).bind
    intro vs ws c₂ _ m₂ grown₂ others
    exact .pure m₂ (.cons (same.mono grown₂.kept) others)

end Expressions

/-! ## Calls -/

section Calls

variable (h : Simulates W fuel) (m : c.Matched W)

include h m

/-- A class is called: an instance is made, and the initializer runs if there is one. -/
theorem construct {k k' : Class} {vs ws : List Value} {line : Nat}
    (same : SameClass (c.view W) k k') (values : List.Forall₂ (SameValue (c.view W)) vs ws)
    (reached : W.reached ⟨fuel + 1, .call (.ofClass k) vs line, c.state⟩) :
    Follows W none c (SameResult W) (Eval.call (fuel + 1) (.ofClass k) vs line)
      (Lexical.call (fuel + 1) (.ofClass k') ws line) := by
  have checked := Follows.checkArity m values k.arity line
  unfold Eval.call Lexical.call
  dsimp only
  rw [same.arity]
  apply checked.bind
  rintro _ _ _ - - - ⟨rfl, length⟩
  apply (Follows.allocate m same).bind
  rintro _ _ c₁ made m₁ grown₁ ⟨id, rfl, rfl, classes⟩
  obtain ⟨hf, hf'⟩ | ⟨f, f', hf, hf', method⟩ := (classes.findMethod? initializerName).both
  · rw [hf, hf']
    exact .pure m₁ (.object id classes)
  · rw [hf, hf']
    have received := Follows.receive m₁ method id classes fun methods declared =>
      W.opens reached (.receiver (.initializer length made hf) declared)
    apply received.bind
    intro g g' c₂ bound m₂ grown₂ function
    have values₂ := values.imp fun _ _ h => h.mono (grown₁.trans grown₂).kept
    have arity : vs.length = g.arity := by
      rw [length, Closure.arity, declaration_of_receive bound]
      simp [Class.arity, Closure.arity, hf]
    apply (h.invoke m₂ function values₂ arity
      (W.calls reached (.initializer length made hf bound))).bind
    intro _ _ c₃ _ m₃ grown₃ _
    exact .pure m₃ (.object id (classes.mono (grown₂.trans grown₃).kept))

/-- A function is called: the arguments are counted, and its body runs. -/
theorem applied {f f' : Closure} {vs ws : List Value} (function : SameFunction (c.view W) f f')
    (values : List.Forall₂ (SameValue (c.view W)) vs ws) (line : Nat)
    (reached : vs.length = f.arity → W.reached ⟨fuel, .invoke f vs, c.state⟩) :
    Follows W none c (SameResult W)
      (Eval.checkArity f.arity vs line >>= fun _ => Eval.invoke fuel f vs)
      (Eval.checkArity f'.arity ws line >>= fun _ => Lexical.invoke fuel f' ws) := by
  have arity : f'.arity = f.arity := by simp [Closure.arity, function.declaration]
  rw [arity]
  apply (Follows.checkArity m values f.arity line).bind
  rintro _ _ _ - - - ⟨rfl, length⟩
  exact h.invoke m function values length (reached length)

theorem call_succ {f f' : Value} {vs ws : List Value} {line : Nat}
    (same : SameValue (c.view W) f f') (values : List.Forall₂ (SameValue (c.view W)) vs ws)
    (reached : W.reached ⟨fuel + 1, .call f vs line, c.state⟩) :
    Follows W none c (SameResult W) (Eval.call (fuel + 1) f vs line)
      (Lexical.call (fuel + 1) f' ws line) := by
  cases same with
  | native f =>
    apply (Follows.checkArity m values f.arity line).bind
    rintro _ _ _ - - - ⟨rfl, -⟩
    exact .applyNative m values f line
  | function serial function =>
    exact h.applied m function values line fun arity => W.calls reached (.function arity)
  | bound serial function =>
    exact h.applied m function values line fun arity => W.calls reached (.method arity)
  | ofClass classes => exact h.construct m classes values reached
  | nil | bool | number | text | object => exact .fail m _ _

/-- A body runs in a scope with its parameters. -/
theorem body {f f' : Closure} {vs ws : List Value} (same : SameFunction (c.view W) f f')
    (values : List.Forall₂ (SameValue (c.view W)) vs ws) (length : vs.length = f.arity)
    (reached : W.reached ⟨fuel + 1, .invoke f vs, c.state⟩) :
    Follows W none c (SameFlow W)
      (Eval.openScope (Bindings.ofPairs ((f.declaration.parameters.map Token.lexeme).zip vs))
          f.scope >>= fun scope =>
        Eval.inScope scope (Eval.executeAll fuel f.declaration.body))
      (get >>= fun memory =>
        Lexical.extendAll (memory.environment f').enter
            ((f'.declaration.parameters.map Token.lexeme).zip ws) >>= fun env =>
          Lexical.executeAll fuel env f'.declaration.body) := by
  obtain ⟨c₁, sites, frames, env, entered, extended, m₁, grown₁, stands, known⟩ :=
    m.entersBody same values length reached
  have within := h.executeAll (m₁.moveTo _) stands known (W.calls reached (.body entered))
  refine Follows.inScope (Nat.le_refl _) grown₁ ?_ ?_ within ?_
  · simp [entered]
  · simp [same.declaration, extended]
  · intro flow flow' c' flows
    cases flows with
    | normal => exact .normal _
    | returned value => exact .returned value

theorem invoke_succ {f f' : Closure} {vs ws : List Value} (same : SameFunction (c.view W) f f')
    (values : List.Forall₂ (SameValue (c.view W)) vs ws) (length : vs.length = f.arity)
    (reached : W.reached ⟨fuel + 1, .invoke f vs, c.state⟩) :
    Follows W none c (SameResult W) (Eval.invoke (fuel + 1) f vs)
      (Lexical.invoke (fuel + 1) f' ws) := by
  have ran := (h.body m same values length reached).bind fun flow flow' c' _ m' grown flows =>
    Follows.result m' (same.mono grown.kept) flows
  simp only [bind_assoc] at ran
  exact ran

end Calls

/-! ## Statements -/

section Statements

variable (h : Simulates W fuel) (m : c.Matched W) (stands : c.Stands W sites frames env)

include h m stands

theorem varDecl {name : Token} {e : Option Expr}
    (known : (Stmt.varDecl name e).Known (c.view W) sites frames)
    (reached : W.reached ⟨fuel + 1, .execute (.varDecl name e), c.state⟩) :
    Follows W (some c.state.current) c
      (fun flow p c' => SameFlow W flow p.1 c' ∧
        c'.Stands W sites (bindName name.lexeme frames) p.2)
      (Eval.execute (fuel + 1) (.varDecl name e))
      (Lexical.execute (fuel + 1) env (.varDecl name e)) := by
  cases e with
  | none =>
    have declared := Follows.declare m stands known.formed known.new .nil
    have whole : Follows W (some c.state.current) c
        (fun flow p c' => SameFlow W flow p.1 c' ∧
          c'.Stands W sites (bindName name.lexeme frames) p.2)
        (Eval.define name.lexeme .nil >>= fun _ => pure .normal)
        (Lexical.declare env name.lexeme .nil >>= fun env' => pure (.normal, env')) := by
      apply declared.bind
      rintro _ env' c' - m' - ⟨stands', -⟩
      exact .pure m' ⟨.normal c', stands'⟩
    exact whole.congr rfl rfl
  | some e =>
    have ready := stands.initializer known.formed known.new known.visits
    apply (h.evaluate m ready (W.calls reached (.varDecl ..))).first
    intro v w c₁ _ m₁ grown₁ same
    rw [← grown₁.current]
    apply (Follows.declare m₁ (stands.grown m grown₁) known.formed known.new same).bind
    rintro _ env' c' - m' - ⟨stands', -⟩
    exact .pure m' ⟨.normal c', stands'⟩

theorem block {body : List Stmt} (known : (Stmt.block body).Known (c.view W) sites frames)
    (reached : W.reached ⟨fuel + 1, .execute (.block body), c.state⟩) :
    Follows W none c
      (fun flow p c' => SameFlow W flow p.1 c' ∧ c'.Stands W sites frames p.2)
      (Eval.execute (fuel + 1) (.block body))
      (Lexical.execute (fuel + 1) env (.block body)) := by
  have grown₁ := Twin.grown_enter W c c.state.current
  obtain ⟨inner, knownAll⟩ := stands.entersBlock known reached
  have within := h.executeAll ((m.enter c.state.current).moveTo _) inner knownAll
    (W.calls reached (.block rfl))
  have whole : Follows W none c (SameFlow W) (Eval.execute (fuel + 1) (.block body))
      (Lexical.executeAll fuel env.enter body) := by
    refine Follows.inScope (Nat.le_refl _) grown₁ rfl rfl within ?_
    intro flow flow' c' flows
    cases flows with
    | normal => exact .normal _
    | returned value => exact .returned value
  refine (whole.map_right (g := fun flow => (flow, env))).imp ?_
  rintro flow _ c' - grown ⟨flow', rfl, flows⟩
  exact ⟨flows, stands.grown m grown⟩

/-- A branch, or the body of a loop, leaves the place as it is. -/
theorem branch {s : Stmt} (known : s.Known (c.view W) sites frames)
    (plain : s.after frames = frames) (reached : W.reached ⟨fuel, .execute s, c.state⟩) :
    Follows W (some c.state.current) c
      (fun flow p c' => SameFlow W flow p.1 c' ∧ c'.Stands W sites frames env)
      (Eval.execute fuel s) (Lexical.execute fuel env s) := by
  refine (h.execute m stands known reached).imp ?_
  rintro flow p c' - grown ⟨flows, stands'⟩
  rw [plain] at stands'
  exact ⟨flows, stands.laid.grown grown, stands'.names⟩

/-- After a branch, its statement goes on with the environment from before. -/
theorem taken {s : Stmt} (known : s.Known (c.view W) sites frames)
    (plain : s.after frames = frames) (reached : W.reached ⟨fuel, .execute s, c.state⟩) :
    Follows W (some c.state.current) c
      (fun flow p c' => SameFlow W flow p.1 c' ∧ c'.Stands W sites frames p.2)
      (Eval.execute fuel s) (Lexical.execute fuel env s >>= fun p => pure (p.1, env)) := by
  refine ((h.branch m stands known plain reached).map_right (g := fun p => (p.1, env))).imp ?_
  rintro flow _ c' - - ⟨p, rfl, flows, stands'⟩
  exact ⟨flows, stands'⟩

theorem ifThen {condition : Expr} {thenBranch : Stmt}
    (known : (Stmt.ifThen condition thenBranch).Known (c.view W) sites frames)
    (reached : W.reached ⟨fuel + 1, .execute (.ifThen condition thenBranch), c.state⟩) :
    Follows W (some c.state.current) c
      (fun flow p c' => SameFlow W flow p.1 c' ∧ c'.Stands W sites frames p.2)
      (Eval.execute (fuel + 1) (.ifThen condition thenBranch))
      (Lexical.execute (fuel + 1) env (.ifThen condition thenBranch)) := by
  obtain ⟨visits, first, plain⟩ := known.thenOnly
  apply (h.evaluate m (stands.laid.ready visits) (W.calls reached (.ifThenCondition ..))).first
  intro a b c₁ ran m₁ grown₁ same
  have stands₁ := stands.grown m grown₁
  rw [same.isTruthy, ← grown₁.current]
  cases truth : a.isTruthy with
  | true =>
    exact h.taken m₁ stands₁ (first.mono grown₁.kept) plain (W.calls reached (.ifThen ran truth))
  | false => exact .pure m₁ ⟨.normal c₁, stands₁⟩

theorem ifElse {condition : Expr} {thenBranch elseBranch : Stmt}
    (known : (Stmt.ifElse condition thenBranch elseBranch).Known (c.view W) sites frames)
    (reached : W.reached ⟨fuel + 1, .execute (.ifElse condition thenBranch elseBranch), c.state⟩) :
    Follows W (some c.state.current) c
      (fun flow p c' => SameFlow W flow p.1 c' ∧ c'.Stands W sites frames p.2)
      (Eval.execute (fuel + 1) (.ifElse condition thenBranch elseBranch))
      (Lexical.execute (fuel + 1) env (.ifElse condition thenBranch elseBranch)) := by
  obtain ⟨visits, ⟨first, plain⟩, second, plain'⟩ := known.branches
  apply (h.evaluate m (stands.laid.ready visits) (W.calls reached (.ifElseCondition ..))).first
  intro a b c₁ ran m₁ grown₁ same
  have stands₁ := stands.grown m grown₁
  rw [same.isTruthy, ← grown₁.current]
  cases truth : a.isTruthy with
  | true =>
    exact h.taken m₁ stands₁ (first.mono grown₁.kept) plain (W.calls reached (.thenBranch ran truth))
  | false =>
    exact h.taken m₁ stands₁ (second.mono grown₁.kept) plain' (W.calls reached (.elseBranch ran truth))

omit h in
theorem funDecl {f : FunctionDecl} (known : (Stmt.funDecl f).Known (c.view W) sites frames) :
    Follows W (some c.state.current) c
      (fun flow p c' => SameFlow W flow p.1 c' ∧
        c'.Stands W sites (bindName f.name.lexeme frames) p.2)
      (Eval.execute (fuel + 1) (.funDecl f)) (Lexical.execute (fuel + 1) env (.funDecl f)) := by
  obtain ⟨new, function⟩ := known.function
  have declared := Follows.declareFunction m stands new function
  have whole : Follows W (some c.state.current) c
      (fun flow p c' => SameFlow W flow p.1 c' ∧
        c'.Stands W sites (bindName f.name.lexeme frames) p.2)
      ((do
        Eval.define f.name.lexeme .nil
        let serial ← Eval.freshSerial
        Eval.define f.name.lexeme (.function serial
          { declaration := f, scope := c.state.current, isInitializer := false })) >>= fun _ =>
        pure .normal)
      (Lexical.declareFunction env f >>= fun env' => pure (.normal, env')) := by
    apply declared.bind
    intro _ env' c' _ m' _ stands'
    exact .pure m' ⟨.normal c', stands'⟩
  refine whole.congr ?_ rfl
  simp [Eval.execute, Eval.define, Eval.freshSerial, Twin.define_define]

theorem classDecl {name : Token} {e : Option Expr} {methods : List FunctionDecl}
    (known : (Stmt.classDecl name e methods).Known (c.view W) sites frames)
    (reached : W.reached ⟨fuel + 1, .execute (.classDecl name e methods), c.state⟩) :
    Follows W (some c.state.current) c
      (fun flow p c' => SameFlow W flow p.1 c' ∧
        c'.Stands W sites (bindName name.lexeme frames) p.2)
      (Eval.execute (fuel + 1) (.classDecl name e methods))
      (Lexical.execute (fuel + 1) env (.classDecl name e methods)) := by
  cases e with
  | none =>
    obtain ⟨named, new, members⟩ := known.rootClass
    have declared := Follows.declareClass m stands named new .none members nofun
    apply declared.bind
    intro _ env' c' _ m' _ stands'
    exact .pure m' ⟨.normal c', stands'⟩
  | some e =>
    obtain ⟨named, new, ⟨id, token, rfl, other⟩, visits, members⟩ := known.subclass
    have ready := stands.superclass named other visits
    apply (h.evaluate m ready (W.calls reached (.superclass ..))).first
    intro v w c₁ ran m₁ grown₁ same
    rw [← grown₁.current]
    cases same with
    | ofClass classes =>
      have declared := Follows.declareClass m₁ (stands.grown m grown₁) named new (.some classes)
        (fun d hd => (members d hd).mono grown₁.kept)
        fun _ => W.opens reached (.superclass ran)
      apply declared.bind
      intro _ env' c' _ m' _ stands'
      exact .pure m' ⟨.normal c', stands'⟩
    | nil | bool | number | text | native | function | bound | object =>
      exact .stopped _ rfl rfl m₁

theorem execute_succ {s : Stmt} (known : s.Known (c.view W) sites frames)
    (reached : W.reached ⟨fuel + 1, .execute s, c.state⟩) :
    Follows W (some c.state.current) c
      (fun flow p c' => SameFlow W flow p.1 c' ∧ c'.Stands W sites (s.after frames) p.2)
      (Eval.execute (fuel + 1) s) (Lexical.execute (fuel + 1) env s) := by
  cases s with
  | expression value =>
    have ready : c.Ready W sites frames env value.references := stands.ready known rfl
    apply (h.evaluate m ready (W.calls reached (.expression ..))).first
    intro _ _ c₁ _ m₁ grown₁ _
    exact .pure m₁ ⟨.normal c₁, stands.grown m grown₁⟩
  | print value =>
    have ready : c.Ready W sites frames env value.references := stands.ready known rfl
    apply (h.evaluate m ready (W.calls reached (.print ..))).first
    intro v w c₁ _ m₁ grown₁ same
    rw [same.toText]
    apply (Follows.print m₁ v.toText (value.line?.getD 0)).first
    intro _ _ c₂ _ m₂ grown₂ _
    exact .pure m₂ ⟨.normal c₂, stands.grown m (grown₁.trans grown₂)⟩
  | varDecl name e => exact h.varDecl m stands known reached
  | block body => exact (h.block m stands known reached).widen
  | ifThen condition thenBranch =>
    rw [Stmt.after_eq known.formed rfl frames]
    exact h.ifThen m stands known reached
  | ifElse condition thenBranch elseBranch =>
    rw [Stmt.after_eq known.formed rfl frames]
    exact h.ifElse m stands known reached
  | whileLoop condition body =>
    rw [Stmt.after_eq known.formed rfl frames]
    have repeated := h.repeatWhile m stands known (W.calls reached (.whileLoop ..))
    refine (repeated.map_right (g := fun flow => (flow, env))).imp ?_
    rintro flow _ c' - - ⟨flow', rfl, flows, stands'⟩
    exact ⟨flows, stands'⟩
  | funDecl f => exact funDecl m stands known
  | returnStmt keyword e =>
    cases e with
    | none => exact .pure m ⟨.returned .nil, stands⟩
    | some e =>
      have ready : c.Ready W sites frames env e.references := stands.ready known rfl
      apply (h.evaluate m ready (W.calls reached (.returned ..))).first
      intro _ _ c₁ _ m₁ grown₁ same
      exact .pure m₁ ⟨.returned same, stands.grown m grown₁⟩
  | classDecl name e methods => exact h.classDecl m stands known reached

theorem executeAll_succ {ss : List Stmt} (known : Stmt.KnownAll (c.view W) sites frames ss)
    (reached : W.reached ⟨fuel + 1, .executeAll ss, c.state⟩) :
    Follows W (some c.state.current) c (SameFlow W) (Eval.executeAll (fuel + 1) ss)
      (Lexical.executeAll (fuel + 1) env ss) := by
  cases ss with
  | nil => exact .pure m (.normal c)
  | cons s ss =>
    apply (h.execute m stands known.head (W.calls reached (.first ..))).bind
    rintro flow ⟨flow', env'⟩ c₁ ran m₁ grown₁ ⟨flows, stands₁⟩
    rw [← grown₁.current]
    cases flows with
    | normal =>
      exact h.executeAll m₁ stands₁ (known.tail.mono grown₁.kept) (W.calls reached (.rest ran))
    | returned same => exact .pure m₁ (.returned same)

theorem repeatWhile_succ {condition : Expr} {body : Stmt}
    (known : (Stmt.whileLoop condition body).Known (c.view W) sites frames)
    (reached : W.reached ⟨fuel + 1, .repeatWhile condition body, c.state⟩) :
    Follows W (some c.state.current) c
      (fun flow flow' c' => SameFlow W flow flow' c' ∧ c'.Stands W sites frames env)
      (Eval.repeatWhile (fuel + 1) condition body)
      (Lexical.repeatWhile (fuel + 1) env condition body) := by
  obtain ⟨visits, inner, plain⟩ := known.loop
  apply (h.evaluate m (stands.laid.ready visits) (W.calls reached (.condition ..))).first
  intro a b c₁ ran m₁ grown₁ same
  have stands₁ := stands.grown m grown₁
  rw [same.isTruthy, ← grown₁.current]
  cases truth : a.isTruthy with
  | true =>
    apply (h.branch m₁ stands₁ (inner.mono grown₁.kept) plain
      (W.calls reached (.round ran truth))).bind
    rintro flow ⟨flow', env'⟩ c₂ ran' m₂ grown₂ ⟨flows, stands₂⟩
    rw [← grown₂.current]
    cases flows with
    | normal =>
      exact h.repeatWhile m₂ stands₂ ((known.mono grown₁.kept).mono grown₂.kept)
        (W.calls reached (.again ran truth ran'))
    | returned same => exact .pure m₂ ⟨.returned same, stands₂⟩
  | false => exact .pure m₁ ⟨.normal c₁, stands₁⟩

end Statements

/-! ## All fuels -/

/-- Without fuel, both stop at once. -/
theorem zero (W : World) : Simulates W 0 where
  evaluate m _ _ := .spent m
  evaluateAll m _ _ := .spent m
  call m _ _ _ := .spent m
  invoke m _ _ _ _ := .spent m
  execute m _ _ _ := .spent m
  executeAll m _ _ _ := .spent m
  repeatWhile m _ _ _ := .spent m

theorem succ (h : Simulates W fuel) : Simulates W (fuel + 1) where
  evaluate m ready reached := h.evaluate_succ m ready reached
  evaluateAll m ready reached := h.evaluateAll_succ m ready reached
  call m same values reached := h.call_succ m same values reached
  invoke m same values length reached := h.invoke_succ m same values length reached
  execute m stands known reached := h.execute_succ m stands known reached
  executeAll m stands known reached := h.executeAll_succ m stands known reached
  repeatWhile m stands known reached := h.repeatWhile_succ m stands known reached

end Simulates

/-- Whatever the running program does is followed. -/
theorem simulates (W : World) (fuel : Nat) : Simulates W fuel := by
  induction fuel with
  | zero => exact .zero W
  | succ fuel ih => exact ih.succ

end ClassScript
