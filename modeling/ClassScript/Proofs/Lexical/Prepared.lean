import ClassScript.Proofs.Lexical.Simulation

set_option autoImplicit false

/-!
# Every point is prepared

At every point of an execution there is a matching memory, and what the point is about to do has what
it needs: expressions are evaluated and statements are executed where the scopes are laid out as the
binding walk found them.  A point hands this on to every point that it calls.
-/

namespace ClassScript

/-- There is a twin with the state of the point, and all that the simulation asks of the task. -/
def Point.Prepared (W : World) (p : Point) : Prop :=
  ∃ c : Twin, c.state = p.state ∧ c.Matched W ∧
    match p.task with
    | .evaluate e => ∃ sites frames env, c.Ready W sites frames env e.references
    | .evaluateAll es => ∃ sites frames env, c.Ready W sites frames env (Expr.referencesAll es)
    | .call f values _ => ∃ f' values', SameValue (c.view W) f f' ∧
        List.Forall₂ (SameValue (c.view W)) values values'
    | .invoke f values => ∃ f' values', SameFunction (c.view W) f f' ∧
        List.Forall₂ (SameValue (c.view W)) values values' ∧ values.length = f.arity
    | .execute s => ∃ sites frames env, c.Stands W sites frames env ∧
        s.Known (c.view W) sites frames
    | .executeAll ss => ∃ sites frames env, c.Stands W sites frames env ∧
        Stmt.KnownAll (c.view W) sites frames ss
    | .repeatWhile condition body => ∃ sites frames env, c.Stands W sites frames env ∧
        (Stmt.whileLoop condition body).Known (c.view W) sites frames

namespace Point.Prepared

variable {W : World} {fuel : Nat} {σ : State} {q : Point}

/-- What an expression calls is prepared. -/
theorem of_evaluate {e : Expr} (h : Prepared W ⟨fuel + 1, .evaluate e, σ⟩)
    (reached : W.reached ⟨fuel + 1, .evaluate e, σ⟩) (calls : Calls ⟨fuel + 1, .evaluate e, σ⟩ q) :
    Prepared W q := by
  have h_fuel := simulates W fuel
  obtain ⟨c, rfl, m, sites, frames, env, ready⟩ := h
  cases calls with
  | grouping _ inner => exact ⟨c, rfl, m, sites, frames, env, ready⟩
  | operand _ operator operand => exact ⟨c, rfl, m, sites, frames, env, ready⟩
  | binaryLeft _ left operator right =>
    rw [Expr.references_binary] at ready
    exact ⟨c, rfl, m, sites, frames, env, ready.left⟩
  | binaryRight first =>
    rw [Expr.references_binary] at ready
    obtain ⟨c₁, b, rfl, m₁, grown, -⟩ :=
      (h_fuel.evaluate m ready.left (W.calls reached (.binaryLeft ..))).reaches first
    exact ⟨c₁, rfl, m₁, sites, frames, env, ready.right.grown m grown⟩
  | logicalLeft _ left operator right =>
    rw [Expr.references_logical] at ready
    exact ⟨c, rfl, m, sites, frames, env, ready.left⟩
  | logicalRight first _ =>
    rw [Expr.references_logical] at ready
    obtain ⟨c₁, b, rfl, m₁, grown, -⟩ :=
      (h_fuel.evaluate m ready.left (W.calls reached (.logicalLeft ..))).reaches first
    exact ⟨c₁, rfl, m₁, sites, frames, env, ready.right.grown m grown⟩
  | assigned _ id target value =>
    exact ⟨c, rfl, m, sites, frames, env, ready.subset fun _ hr => List.mem_cons_of_mem _ hr⟩
  | callee _ callee closing arguments =>
    rw [Expr.references_call] at ready
    exact ⟨c, rfl, m, sites, frames, env, ready.left⟩
  | arguments first =>
    rw [Expr.references_call] at ready
    obtain ⟨c₁, b, rfl, m₁, grown, -⟩ :=
      (h_fuel.evaluate m ready.left (W.calls reached (.callee ..))).reaches first
    exact ⟨c₁, rfl, m₁, sites, frames, env, ready.right.grown m grown⟩
  | call first second =>
    rw [Expr.references_call] at ready
    obtain ⟨c₁, f', rfl, m₁, grown₁, same⟩ :=
      (h_fuel.evaluate m ready.left (W.calls reached (.callee ..))).reaches first
    obtain ⟨c₂, values', rfl, m₂, grown₂, values⟩ :=
      (h_fuel.evaluateAll m₁ (ready.right.grown m grown₁)
        (W.calls reached (.arguments first))).reaches second
    exact ⟨c₂, rfl, m₂, f', values', same.mono grown₂.kept, values⟩
  | readObject _ object name => exact ⟨c, rfl, m, sites, frames, env, ready⟩
  | setObject _ object name value =>
    rw [Expr.references_set] at ready
    exact ⟨c, rfl, m, sites, frames, env, ready.left⟩
  | setValue first =>
    rw [Expr.references_set] at ready
    obtain ⟨c₁, b, rfl, m₁, grown, -⟩ :=
      (h_fuel.evaluate m ready.left (W.calls reached (.setObject ..))).reaches first
    exact ⟨c₁, rfl, m₁, sites, frames, env, ready.right.grown m grown⟩

theorem of_evaluateAll {es : List Expr} (h : Prepared W ⟨fuel + 1, .evaluateAll es, σ⟩)
    (reached : W.reached ⟨fuel + 1, .evaluateAll es, σ⟩)
    (calls : Calls ⟨fuel + 1, .evaluateAll es, σ⟩ q) : Prepared W q := by
  have h_fuel := simulates W fuel
  obtain ⟨c, rfl, m, sites, frames, env, ready⟩ := h
  cases calls with
  | head _ e es =>
    rw [Expr.referencesAll_cons] at ready
    exact ⟨c, rfl, m, sites, frames, env, ready.left⟩
  | tail first =>
    rw [Expr.referencesAll_cons] at ready
    obtain ⟨c₁, b, rfl, m₁, grown, -⟩ :=
      (h_fuel.evaluate m ready.left (W.calls reached (.head ..))).reaches first
    exact ⟨c₁, rfl, m₁, sites, frames, env, ready.right.grown m grown⟩

/-- What a call calls is prepared. -/
theorem of_call {f : Value} {values : List Value} {line : Nat}
    (h : Prepared W ⟨fuel + 1, .call f values line, σ⟩)
    (reached : W.reached ⟨fuel + 1, .call f values line, σ⟩)
    (calls : Calls ⟨fuel + 1, .call f values line, σ⟩ q) : Prepared W q := by
  obtain ⟨c, rfl, m, f', values', same, values⟩ := h
  cases calls with
  | function arity =>
    cases same with
    | function _ function => exact ⟨c, rfl, m, _, values', function, values, arity⟩
  | method arity =>
    cases same with
    | bound _ function => exact ⟨c, rfl, m, _, values', function, values, arity⟩
  | initializer arity made found received =>
    cases same with
    | ofClass classes =>
      obtain ⟨c₁, o, rfl, m₁, grown₁, id, rfl, rfl, classes₁⟩ :=
        (Follows.allocate m classes).reaches made
      obtain ⟨hf, -⟩ | ⟨g, g', hg, -, alike⟩ := (classes₁.findMethod? initializerName).both
      · rw [found] at hf
        cases hf
      · obtain rfl := Option.some.inj (hg.symm.trans found)
        have opened : ∀ methods, g.declaration ∈ methods →
            W.opened c₁.state.scopes.size (.this methods) := fun methods declared =>
          W.opens reached (.receiver (.initializer arity made found) declared)
        obtain ⟨c₂, f', rfl, m₂, grown₂, function⟩ :=
          (Follows.receive m₁ alike id classes₁ opened).reaches received
        have values₂ := values.imp fun _ _ h => h.mono (grown₁.trans grown₂).kept
        refine ⟨c₂, rfl, m₂, f', values', function, values₂, ?_⟩
        rw [arity, Closure.arity, declaration_of_receive received]
        simp [Class.arity, Closure.arity, found]

theorem of_invoke {f : Closure} {values : List Value}
    (h : Prepared W ⟨fuel + 1, .invoke f values, σ⟩)
    (reached : W.reached ⟨fuel + 1, .invoke f values, σ⟩)
    (calls : Calls ⟨fuel + 1, .invoke f values, σ⟩ q) : Prepared W q := by
  obtain ⟨c, rfl, m, f', values', same, values, arity⟩ := h
  cases calls with
  | body entered =>
    obtain ⟨c₁, sites, frames, env, entered', -, m₁, -, stands, known⟩ :=
      m.entersBody same values arity reached
    rw [entered'] at entered
    cases entered
    exact ⟨c₁.moveTo c.state.scopes.size, rfl, m₁.moveTo _, sites, frames, env, stands, known⟩

/-- What a statement calls is prepared. -/
theorem of_execute {s : Stmt} (h : Prepared W ⟨fuel + 1, .execute s, σ⟩)
    (reached : W.reached ⟨fuel + 1, .execute s, σ⟩) (calls : Calls ⟨fuel + 1, .execute s, σ⟩ q) :
    Prepared W q := by
  have h_fuel := simulates W fuel
  obtain ⟨c, rfl, m, sites, frames, env, stands, known⟩ := h
  cases calls with
  | expression _ value =>
    exact ⟨c, rfl, m, sites, frames, env, stands.ready known rfl⟩
  | print _ value =>
    exact ⟨c, rfl, m, sites, frames, env, stands.ready known rfl⟩
  | varDecl _ name e =>
    exact ⟨c, rfl, m, sites, frames, env,
      stands.initializer known.formed known.new known.visits⟩
  | block entered =>
    obtain ⟨inner, knownAll⟩ := stands.entersBlock known reached
    cases entered
    exact ⟨(c.enter c.state.current).moveTo c.state.scopes.size, rfl, (m.enter _).moveTo _, _, _, _,
      inner, knownAll⟩
  | ifThenCondition _ condition thenBranch =>
    obtain ⟨visits, -⟩ := known.thenOnly
    exact ⟨c, rfl, m, sites, frames, env, stands.laid.ready visits⟩
  | ifThen first holds =>
    obtain ⟨visits, branch, -⟩ := known.thenOnly
    obtain ⟨c₁, b, rfl, m₁, grown, -⟩ := (h_fuel.evaluate m (stands.laid.ready visits)
      (W.calls reached (.ifThenCondition ..))).reaches first
    exact ⟨c₁, rfl, m₁, sites, frames, env, stands.grown m grown, branch.mono grown.kept⟩
  | ifElseCondition _ condition thenBranch elseBranch =>
    obtain ⟨visits, -⟩ := known.branches
    exact ⟨c, rfl, m, sites, frames, env, stands.laid.ready visits⟩
  | thenBranch first holds =>
    obtain ⟨visits, ⟨branch, -⟩, -⟩ := known.branches
    obtain ⟨c₁, b, rfl, m₁, grown, -⟩ := (h_fuel.evaluate m (stands.laid.ready visits)
      (W.calls reached (.ifElseCondition ..))).reaches first
    exact ⟨c₁, rfl, m₁, sites, frames, env, stands.grown m grown, branch.mono grown.kept⟩
  | elseBranch first fails =>
    obtain ⟨visits, -, branch, -⟩ := known.branches
    obtain ⟨c₁, b, rfl, m₁, grown, -⟩ := (h_fuel.evaluate m (stands.laid.ready visits)
      (W.calls reached (.ifElseCondition ..))).reaches first
    exact ⟨c₁, rfl, m₁, sites, frames, env, stands.grown m grown, branch.mono grown.kept⟩
  | whileLoop _ condition body => exact ⟨c, rfl, m, sites, frames, env, stands, known⟩
  | returned _ keyword e =>
    exact ⟨c, rfl, m, sites, frames, env, stands.ready known rfl⟩
  | superclass _ name e methods =>
    obtain ⟨named, -, ⟨id, token, rfl, other⟩, visits, -⟩ := known.subclass
    exact ⟨c, rfl, m, sites, frames, env, stands.superclass named other visits⟩

theorem of_executeAll {ss : List Stmt} (h : Prepared W ⟨fuel + 1, .executeAll ss, σ⟩)
    (reached : W.reached ⟨fuel + 1, .executeAll ss, σ⟩)
    (calls : Calls ⟨fuel + 1, .executeAll ss, σ⟩ q) : Prepared W q := by
  obtain ⟨c, rfl, m, sites, frames, env, stands, known⟩ := h
  cases calls with
  | first _ s ss => exact ⟨c, rfl, m, sites, frames, env, stands, known.head⟩
  | rest first =>
    obtain ⟨c₁, p, rfl, m₁, grown, -, stands₁⟩ := ((simulates W fuel).execute m stands known.head
      (W.calls reached (.first ..))).reaches first
    exact ⟨c₁, rfl, m₁, sites, _, p.2, stands₁, known.tail.mono grown.kept⟩

theorem of_repeatWhile {condition : Expr} {body : Stmt}
    (h : Prepared W ⟨fuel + 1, .repeatWhile condition body, σ⟩)
    (reached : W.reached ⟨fuel + 1, .repeatWhile condition body, σ⟩)
    (calls : Calls ⟨fuel + 1, .repeatWhile condition body, σ⟩ q) : Prepared W q := by
  have h_fuel := simulates W fuel
  obtain ⟨c, rfl, m, sites, frames, env, stands, known⟩ := h
  obtain ⟨visits, inner, plain⟩ := known.loop
  have conditioned := h_fuel.evaluate m (stands.laid.ready visits)
    (W.calls reached (.condition ..))
  cases calls with
  | condition => exact ⟨c, rfl, m, sites, frames, env, stands.laid.ready visits⟩
  | round first holds =>
    obtain ⟨c₁, b, rfl, m₁, grown, -⟩ := conditioned.reaches first
    exact ⟨c₁, rfl, m₁, sites, frames, env, stands.grown m grown, inner.mono grown.kept⟩
  | again first holds second =>
    obtain ⟨c₁, b, rfl, m₁, grown₁, -⟩ := conditioned.reaches first
    obtain ⟨c₂, p, rfl, m₂, grown₂, -, stands₂⟩ :=
      (h_fuel.branch m₁ (stands.grown m grown₁) (inner.mono grown₁.kept) plain
        (W.calls reached (.round first holds))).reaches second
    exact ⟨c₂, rfl, m₂, sites, frames, env, stands₂, (known.mono grown₁.kept).mono grown₂.kept⟩

/-- What a prepared point calls is prepared. -/
theorem calls {p : Point} (h : p.Prepared W) (reached : W.reached p) (calls : Calls p q) :
    q.Prepared W := by
  obtain ⟨_ | fuel, task, σ⟩ := p
  · cases calls
  · cases task with
    | evaluate e => exact h.of_evaluate reached calls
    | evaluateAll es => exact h.of_evaluateAll reached calls
    | call f values line => exact h.of_call reached calls
    | invoke f values => exact h.of_invoke reached calls
    | execute s => exact h.of_execute reached calls
    | executeAll ss => exact h.of_executeAll reached calls
    | repeatWhile condition body => exact h.of_repeatWhile reached calls

end Point.Prepared

end ClassScript
