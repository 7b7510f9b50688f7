import ClassScript.Proofs.Lexical.Naming

set_option autoImplicit false

/-!
# Functions, methods and classes that follow each other

Where the running program opens a scope, for the receiver, the superclass or parameters, the lexical
interpreter extends a map; where the one remembers the present scope, the other keeps its map.
-/

namespace ClassScript

open Lexical (Environment Memory Run)

variable {W : World} {c : Twin} {sites : List Site} {frames : List Frame} {env : Environment}
  {v w : Value} {name : String}

/-! ## Opening scopes -/

/-- A new scope is laid out inside the one around it. -/
theorem Laid.enterNew {f : Nat} {site : Site} (laid : Laid (c.view W) sites frames f env)
    (opened : W.opened c.state.scopes.size site) :
    Laid ((c.enter f).view W) (site :: sites) ([] :: frames) c.state.scopes.size env.enter := by
  apply (laid.mono (Twin.kept_enter W c f)).enter opened
  change (c.state.scopes.push [] (some f)).enclosing? c.state.scopes.size = some f
  rw [Scopes.enclosing?_push, if_pos rfl]

/-- A new scope has no names. -/
theorem local?_enter_size (c : Twin) (f : Nat) (name : String) :
    (c.enter f).state.scopes.local? c.state.scopes.size name = none := by
  rw [Twin.local?_enter, if_pos rfl]

theorem Exact.enterNew (c : Twin) (f : Nat) :
    Exact (c.enter f).state.scopes ([] :: frames) c.state.scopes.size :=
  fun _ name _ => local?_enter_size c f name

/-- The twin with a new scope that holds one name. -/
def Twin.enterWith (c : Twin) (outside : Nat) (name : String) (v w : Value) : Twin :=
  (c.enter outside).declare c.state.scopes.size name v w

theorem Twin.state_enterWith (c : Twin) (outside : Nat) (name : String) (v w : Value) :
    (c.enterWith outside name v w).state =
      { c.state with scopes := c.state.scopes.push [(name, v)] (some outside) } := by
  have scopes := Twin.push_define c.state.scopes [] (some outside) name v
  exact congrArg (fun s => { c.state with scopes := s }) scopes

/-- Opening a scope with one name, while the map is extended. -/
theorem Twin.Matched.enterWith (m : c.Matched W) {f : Nat} {site : Site}
    (laid : Laid (c.view W) sites frames f env) (opened : W.opened c.state.scopes.size site)
    (fits : v.Fits name) (same : SameValue (c.view W) v w) :
    (c.enterWith f name v w).Matched W ∧ c.Grown W none (c.enterWith f name v w) ∧
      Laid ((c.enterWith f name v w).view W) (site :: sites) ([(name, .defined)] :: frames)
        c.state.scopes.size (env.extend name c.memory.cells.size) := by
  have entered := m.enter f
  have inner := laid.enterNew opened
  have absent := local?_enter_size c f name
  obtain ⟨inside, size⟩ := entered.inner inner
  have lookup : ∀ other, ([(name, Stage.defined)] : Frame).lookup other =
      if other = name then some Stage.defined else ([] : Frame).lookup other := by
    intro other
    rw [List.lookup_cons]
    by_cases h : other = name
    · simp [h]
    · simp [h, beq_eq_false_iff_ne.2 h]
  refine ⟨entered.declare inside size absent fits (same.mono (Twin.kept_enter W c f)), ?_, ?_⟩
  · have grown := (Twin.grown_enter W c f).widen.trans
      (Twin.grown_declare (v := v) (w := w) entered absent fits)
    exact grown.narrow (Nat.le_refl _)
  · exact inner.declare entered absent fits lookup

/-! ## Receivers -/

/-- The map that a closure keeps is the one that is captured under its number. -/
theorem Twin.environment_eq {f : Closure} (captured : c.memory.captured[f.scope]? = some env) :
    c.memory.environment f = env := by
  simp [Memory.environment, Array.getD_eq_getD_getElem?, captured]

/-- A method that gets a receiver is the same method. -/
theorem declaration_of_receive {f g : Closure} {o : Object} {σ σ' : State}
    (h : Eval.receive f o σ = .ok g σ') : g.declaration = f.declaration := by
  simp only [Eval.receive, Eval.openScope, run_bind, run_modifyGet, run_pure] at h
  cases h
  rfl

namespace Follows

/-- A method gets its receiver. -/
theorem receive {f f' : Closure} {o o' : Class} (m : c.Matched W)
    (same : SameMethod (c.view W) f f') (id : Nat) (receiver : SameClass (c.view W) o o')
    (opened : ∀ methods, f.declaration ∈ methods →
      W.opened c.state.scopes.size (.this methods)) :
    Follows W none c (fun g g' c' => SameFunction (c'.view W) g g') (Eval.receive f ⟨id, o⟩)
      (Lexical.receive f' ⟨id, o'⟩) := by
  obtain ⟨methods, sites, frames, env, captured, laid, declared, known⟩ := same.scope
  have fits : (Value.object ⟨id, o⟩).Fits "this" :=
    ⟨fun _ => ⟨_, rfl⟩, fun super => absurd super (by decide)⟩
  obtain ⟨entered, grown, inner⟩ := m.enterWith laid (opened methods declared) fits
    (.object id receiver)
  have whole := grown.trans (Twin.grown_capture W _ (env.extend "this" c.memory.cells.size))
  refine done { f with scope := c.state.scopes.size }
    { f' with scope := c.memory.captured.size } ?_ ?_
    (entered.capture (env.extend "this" c.memory.cells.size)) whole ?_
  · simp [Eval.receive, Eval.openScope, Twin.capture, Twin.state_enterWith]
  · simp [Lexical.receive, Lexical.extend, Lexical.capture, Twin.capture, Twin.enterWith,
      Twin.declare, Twin.enter, Twin.environment_eq captured]
  · exact ⟨same.declaration, same.isInitializer, same.initializer, .this methods :: sites,
      receiverFrame :: frames, _, Twin.captured_capture .., inner.mono (Twin.kept_capture ..),
      known.mono whole.kept, fun _ => ⟨frames, rfl⟩⟩

theorem bindMethod {f f' : Closure} {o o' : Class} (m : c.Matched W)
    (same : SameMethod (c.view W) f f') (id : Nat) (receiver : SameClass (c.view W) o o')
    (opened : ∀ methods, f.declaration ∈ methods →
      W.opened c.state.scopes.size (.this methods)) :
    Follows W none c (SameResult W) (Eval.bind f ⟨id, o⟩) (Lexical.bind f' ⟨id, o'⟩) := by
  apply (receive m same id receiver opened).bind
  intro g g' c₁ _ m₁ _ ready
  apply (freshSerial m₁).bind
  intro a b c₂ _ m₂ grown serial
  rw [serial]
  exact .pure m₂ (.bound a (ready.mono grown.kept))

/-- A field, or else a method with its receiver. -/
theorem property {o o' : Class} (m : c.Matched W) (id : Nat) (same : SameClass (c.view W) o o')
    (token : Token)
    (opened : ∀ f, c.state.field? ⟨id, o⟩ token.lexeme = none →
      o.findMethod? token.lexeme = some f → ∀ methods, f.declaration ∈ methods →
        W.opened c.state.scopes.size (.this methods)) :
    Follows W none c (SameResult W) (Eval.property ⟨id, o⟩ token)
      (Lexical.property ⟨id, o'⟩ token) := by
  obtain ⟨hv, hw⟩ | ⟨v, w, hv, hw, value⟩ := (m.field? id token.lexeme).both
  · obtain ⟨hf, hf'⟩ | ⟨f, f', hf, hf', method⟩ := (same.findMethod? token.lexeme).both
    · refine stopped (.error ⟨.undefinedProperty token.lexeme, token.line⟩) ?_ ?_ m
      · simp [Eval.property, State.field?, hv, hf]
      · simp [Lexical.property, hw, hf']
    · refine congr ?_ ?_ (bindMethod m method id same (opened f hv hf))
      · simp [Eval.property, State.field?, hv, hf]
      · simp [Lexical.property, hw, hf']
  · refine done v w ?_ ?_ m (.refl ..) value
    · simp [Eval.property, State.field?, hv]
    · simp [Lexical.property, hw]

/-- A method of the superclass, with the receiver at hand. -/
theorem superMethod {r : Reference} (m : c.Matched W)
    (laid : Laid (c.view W) sites frames c.state.current env)
    (h : Refers (c.view W) sites frames c.state.current r) (super : r.kind = .super)
    (method : Token)
    (opened : ∀ nearer o f s, c.state.distances.get? r.id = some (nearer + 1) →
      c.state.scopes.getAt? c.state.current (nearer + 1) r.token.lexeme = some (.ofClass s) →
      c.state.scopes.getAt? c.state.current nearer "this" = some (.object o) →
      s.findMethod? method.lexeme = some f → ∀ methods, f.declaration ∈ methods →
        W.opened c.state.scopes.size (.this methods)) :
    Follows W none c (SameResult W) (Eval.superMethod r.id r.token method)
      (Lexical.superMethod env r.token method) := by
  obtain ⟨d, nearer, above, recorded, word⟩ := m.distance_of_super h super
  obtain ⟨v, w, hv, hw, fits, sameSuper⟩ := m.local_value laid above
  obtain ⟨x, y, hx, hy, fits', sameThis⟩ := m.local_value laid nearer
  obtain ⟨s, rfl⟩ := fits.2 rfl
  obtain ⟨o, rfl⟩ := fits'.1 rfl
  rw [← word] at hv hw
  cases sameSuper with
  | ofClass classes =>
    cases sameThis with
    | object id types =>
      obtain ⟨hf, hf'⟩ | ⟨f, f', hf, hf', same⟩ := (classes.findMethod? method.lexeme).both
      · refine stopped (.error ⟨.undefinedProperty method.lexeme, method.line⟩) ?_ ?_ m
        · simp [Eval.superMethod, recorded, hv, hx, hf]
        · simp [Lexical.superMethod, hw, hy, hf']
      · refine congr ?_ ?_
          (bindMethod m same id types (opened d _ f _ recorded hv hx hf))
        · simp [Eval.superMethod, recorded, hv, hx, hf]
        · simp [Lexical.superMethod, hw, hy, hf']

/-! ## Calls -/

theorem applyNative {values values' : List Value} (m : c.Matched W)
    (same : List.Forall₂ (SameValue (c.view W)) values values') (f : Native) (line : Nat) :
    Follows W none c (SameResult W) (Eval.applyNative Eval.readClock f values line)
      (Eval.applyNative Lexical.readClock f values' line) := by
  have pick : ∀ {vs ws : List Value}, List.Forall₂ (SameValue (c.view W)) vs ws → ∀ i : Nat,
      SameValue (c.view W) (vs.getD i .nil) (ws.getD i .nil) := by
    intro vs ws h
    induction h with
    | nil => exact fun _ => .nil
    | cons first rest ih =>
      intro i
      cases i with
      | zero => exact first
      | succ i => exact ih i
  have first := pick same 0
  have second := pick same 1
  cases f with
  | clock =>
    apply (readClock m).bind
    intro x y c' _ m' _ time
    rw [time]
    exact .pure m' (.number x)
  | typeName =>
    refine .pure m ?_
    rw [first.typeName]
    exact .text _
  | text =>
    refine .pure m ?_
    rw [first.toText]
    exact .text _
  | inspected =>
    refine .pure m ?_
    rw [first.toInspected]
    exact .text _
  | truthy =>
    refine .pure m ?_
    rw [first.isTruthy]
    exact .bool _
  | equal =>
    refine .pure m ?_
    rw [first.equals second]
    exact .bool _
  | fail =>
    change Follows W none c _ (Eval.fail (.native (values.getD 0 .nil).toText) line)
      (Eval.fail (.native (values'.getD 0 .nil).toText) line)
    rw [first.toText]
    exact .fail m _ _

theorem allocate {o o' : Class} (m : c.Matched W) (same : SameClass (c.view W) o o') :
    Follows W none c (fun a b c' => ∃ id, a = ⟨id, o⟩ ∧ b = ⟨id, o'⟩ ∧ SameClass (c'.view W) o o')
      (Eval.allocate o) (Lexical.allocate o') := by
  refine done ⟨c.state.fields.size, o⟩ ⟨c.memory.fields.size, o'⟩ rfl rfl m.allocate
    (Twin.grown_allocate W c) ⟨c.state.fields.size, rfl, ?_, same⟩
  rw [m.size_fields]

end Follows

/-- The statement finished in the same way. -/
inductive SameFlow (W : World) : Flow → Flow → Twin → Prop where
  | normal (c : Twin) : SameFlow W .normal .normal c
  | returned {v w : Value} {c : Twin} (same : SameValue (c.view W) v w) :
      SameFlow W (.returned v) (.returned w) c

namespace Follows

/-- An initializer yields its receiver, any other function what it returned. -/
theorem result {f f' : Closure} {flow flow' : Flow} (m : c.Matched W)
    (same : SameFunction (c.view W) f f') (flows : SameFlow W flow flow' c) :
    Follows W none c (SameResult W) (Eval.result f flow) (Lexical.result f' flow') := by
  obtain ⟨sites, frames, env, captured, laid, -, init⟩ := same.scope
  cases initializer : f.isInitializer with
  | true =>
    have initializer' := same.isInitializer.trans initializer
    obtain ⟨outer, rfl⟩ := init initializer
    have here : distance? "this" (receiverFrame :: outer) = some 0 := rfl
    obtain ⟨v, w, hv, hw, -, value⟩ := m.local_value laid here
    refine done v w ?_ ?_ m (.refl ..) value
    · have here : c.state.scopes.local? f.scope "this" = some v := hv
      simp [Eval.result, initializer, here]
    · simp [Lexical.result, initializer', Twin.environment_eq captured, hw]
  | false =>
    have initializer' := same.isInitializer.trans initializer
    cases flows with
    | normal =>
      refine done .nil .nil ?_ ?_ m (.refl ..) .nil
      · simp [Eval.result, initializer]
      · simp [Lexical.result, initializer']
    | returned value =>
      refine done _ _ ?_ ?_ m (.refl ..) value
      · simp [Eval.result, initializer]
      · simp [Lexical.result, initializer']

end Follows

end ClassScript
