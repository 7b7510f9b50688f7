import ClassScript.Proofs.Likeness.Mirroring

set_option autoImplicit false

/-!
# Methods and classes that mirror each other

A method gets its receiver in a scope of its own, and so do the methods of a subclass their
superclass.  These scopes are never marked: the words for both are no names that could be changed.
-/

namespace ClassScript

/-- The statements finished in the same way. -/
inductive Flow.Alike (K : Guise) : Flow → Flow → Pair → Prop where
  | normal (p : Pair) : Flow.Alike K .normal .normal p
  | returned {v w : Value} {p : Pair} (same : v.Alike K p.chart w) :
      Flow.Alike K (.returned v) (.returned w) p

namespace Mirrors

variable {K : Guise} {p : Pair} {marks : List Bool} {frames : List Frame} {t t' : Token}
  {v w : Value} {f f' : Closure} {c c' : Class}

/-! ## Receivers -/

/-- One name with a value, in a scope that is not marked. -/
theorem same_single (name : String) (same : v.Alike K p.chart w) :
    Bindings.Same (Value.Alike K p.chart)
      (Bindings.rename (K.rename false) [(name, v)]) [(name, w)] :=
  .cons ⟨rfl, same⟩ .nil

/-- A method gets its receiver. -/
theorem receive (m : p.Matched K) (same : f.Alike K p.chart [false] f') (id : Nat)
    (receiver : c.Alike K p.chart c') :
    Mirrors K p (fun g g' p' => g.Alike K p'.chart [] g') (Eval.receive f ⟨id, c⟩)
      (Eval.receive f' ⟨id, c'⟩) := by
  obtain ⟨marks, frames, along, code⟩ := same.code
  have opened := openScope m f.scope false (same_single "this" (.object id receiver))
  unfold Eval.receive
  rw [same.scope]
  apply opened.bind
  rintro _ _ p₁ m₁ grown ⟨rfl, rfl, rfl⟩
  exact .pure m₁ ⟨rfl, same.isInitializer, false :: marks, frames, Pair.along_push _ _ false along, code⟩

theorem bindMethod (m : p.Matched K) (same : f.Alike K p.chart [false] f') (id : Nat)
    (receiver : c.Alike K p.chart c') :
    Mirrors K p (AlikeResult K) (Eval.bind f ⟨id, c⟩) (Eval.bind f' ⟨id, c'⟩) := by
  apply (receive m same id receiver).bind
  intro g g' p₁ m₁ grown ready
  apply (freshSerial m₁).bind
  rintro serial serial' _ m₂ - ⟨same, rfl⟩
  rw [same]
  exact .pure m₂ (.bound serial ready)

/-- A field, or else a method with its receiver. -/
theorem property (m : p.Matched K) (id : Nat) (receiver : c.Alike K p.chart c')
    (token : K.SameToken t t') :
    Mirrors K p (AlikeResult K) (Eval.property ⟨id, c⟩ t) (Eval.property ⟨id, c'⟩ t') := by
  have fields := m.field? id t.lexeme
  have methods := receiver.findMethod? t.lexeme
  have lexeme := token.lexeme
  obtain ⟨hv, hw⟩ | ⟨v, w, hv, hw, value⟩ := fields.both
  · obtain ⟨hf, hf'⟩ | ⟨f, f', hf, hf', method⟩ := methods.both
    · refine congr ?_ ?_ (.fail m (.undefinedProperty t.lexeme) token.line)
      · simp [Eval.property, State.field?, hv, hf]
      · simp [Eval.property, State.field?, lexeme, hw, hf']
    · refine congr ?_ ?_ (bindMethod m method id receiver)
      · simp [Eval.property, State.field?, hv, hf]
      · simp [Eval.property, State.field?, lexeme, hw, hf']
  · refine done v w ?_ ?_ m (.refl p) value
    · simp [Eval.property, State.field?, hv]
    · simp [Eval.property, State.field?, lexeme, hw]

theorem allocate (m : p.Matched K) (same : c.Alike K p.chart c') :
    Mirrors K p (fun a b p' => ∃ id, a = ⟨id, c⟩ ∧ b = ⟨id, c'⟩ ∧ c.Alike K p'.chart c')
      (Eval.allocate c) (Eval.allocate c') := by
  refine done ⟨p.left.fields.size, c⟩ ⟨p.right.fields.size, c'⟩ rfl rfl m.allocate
    (Pair.grown_quiet rfl rfl) ⟨p.left.fields.size, rfl, ?_, same⟩
  rw [m.size_fields]

/-- A method of the superclass, with the receiver at hand. -/
theorem superMethod {id id' : Nat} {method method' : Token} (m : p.Matched K)
    (along : p.chart.Along marks p.left.current)
    (same : K.SameReference marks frames id t id' t') (token : K.SameToken method method') :
    Mirrors K p (AlikeResult K) (Eval.superMethod id t method)
      (Eval.superMethod id' t' method') := by
  obtain ⟨left, right⟩ := m.linked _ _ _ same.linked
  have name := same.name
  unfold Eval.superMethod
  apply (Mirrors.get m).bind
  rintro _ _ p m - ⟨rfl, rfl, rfl⟩
  rw [left, right, m.effects.current, token.lexeme]
  cases far : distance? t.lexeme frames with
  | none => exact .undefinedVariable m name
  | some d =>
    have classes := m.getAt? along d t.lexeme
    rw [← far, ← name.lexeme] at classes
    dsimp only
    generalize p.left.scopes.getAt? p.left.current d t.lexeme = above at classes ⊢
    generalize p.right.scopes.getAt? p.left.current d t'.lexeme = above' at classes ⊢
    cases classes with
    | none => exact .undefinedVariable m name
    | some value =>
      cases value with
      | nil | bool | number | text | native | function | bound | object =>
        exact .undefinedVariable m name
      | ofClass classes =>
        cases d with
        | zero => exact .undefinedVariable m name
        | succ nearer =>
          have receivers := m.getAt? along nearer "this"
          rw [K.rename_this] at receivers
          dsimp only
          generalize p.left.scopes.getAt? p.left.current nearer "this" = this at receivers ⊢
          generalize p.right.scopes.getAt? p.left.current nearer "this" = this' at receivers ⊢
          cases receivers with
          | none => exact .fail m _ name.line
          | some value =>
            cases value with
            | nil | bool | number | text | native | function | bound | ofClass =>
              exact .undefinedVariable m name
            | object number types =>
              have methods := classes.findMethod? method.lexeme
              dsimp only
              obtain ⟨hf, hf'⟩ | ⟨f, f', hf, hf', same⟩ := methods.both
              · rw [hf, hf']
                exact .fail m _ token.line
              · rw [hf, hf']
                exact bindMethod m same number types

/-! ## Functions -/

/-- An initializer yields its receiver, any other function what it returned. -/
theorem result {flow flow' : Flow} (m : p.Matched K) (same : f.Alike K p.chart [] f')
    (flows : flow.Alike K flow' p) :
    Mirrors K p (AlikeResult K) (Eval.result f flow) (Eval.result f' flow') := by
  unfold Eval.result
  rw [same.isInitializer, same.scope]
  split
  · apply (Mirrors.get m).bind
    rintro _ _ p m - ⟨rfl, rfl, rfl⟩
    have receiver := m.local? f.scope "this"
    rw [K.rename_this] at receiver
    obtain ⟨hv, hw⟩ | ⟨v, w, hv, hw, value⟩ := receiver.both
    · rw [hv, hw]
      exact .pure m .nil
    · rw [hv, hw]
      exact .pure m value
  · cases flows with
    | normal => exact .pure m .nil
    | returned value => exact .pure m value

/-! ## Classes -/

/-- The methods of a class that is declared in a scope. -/
theorem closeMethods {C : Chart} {methods methods' : List FunctionDecl} {scope : Nat}
    (along : C.Along marks scope)
    (same : FunctionDecl.AlikeAll K (false :: marks) frames methods methods') :
    Bindings.Same (Closure.Alike K C [false]) (Eval.closeMethods scope methods)
      (Eval.closeMethods scope methods') := by
  unfold Eval.closeMethods
  apply Bindings.Same.ofPairs
  induction methods generalizing methods' with
  | nil =>
    cases same
    exact .nil
  | cons d ds ih =>
    cases same with
    | cons head tail =>
      refine .cons ⟨head.sameToken.lexeme.symm, rfl, head.isInitializer, ?_⟩ (ih tail)
      exact ⟨marks, frames, along, head⟩

/-- A name is assigned in the scope at hand, if that has it. -/
theorem assignOutward {u : Value} (m : p.Matched K)
    (present : p.left.scopes.local? p.left.current t.lexeme = some u)
    (name : K.SameName (p.marked p.left.current) t t') (same : v.Alike K p.chart w) :
    Mirrors K p (fun _ _ _ => True) (Eval.assignOutward t v) (Eval.assignOutward t' w) := by
  have there := m.local? p.left.current t.lexeme
  rw [← name.lexeme] at there
  obtain ⟨absent, -⟩ | ⟨_, u', -, present', -⟩ := there.both
  · rw [present] at absent
    cases absent
  refine congr ?_ ?_ (assignIn m (some p.left.current) same name ?_)
  · simp [Eval.assignOutward, Pair.owner?_local present]
  · simp [Eval.assignOutward, m.effects.current, Pair.owner?_local present']
  · rintro _ ⟨⟩
    rfl

/-- A subclass opens a scope for its superclass, any other class stays where it is. -/
theorem superclassScope {s s' : Option Class} (m : p.Matched K)
    (along : p.chart.Along marks p.left.current)
    (superclass : Option.Rel (Class.Alike K p.chart) s s') :
    Mirrors K p
      (fun f f' p' => f' = f ∧ p'.chart.Along (s.elim marks fun _ => false :: marks) f ∧
        ∀ name u, p.left.scopes.local? p.left.current name = some u →
          p'.left.scopes.local? p.left.current name = some u)
      (s.elim (return (← get).current) fun c => do
        Eval.openScope [("super", .ofClass c)] (← get).current)
      (s'.elim (return (← get).current) fun c => do
        Eval.openScope [("super", .ofClass c)] (← get).current) := by
  cases superclass with
  | none =>
    apply (Mirrors.get m).bind
    rintro _ _ p m - ⟨rfl, rfl, rfl⟩
    exact .pure m ⟨m.effects.current, along, fun _ _ present => present⟩
  | some classes =>
    apply (Mirrors.get m).bind
    rintro _ _ p m - ⟨rfl, rfl, rfl⟩
    rw [m.effects.current]
    refine (openScope m _ false (same_single "super" (.ofClass classes))).imp ?_
    rintro _ _ p' - ⟨rfl, rfl, rfl⟩
    refine ⟨rfl, Pair.along_push _ _ false along, fun name u present => ?_⟩
    have old := Nat.ne_of_lt (Scopes.local?_bound present)
    change (p.left.scopes.push _ _).local? p.left.current name = some u
    rw [Scopes.local?_push, if_neg old]
    exact present

/-- A class is declared on top of its superclass, if it has one. -/
theorem declareClass {methods methods' : List FunctionDecl} {s s' : Option Class}
    (m : p.Matched K) (along : p.chart.Along marks p.left.current) (token : K.SameToken t t')
    (name : K.SameName (marks.headD false) t t')
    (superclass : Option.Rel (Class.Alike K p.chart) s s')
    (same : FunctionDecl.AlikeAll K (false :: s.elim marks fun _ => false :: marks) frames methods
      methods') :
    Mirrors K p (fun _ _ _ => True) (Eval.declareClass t s methods)
      (Eval.declareClass t' s' methods') := by
  have inside : p.left.current < p.left.scopes.size := m.bound along
  have declared := define m t.lexeme (.nil (C := p.chart))
  rw [m.marked_current along, ← name.lexeme] at declared
  rw [declareClass_eq, declareClass_eq]
  apply declared.bind
  rintro _ _ p₁ m₁ grown₁ rfl
  have present : (p.define K p.left.current t.lexeme .nil .nil).left.scopes.local? p.left.current
      t.lexeme = some .nil :=
    (Scopes.local?_define ..).trans (if_pos ⟨rfl, inside, rfl⟩)
  have along₁ := along.mono grown₁.kept
  have classes := superclass.imp fun _ _ h => h.mono grown₁.kept
  apply (superclassScope m₁ along₁ classes).bind
  rintro _ scope p₂ m₂ grown₂ ⟨rfl, inner, kept⟩
  have along₂ : p₂.chart.Along marks p₂.left.current := by
    rw [grown₂.current]
    exact along₁.mono grown₂.kept
  have there := kept t.lexeme .nil present
  rw [← grown₂.current] at there
  rw [← m₂.marked_current along₂] at name
  apply (freshSerial m₂).bind
  rintro _ serial _ m₃ - ⟨rfl, rfl⟩
  have own : ClassLayer.Alike K p₂.chart ⟨serial, t.lexeme, Eval.closeMethods scope methods⟩
      ⟨serial, t'.lexeme, Eval.closeMethods scope methods'⟩ :=
    ⟨rfl, token.lexeme, closeMethods inner same⟩
  have supers := classes.imp fun _ _ h => h.mono grown₂.kept
  exact assignOutward m₃ there name (.ofClass (.declare own supers))

end Mirrors

end ClassScript
