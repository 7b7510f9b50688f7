import ClassScript.Proofs.Binding.Places
import ClassScript.Proofs.Execution.Descent
import ClassScript.Proofs.Session.Executions
import ClassScript.Proofs.Session.Names

set_option autoImplicit false

/-!
# References to a superclass

A reference to a method of the superclass is resolved by where it stands in the text: it starts at
the class that the superclass clause around it evaluated to when that declaration was executed.  The
class of the receiver plays no part, nor does what becomes of the superclass's name.
-/

namespace ClassScript

/-! ## The classes of a session -/

theorem State.traced_start (X : Execution) (host : Host) (natives : List Native) :
    (State.start host natives).Traced X where
  holds := .start fun _ => trivial
  super f v hv := by
    obtain ⟨g, same, -⟩ := native_of_start hv
    cases g <;> exact absurd same (by decide)

/-- Every point of a session is traced. -/
theorem Point.traced_ofSession {host : Host} {natives : List Native} {runs : List (Nat × String)}
    {fuel : Nat} {l : Launch} {p : Point}
    (launched : (fuel, l) ∈ (Session.start host natives).launches runs)
    (reached : l.Reaches fuel p) : p.Obeys (.tracing (.ofSession host natives runs)) :=
  .of_session (State.traced_start _ host natives) launched reached

/-! ## Dispatch -/

section Dispatch

variable {σ : State} {c : Class} {o : Object} {id nearer : Nat} {keyword method : Token}

/-- A method of the superclass is bound to the receiver, in a scope that holds nothing else. -/
theorem superMethod_of_found {found : Closure} (recorded : σ.distances.get? id = some (nearer + 1))
    (above : σ.scopes.getAt? σ.current (nearer + 1) keyword.lexeme = some (.ofClass c))
    (this : σ.scopes.getAt? σ.current nearer "this" = some (.object o))
    (has : c.findMethod? method.lexeme = some found) :
    Eval.superMethod id keyword method σ =
      .ok (.bound σ.nextSerial { found with scope := σ.scopes.size })
        { σ with
          scopes := σ.scopes.push [("this", .object o)] (some found.scope)
          nextSerial := σ.nextSerial + 1 } := by
  rw [superMethod_eq_bind recorded above this has]
  rfl

theorem superMethod_of_missing (recorded : σ.distances.get? id = some (nearer + 1))
    (above : σ.scopes.getAt? σ.current (nearer + 1) keyword.lexeme = some (.ofClass c))
    (this : σ.scopes.getAt? σ.current nearer "this" = some (.object o))
    (missing : c.findMethod? method.lexeme = none) :
    Eval.superMethod id keyword method σ =
      .error (.error ⟨.undefinedProperty method.lexeme, method.line⟩) σ := by
  unfold Eval.superMethod
  rw [run_bind, run_get]
  simp only [recorded, above, this, missing]
  rfl

/-- A reference to a method fails only for want of it, and the fault names the method. -/
theorem superMethod_eq_error_iff (recorded : σ.distances.get? id = some (nearer + 1))
    (above : σ.scopes.getAt? σ.current (nearer + 1) keyword.lexeme = some (.ofClass c))
    (this : σ.scopes.getAt? σ.current nearer "this" = some (.object o)) (i : Interrupt) (σ' : State) :
    Eval.superMethod id keyword method σ = .error i σ' ↔
      c.findMethod? method.lexeme = none ∧
        i = .error ⟨.undefinedProperty method.lexeme, method.line⟩ ∧ σ' = σ := by
  cases has : c.findMethod? method.lexeme with
  | none =>
    rw [superMethod_of_missing recorded above this has]
    constructor
    · rintro ⟨⟩
      exact ⟨rfl, rfl, rfl⟩
    · rintro ⟨-, rfl, rfl⟩
      rfl
  | some found =>
    rw [superMethod_of_found recorded above this has]
    constructor
    · rintro ⟨⟩
    · rintro ⟨⟨⟩, -⟩

/-- No method is found exactly if none of the declarations has one of that name. -/
theorem findSome?_last?_eq_none {texts : List (List FunctionDecl)} {name : String} :
    texts.findSome? (FunctionDecl.last? name) = none ↔
      ∀ methods ∈ texts, ∀ d ∈ methods, d.name.lexeme ≠ name := by
  simp [FunctionDecl.last?, List.findSome?_eq_none_iff]

end Dispatch

/-- A scope for a superclass is opened by a declaration of a class with these methods. -/
theorem Opens.declaration {p : Point} {f : Nat} {methods : List FunctionDecl}
    (opens : Opens p f (.super methods)) :
    ∃ fuel name clause σ, p = ⟨fuel + 1, .execute (.classDecl name (some clause) methods), σ⟩ := by
  cases opens with
  | superclass first => exact ⟨_, _, _, _, rfl⟩

/-- A scope that was opened for the superclass of a class, and that holds it, was opened when that
class was declared. -/
theorem HoldsSuper.declaration {host : Host} {natives : List Native} {runs : List (Nat × String)}
    {f : Nat} {c : Class} {p : Point} {methods : List FunctionDecl}
    (holds : HoldsSuper (World.ofLaunches ((Session.start host natives).launches runs)).reached f
      (.ofClass c) p)
    (made : (World.ofLaunches ((Session.start host natives).launches runs)).opened f
      (.super methods)) :
    let W := World.ofLaunches ((Session.start host natives).launches runs)
    ∃ fuel name clause σ₀ σ₁,
      W.reached ⟨fuel + 1, .execute (.classDecl name (some clause) methods), σ₀⟩ ∧
      Eval.evaluate fuel clause σ₀ = .ok (.ofClass c) σ₁ ∧ f = σ₁.scopes.size ∧
      ∀ p site, W.reached p → Opens p f site →
        p = ⟨fuel + 1, .execute (.classDecl name (some clause) methods), σ₀⟩ := by
  intro W
  have unique : ∀ {p q site site'}, W.reached p → W.reached q → Opens p f site → Opens q f site' →
      p = q := by
    rintro p q site site' ⟨⟨_, l⟩, launched, reached⟩ ⟨⟨_, l'⟩, launched', reached'⟩ opens opens'
    exact Session.opener launched launched' reached reached' opens opens'
  obtain ⟨q, reached, opens⟩ := made
  cases holds with
  | declared executed first =>
    obtain ⟨fuel, name, clause, σ, at_⟩ := opens.declaration
    cases at_.symm.trans (unique reached executed opens (.superclass first))
    exact ⟨_, _, _, _, _, executed, first, rfl, fun p site reached opens' =>
      unique reached executed opens' (.superclass first)⟩

/-- Wherever a session evaluates `super.method`, the place lies in a method of a class, and the
method is looked up from the class that the superclass clause of that class evaluated to when its
declaration was executed.  The nearest declaration that has the method gives it, its last one if there
are several, bound to what `this` stands for; only if there is none does the evaluation fail. -/
theorem super_dispatch (host : Host) (natives : List Native) (runs : List (Nat × String))
    {fuel n id : Nat} {l : Launch} {keyword method : Token} {σ : State}
    (launched : (fuel, l) ∈ (Session.start host natives).launches runs)
    (reached : l.Reaches fuel ⟨n + 1, .evaluate (.super id keyword method), σ⟩) :
    let W := World.ofLaunches ((Session.start host natives).launches runs)
    let result := Eval.evaluate (n + 1) (.super id keyword method) σ
    ∃ v nearer methods, W.visited v ∧ v.reference = ⟨.super, id, keyword⟩ ∧
      (∀ v', W.visited v' → v'.id = id → v' = v) ∧ InMethodOf methods nearer v.sites ∧
    ∃ fuel' name clause σ₀ σ₁ c,
      W.reached ⟨fuel' + 1, .execute (.classDecl name (some clause) methods), σ₀⟩ ∧
      Eval.evaluate fuel' clause σ₀ = .ok (.ofClass c) σ₁ ∧
      σ.scopes.ancestor? (nearer + 1) σ.current = some σ₁.scopes.size ∧
      (∀ p site, W.reached p → Opens p σ₁.scopes.size site →
        p = ⟨fuel' + 1, .execute (.classDecl name (some clause) methods), σ₀⟩) ∧
    ∃ o texts, Descends W.reached c texts ∧
      (∀ id' keyword', keyword'.lexeme = "this" →
        σ.distances.get? id' = distance? "this" v.scopes →
        Eval.evaluate (n + 1) (.this id' keyword') σ = .ok (.object o) σ) ∧
      (∀ d, texts.findSome? (FunctionDecl.last? method.lexeme) = some d →
        ∃ found, c.findMethod? method.lexeme = some found ∧ found.declaration = d ∧
          result = .ok (.bound σ.nextSerial { found with scope := σ.scopes.size })
            { σ with
              scopes := σ.scopes.push [("this", .object o)] (some found.scope)
              nextSerial := σ.nextSerial + 1 }) ∧
      ((∃ i σ', result = .error i σ') ↔
        ∀ methods ∈ texts, ∀ d ∈ methods, d.name.lexeme ≠ method.lexeme) ∧
      (∀ i σ', result = .error i σ' →
        i = .error ⟨.undefinedProperty method.lexeme, method.line⟩) := by
  intro W result
  obtain ⟨before, sub, prepared⟩ := (Tracks.start host natives).prepared launched
  obtain ⟨_, tracks⟩ := (Tracks.start host natives).exists_runAll runs
  obtain ⟨c₀, same, m, sites, frames, env, ready⟩ := prepared _ reached
  change c₀.state = σ at same
  subst same
  have refers := ready.refers ⟨.super, id, keyword⟩ List.mem_cons_self
  obtain ⟨d, -, -, recorded, -⟩ := m.distance_of_super refers rfl
  obtain ⟨v, visited, reference, reads⟩ := ready.readsAt (e := .super id keyword method) m rfl
    (show ReferenceKind.super ≠ .assign by decide) recorded
  have known : W.visited v := World.visited_mono sub visited
  obtain ⟨legal, spelled, -⟩ := m.settled v visited
  simp only [Visit.Legal, Reference.Spelled, reference] at legal spelled
  obtain ⟨nearer, near, far⟩ := legal
  -- the distance is that of `super` from the place
  have distance := reads.declares
  rw [Visit.name, reference, spelled, far] at distance
  cases distance
  obtain ⟨k, c, o, same, above, receiver⟩ := reads.super (by rw [reference])
  obtain rfl : k = d := Nat.succ.inj same.symm
  obtain ⟨f, site, up, -, at_, made, -⟩ := reads.owner
  have place : Place v.sites v.scopes := by
    obtain ⟨⟨_, l'⟩, launched', mem⟩ := known
    exact Stmt.place_visitsAll (Session.formed_of_launches launched') .top v mem
  obtain ⟨methods, within⟩ := place.inMethodOf near far
  cases at_.symm.trans within.superclass
  have traced := (Point.traced_ofSession launched reached).state
  rw [Visit.name, reference, spelled] at above
  have held : c₀.state.scopes.local? f "super" = some (.ofClass c) := by
    rw [Scopes.getAt?, up] at above
    exact above
  obtain ⟨p, holds⟩ := traced.super f _ held
  obtain ⟨texts, descends⟩ := traced.scopes f _ _ held
  obtain ⟨fuel', name, clause, σ₀, σ₁, executed, first, rfl, only⟩ :=
    holds.declaration (World.opened_mono sub made)
  have recorded : c₀.state.distances.get? id = some (k + 1) := recorded
  have word : keyword.lexeme = "super" := spelled
  rw [← word] at above
  have fails : ∀ i σ', result = .error i σ' ↔ c.findMethod? method.lexeme = none ∧
      i = .error ⟨.undefinedProperty method.lexeme, method.line⟩ ∧ σ' = c₀.state :=
    superMethod_eq_error_iff recorded above receiver
  have missing : c.findMethod? method.lexeme = none ↔
      ∀ methods ∈ texts, ∀ d ∈ methods, d.name.lexeme ≠ method.lexeme := by
    rw [← findSome?_last?_eq_none, ← descends.findMethod?, Option.map_eq_none_iff]
  refine ⟨v, k, methods, known, reference, fun v' visited' same => ?_, within, fuel', name,
    clause, σ₀, σ₁, c, executed, first, up, only, o, texts, descends,
    fun id' keyword' word' recorded' => ?_, fun d declared => ?_, ?_, fun i σ' stopped => ?_⟩
  · rw [tracks.apart v' v visited' known (same.trans ?_)]
    rw [Visit.id, reference]
  · rw [near] at recorded'
    simp [Eval.evaluate, Eval.lookUp, recorded', word', receiver]
  · rw [← descends.findMethod?] at declared
    obtain ⟨found, has, declaration⟩ := Option.map_eq_some_iff.1 declared
    exact ⟨found, has, declaration, superMethod_of_found recorded above receiver has⟩
  · rw [← missing]
    constructor
    · rintro ⟨i, σ', stopped⟩
      exact ((fails i σ').1 stopped).1
    · intro none
      exact ⟨_, _, (fails _ _).2 ⟨none, rfl, rfl⟩⟩
  · exact ((fails i σ').1 stopped).2.1

/-- A word of a source of one line. -/
def wordOf (kind : TokenKind) (lexeme : String) : Token := ⟨kind, lexeme, none, 1⟩

/-- A method `n` that refers to the method `m` of the superclass. -/
def referringMethod : FunctionDecl :=
  ⟨wordOf .identifier "n", [],
    [.expression (.super 1 (wordOf .kwSuper "super") (wordOf .identifier "m"))]⟩

/-- A class with a method `m`. -/
def upperClass : Stmt :=
  .classDecl (wordOf .identifier "A") none [⟨wordOf .identifier "m", [], []⟩]

/-- A class on top of it. -/
def lowerClass : Stmt :=
  .classDecl (wordOf .identifier "B") (some (.name 0 (wordOf .identifier "A"))) [referringMethod]

/-- The method of an instance of that class. -/
def readMethod : Expr :=
  .get (.call (.name 2 (wordOf .identifier "B")) (wordOf .rightParen ")") [])
    (wordOf .identifier "n")

/-- What is launched by the two classes and a call of the method. -/
def inheritingLaunch : Launch where
  program := [upperClass, lowerClass, .expression (.call readMethod (wordOf .rightParen ")") [])]
  session :=
    { state := { State.start .still [] with distances := Distances.empty.insert 1 2 }
      nextId := 3 }

theorem launches_inheriting : (Session.start .still []).launches
    [(20, "class A \x7b m() \x7b\x7d \x7d class B < A \x7b n() \x7b super.m; \x7d \x7d B().n();")] =
      [(20, inheritingLaunch)] := by
  cbv

/-- The state once both classes are declared. -/
def declaredState : State :=
  (Eval.execute 20 lowerClass).leaves
    ((Eval.execute 20 upperClass).leaves inheritingLaunch.session.state)

/-- The state once the method is read. -/
def boundState : State :=
  (Eval.evaluate 18 readMethod).leaves declaredState

/-- The state in which its body is executed. -/
def methodState : State :=
  { boundState with scopes := boundState.scopes.push [] (some 2), current := 3 }

theorem reaches_inheriting : inheritingLaunch.Reaches 20
    ⟨14, .evaluate (.super 1 (wordOf .kwSuper "super") (wordOf .identifier "m")), methodState⟩ := by
  have upper : Eval.execute 20 upperClass inheritingLaunch.session.state =
      .ok .normal ((Eval.execute 20 upperClass).leaves inheritingLaunch.session.state) := rfl
  have lower : Eval.execute 20 lowerClass
      ((Eval.execute 20 upperClass).leaves inheritingLaunch.session.state) =
        .ok .normal declaredState := rfl
  have callee : Eval.evaluate 18 readMethod declaredState =
      .ok (.bound 2 ⟨referringMethod, 2, false⟩) boundState := rfl
  have started : inheritingLaunch.Reaches 20 _ := .start (.later upper (.later lower (.here _ [] _)))
  have invoked := ((started.call (.expression ..)).call (.call callee rfl)).call (.method rfl)
  have entered : Eval.openScope (Bindings.ofPairs []) 2 boundState =
      .ok 3 { boundState with scopes := boundState.scopes.push [] (some 2) } := rfl
  exact ((invoked.call (.body entered)).call (.first ..)).call (.expression ..)

theorem super_dispatch_inherited :
    ∃ c texts, Descends (World.ofLaunches [(20, inheritingLaunch)]).reached c texts ∧
      ∃ methods ∈ texts, ∃ d ∈ methods, d.name.lexeme = "m" := by
  have launched : (20, inheritingLaunch) ∈ (Session.start .still []).launches
      [(20, "class A \x7b m() \x7b\x7d \x7d class B < A \x7b n() \x7b super.m; \x7d \x7d B().n();")] := by
    rw [launches_inheriting]
    exact List.mem_singleton_self _
  obtain ⟨-, -, -, -, -, -, -, -, -, -, -, -, c, -, -, -, -, o, texts, descends, -, -, fails, -⟩ :=
    super_dispatch .still [] _ launched reaches_inheriting
  rw [launches_inheriting] at descends
  refine ⟨c, texts, descends, ?_⟩
  by_contra none_
  have missing : ∀ methods ∈ texts, ∀ d ∈ methods, d.name.lexeme ≠ "m" := by
    intro methods hm d hd same
    exact none_ ⟨methods, hm, d, hd, same⟩
  obtain ⟨i, σ', stopped⟩ := fails.2 missing
  cases stopped

end ClassScript
