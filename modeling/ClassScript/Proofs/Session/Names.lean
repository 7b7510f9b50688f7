import ClassScript.Proofs.Session.History

set_option autoImplicit false

/-!
# Names are where they were bound

The scopes at a point of a session are those of the constructs around it.  So a name that is read at
its recorded distance is there, in the scope that was opened for the construct that declares it.  A
name that is assigned is there too, except within its own initializer.
-/

namespace ClassScript

open Lexical (Environment)

/-! ## Scopes and constructs -/

/-- From a scope outward, there is one for each construct, opened for it and with the names of its
frame, and then that of the globals. -/
inductive Surrounds (opened : Nat → Site → Prop) (s : Scopes Value) :
    List Site → List Frame → Nat → Prop where
  | globals (outermost : s.enclosing? globalScope = none) : Surrounds opened s [] [] globalScope
  | inside {site : Site} {sites : List Site} {frame : Frame} {frames : List Frame} {f g : Nat}
      (made : opened f site) (enclosed : s.enclosing? f = some g)
      (has : ∀ name, (frame.lookup name).isSome → (s.local? f name).isSome)
      (rest : Surrounds opened s sites frames g) :
      Surrounds opened s (site :: sites) (frame :: frames) f

/-- The scopes at hand are those of the constructs around a visit, with the names of its frames,
but for the one that is just being declared. -/
def Visit.Surrounded (opened : Nat → Site → Prop) (v : Visit) (σ : State) : Prop :=
  ∃ unborn frames, AlikeBut unborn frames v.scopes ∧
    Surrounds opened σ.scopes v.sites frames σ.current

/-- A reference with the given distance is read where its word is declared: a variable or the
receiver has its value, and a superclass is a class with the receiver one scope nearer. -/
structure Visit.ReadsAt (opened : Nat → Site → Prop) (v : Visit) (d : Nat) (e : Expr) (σ : State) :
    Prop where
  declares : distance? v.name v.scopes = some d
  surrounded : v.Surrounded opened σ
  owner : ∃ f site, σ.scopes.ancestor? d σ.current = some f ∧ f ≠ globalScope ∧
    v.sites[d]? = some site ∧ opened f site ∧ (σ.scopes.local? f v.name).isSome
  plain : v.reference.kind ≠ .super → ∃ value, σ.scopes.getAt? σ.current d v.name = some value ∧
    ∀ fuel, Eval.evaluate (fuel + 1) e σ = .ok value σ
  super : v.reference.kind = .super → ∃ nearer c o, d = nearer + 1 ∧
    σ.scopes.getAt? σ.current d v.name = some (.ofClass c) ∧
    σ.scopes.getAt? σ.current nearer "this" = some (.object o)
  defined : ∀ fuel name line σ',
    Eval.evaluate fuel e σ ≠ .error (.error ⟨.undefinedVariable name, line⟩) σ'

section Surrounds

variable {opened opened' : Nat → Site → Prop} {sites : List Site} {frames : List Frame} {f d : Nat}

theorem Surrounds.mono {s : Scopes Value} (h : Surrounds opened s sites frames f)
    (sub : ∀ f site, opened f site → opened' f site) : Surrounds opened' s sites frames f := by
  induction h with
  | globals outermost => exact .globals outermost
  | inside made enclosed has _ ih => exact .inside (sub _ _ made) enclosed has ih

theorem Visit.ReadsAt.mono {v : Visit} {e : Expr} {σ : State} (h : v.ReadsAt opened d e σ)
    (sub : ∀ f site, opened f site → opened' f site) : v.ReadsAt opened' d e σ := by
  obtain ⟨unborn, frames, alike, surrounds⟩ := h.surrounded
  obtain ⟨f, site, up, inside, at_, made, owns⟩ := h.owner
  exact { h with
    surrounded := ⟨unborn, frames, alike, surrounds.mono sub⟩
    owner := ⟨f, site, up, inside, at_, sub f site made, owns⟩ }

/-- Scopes that are laid out like frames are those of the constructs around. -/
theorem Laid.surrounds {V : View} {env : Environment} (laid : Laid V sites frames f env)
    (outermost : V.scopes.enclosing? globalScope = none) :
    Surrounds V.opened V.scopes sites frames f := by
  induction laid with
  | globals => exact .globals outermost
  | inside made enclosed has _ _ _ ih =>
    refine .inside made enclosed (fun name known => ?_) ih
    obtain ⟨stage, hs⟩ := Option.isSome_iff_exists.1 known
    obtain ⟨-, v, location, hv, -⟩ := has name stage hs
    rw [hv]
    rfl

end Surrounds

/-! ## Reading -/

section Reading

variable {W : World} {c : Twin} {sites : List Site} {frames : List Frame} {env : Environment}
  {e : Expr} {r : Reference} {d : Nat}

/-- A reference to the superclass has a class at its distance and the receiver one scope nearer. -/
theorem Twin.Matched.super_found (m : c.Matched W)
    (laid : Laid (c.view W) sites frames c.state.current env)
    (h : Refers (c.view W) sites frames c.state.current r) (super : r.kind = .super)
    (recorded : c.state.distances.get? r.id = some d) :
    ∃ nearer s o, d = nearer + 1 ∧
      c.state.scopes.getAt? c.state.current d r.token.lexeme = some (.ofClass s) ∧
      c.state.scopes.getAt? c.state.current nearer "this" = some (.object o) := by
  obtain ⟨nearer, this, above, known, word⟩ := m.distance_of_super h super
  obtain rfl : nearer + 1 = d := Option.some.inj (known.symm.trans recorded)
  obtain ⟨v, -, hv, -, fits, -⟩ := m.local_value laid above
  obtain ⟨u, -, hu, -, fits', -⟩ := m.local_value laid this
  obtain ⟨s, rfl⟩ := fits.2 rfl
  obtain ⟨o, rfl⟩ := fits'.1 rfl
  exact ⟨nearer, s, o, rfl, word ▸ hv, hu⟩

/-- With the superclass and the receiver there, only the method can be missing. -/
theorem superMethod_defined {σ : State} {id nearer : Nat} {keyword method : Token} {s : Class}
    {o : Object} (recorded : σ.distances.get? id = some (nearer + 1))
    (above : σ.scopes.getAt? σ.current (nearer + 1) keyword.lexeme = some (.ofClass s))
    (this : σ.scopes.getAt? σ.current nearer "this" = some (.object o)) (name : String)
    (line : Nat) (σ' : State) :
    Eval.superMethod id keyword method σ ≠ .error (.error ⟨.undefinedVariable name, line⟩) σ' := by
  cases found : s.findMethod? method.lexeme with
  | some f => simp [Eval.superMethod, recorded, above, this, found, Eval.bind, Eval.receive,
      Eval.openScope, Eval.freshSerial]
  | none => simp [Eval.superMethod, recorded, above, this, found]

/-- Where an expression is ready, a reference that it makes by itself and that reads is found. -/
theorem Twin.Ready.readsAt (m : c.Matched W) (ready : c.Ready W sites frames env e.references)
    (refers : e.reference? = some r) (reads : r.kind ≠ .assign)
    (recorded : c.state.distances.get? r.id = some d) :
    ∃ v, W.visited v ∧ v.reference = r ∧ v.ReadsAt W.opened d e c.state := by
  have refersTo := ready.refers r (Expr.mem_references_of_reference? refers)
  have here : distance? r.token.lexeme frames = some d :=
    (m.distance_of_reads refersTo reads).symm.trans recorded
  obtain ⟨seen, visited, ⟨unborn, -, alike⟩, -⟩ := id refersTo
  obtain ⟨-, -, settled⟩ := m.settled _ visited
  obtain ⟨f, site, v, -, up, ⟨g, inner⟩, at_, made, hv, -⟩ := ready.laid.found here
  obtain ⟨value, -, found, -⟩ := m.local_value ready.laid here
  have outermost : c.state.scopes.enclosing? globalScope = none := m.rooted.outermost
  have inside : f ≠ globalScope := by
    rintro rfl
    exact absurd (outermost.symm.trans inner) (by simp)
  have owns : (c.state.scopes.local? f r.token.lexeme).isSome := Option.isSome_of_eq_some hv
  have plain : r.kind ≠ .super → ∀ fuel, Eval.evaluate (fuel + 1) e c.state = .ok value c.state := by
    intro other fuel
    cases e <;> cases refers
    · simp [Eval.evaluate, Eval.lookUp, recorded, found]
    · exact absurd rfl reads
    · simp [Eval.evaluate, Eval.lookUp, recorded, found]
    · exact absurd rfl other
  have super : r.kind = .super → ∃ nearer s o, d = nearer + 1 ∧ _ ∧ _ :=
    fun super => m.super_found ready.laid refersTo super recorded
  refine ⟨⟨r, sites, seen⟩, visited, rfl, settled.symm.trans recorded,
    ⟨unborn, frames, alike, ready.laid.surrounds outermost⟩,
    ⟨f, site, up, inside, at_, made, owns⟩, fun other => ⟨value, found, plain other⟩, super, ?_⟩
  intro fuel name line σ' run
  obtain _ | fuel := fuel
  · cases run
  · by_cases kind : r.kind = .super
    · obtain ⟨nearer, s, o, rfl, above, this⟩ := super kind
      cases e <;> cases refers <;> cases kind
      exact superMethod_defined recorded above this name line σ' run
    · rw [plain kind] at run
      cases run

end Reading

/-- Wherever a session evaluates a variable, the receiver or a superclass that has a recorded
distance, the scopes are those around the one visit of that reference, and it is found at its
distance, which is never that of the globals. -/
theorem reads_where_bound (host : Host) (natives : List Native) (runs : List (Nat × String))
    {fuel d : Nat} {l : Launch} {p : Point} {e : Expr} {r : Reference}
    (launched : (fuel, l) ∈ (Session.start host natives).launches runs)
    (reached : l.Reaches fuel p) (task : p.task = .evaluate e) (refers : e.reference? = some r)
    (reads : r.kind ≠ .assign) (recorded : p.state.distances.get? r.id = some d) :
    let W := World.ofLaunches ((Session.start host natives).launches runs)
    ∃ v, W.visited v ∧ v.reference = r ∧ (∀ v', W.visited v' → v'.id = r.id → v' = v) ∧
      v.ReadsAt W.opened d e p.state := by
  intro W
  obtain ⟨before, sub, prepared⟩ := (Tracks.start host natives).prepared launched
  obtain ⟨_, tracks⟩ := (Tracks.start host natives).exists_runAll runs
  obtain ⟨fuel', _, σ⟩ := p
  cases task
  obtain ⟨c, rfl, m, sites, frames, env, ready⟩ := prepared _ reached
  obtain ⟨v, visited, rfl, found⟩ := ready.readsAt m refers reads recorded
  have known : W.visited v := World.visited_mono sub visited
  exact ⟨v, known, rfl, fun v' visited' same => tracks.apart v' v visited' known same,
    found.mono fun _ _ => World.opened_mono sub⟩

/-- The word `a` of a source of one line. -/
def wordA : Token := ⟨.identifier, "a", none, 1⟩

/-- What is launched by a block that declares a name and prints it. -/
def readingLaunch : Launch where
  program := [.block [.varDecl wordA none, .print (.name 0 wordA)]]
  session :=
    { state := { State.start .still [] with distances := Distances.empty.insert 0 0 }
      nextId := 1 }

theorem launches_reading : (Session.start .still []).launches
    [(9, "\x7b var a; print a; \x7d")] = [(9, readingLaunch)] := by
  cbv

/-- The state in which the name is read. -/
def readingState : State :=
  { readingLaunch.session.state with
    scopes := (readingLaunch.session.state.scopes.push [] (some globalScope)).define 1 "a" .nil
    current := 1 }

theorem reaches_reading :
    readingLaunch.Reaches 9 ⟨5, .evaluate (.name 0 wordA), readingState⟩ := by
  have block : readingLaunch.Reaches 9
      ⟨9, .execute (.block [.varDecl wordA none, .print (.name 0 wordA)]),
        readingLaunch.session.state⟩ := .start (.here ..)
  have declared : Eval.execute 7 (.varDecl wordA none)
      { readingState with
        scopes := readingLaunch.session.state.scopes.push [] (some globalScope) } =
      .ok .normal readingState := rfl
  have print := ((block.call (.block rfl)).call (.rest declared)).call (.first ..)
  exact print.call (.print ..)

theorem reads_where_bound_inBlock :
    ∃ v, (World.ofLaunches [(9, readingLaunch)]).visited v ∧
      v.ReadsAt (World.ofLaunches [(9, readingLaunch)]).opened 0 (.name 0 wordA) readingState := by
  have launched : (9, readingLaunch) ∈ (Session.start .still []).launches
      [(9, "\x7b var a; print a; \x7d")] := by
    rw [launches_reading]
    exact List.mem_singleton_self _
  have found := reads_where_bound .still [] _ launched reaches_reading rfl rfl (by decide) rfl
  rw [launches_reading] at found
  obtain ⟨v, visited, -, -, reads⟩ := found
  exact ⟨v, visited, reads⟩

/-! ## Assigning -/

/-- An assignment with a recorded distance overwrites the name in the scope at that distance, unless
it stands in the initializer of the very name it assigns.  There it fails, since the name is bound
already but not there yet. -/
theorem assigns_unless_unborn (host : Host) (natives : List Native) (runs : List (Nat × String))
    {fuel fuel' id d : Nat} {l : Launch} {target : Token} {e : Expr} {value : Value}
    {σ σ' : State} (launched : (fuel, l) ∈ (Session.start host natives).launches runs)
    (reached : l.Reaches fuel ⟨fuel' + 1, .evaluate (.assign id target e), σ⟩)
    (recorded : σ.distances.get? id = some d) (yields : Eval.evaluate fuel' e σ = .ok value σ') :
    let W := World.ofLaunches ((Session.start host natives).launches runs)
    let result := Eval.evaluate (fuel' + 1) (.assign id target e) σ
    ∃ v, W.visited v ∧ v.reference = ⟨.assign, id, target⟩ ∧
      (∀ v', W.visited v' → v'.id = id → v' = v) ∧ distance? v.name v.scopes = some d ∧
      (¬v.AssignsUnborn → ∃ f old, σ'.scopes.ancestor? d σ'.current = some f ∧
        f ≠ globalScope ∧ σ'.scopes.local? f target.lexeme = some old ∧
        result = .ok value { σ' with scopes := σ'.scopes.define f target.lexeme value }) ∧
      (v.AssignsUnborn →
        result = .error (.error ⟨.undefinedVariable target.lexeme, target.line⟩) σ') := by
  intro W result
  obtain ⟨before, sub, prepared⟩ := (Tracks.start host natives).prepared launched
  obtain ⟨_, tracks⟩ := (Tracks.start host natives).exists_runAll runs
  obtain ⟨c, rfl, m, sites, frames, env, ready⟩ := prepared _ reached
  have inner := (simulates _ fuel').evaluate m
    (ready.subset fun _ hr => List.mem_cons_of_mem _ hr)
    (World.calls _ (Tracks.Launching.reached reached) (.assigned ..))
  obtain ⟨c', -, rfl, m', grown, -⟩ := inner.reaches yields
  have ready' := ready.grown m grown
  have recorded' : c'.state.distances.get? id = some d := by
    rw [grown.distances]
    exact recorded
  obtain ⟨seen, visited, here, owners⟩ :=
    m'.ownerAt?_of_assign ready'.laid (ready'.refers _ List.mem_cons_self) recorded'
  have known : W.visited ⟨⟨.assign, id, target⟩, sites, seen⟩ := World.visited_mono sub visited
  refine ⟨_, known, rfl, fun v' visited' same => tracks.apart v' _ visited' known same, here,
    fun regular => ?_, fun unborn => ?_⟩
  · rcases owners with ⟨-, f, -, old, -, up, inside, hv, -⟩ | ⟨unborn, -⟩
    · refine ⟨f, old, up, inside, hv, ?_⟩
      have owner : c'.state.scopes.ownerAt? c'.state.current d target.lexeme = some f := by
        simp [Scopes.ownerAt?, up, hv]
      simp [result, Eval.evaluate, yields, Eval.assign, recorded', owner, Eval.assignIn]
    · exact absurd ⟨rfl, unborn⟩ regular
  · rcases owners with ⟨regular, -⟩ | ⟨-, absent⟩
    · exact absurd unborn.2 regular
    · simp [result, Eval.evaluate, yields, Eval.assign, recorded', absent, Eval.assignIn]

/-- What is launched by a block that assigns a name within its own initializer. -/
def unbornLaunch : Launch where
  program := [.block [.varDecl wordA (some (.assign 1 wordA (.constant .true)))]]
  session :=
    { state := { State.start .still [] with distances := Distances.empty.insert 1 0 }
      nextId := 2 }

theorem launches_unborn : (Session.start .still []).launches
    [(9, "\x7b var a = a = true; \x7d")] = [(9, unbornLaunch)] := by
  cbv

/-- The state in which the name is assigned. -/
def unbornState : State :=
  { unbornLaunch.session.state with
    scopes := unbornLaunch.session.state.scopes.push [] (some globalScope)
    current := 1 }

theorem reaches_unborn : unbornLaunch.Reaches 9
    ⟨6, .evaluate (.assign 1 wordA (.constant .true)), unbornState⟩ := by
  have block : unbornLaunch.Reaches 9
      ⟨9, .execute (.block [.varDecl wordA (some (.assign 1 wordA (.constant .true)))]),
        unbornLaunch.session.state⟩ := .start (.here ..)
  exact ((block.call (.block rfl)).call (.first ..)).call (.varDecl ..)

theorem assigns_unless_unborn_fails :
    ∃ v ∈ programVisits unbornLaunch.program, v.AssignsUnborn ∧
      Eval.evaluate 6 (.assign 1 wordA (.constant .true)) unbornState =
        .error (.error ⟨.undefinedVariable "a", 1⟩) unbornState := by
  have launched : (9, unbornLaunch) ∈ (Session.start .still []).launches
      [(9, "\x7b var a = a = true; \x7d")] := by
    rw [launches_unborn]
    exact List.mem_singleton_self _
  obtain ⟨v, ⟨l, hl, visited⟩, -, -, -, -, fails⟩ :=
    assigns_unless_unborn .still [] _ launched reaches_unborn rfl rfl
  rw [launches_unborn] at hl
  obtain rfl := List.mem_singleton.1 hl
  have unborn : ∀ v ∈ programVisits unbornLaunch.program, v.AssignsUnborn := by decide
  exact ⟨v, visited, unborn v visited, fails (unborn v visited)⟩

end ClassScript
