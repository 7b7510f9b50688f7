import ClassScript.Proofs.Binding.Places
import ClassScript.Proofs.Execution.Receivers
import ClassScript.Proofs.Session.Executions
import ClassScript.Proofs.Session.Names

set_option autoImplicit false

/-!
# What `this` stands for

Wherever a session evaluates `this`, the place lies in the body of a method, and the scopes at hand
lead to an activation of that method.  What was activated is a method value, and `this` is the
instance through which that value was obtained, since the scope that holds the instance has stayed as
it was opened.
-/

namespace ClassScript

/-! ## The scopes of a place -/

theorem Scopes.ancestor?_succ {α : Type} {s : Scopes α} {k f g : Nat}
    (up : s.ancestor? k f = some g) : s.ancestor? (k + 1) f = s.enclosing? g := by
  induction k generalizing f with
  | zero =>
    cases up
    rw [Scopes.ancestor?]
    cases s.enclosing? g <;> rfl
  | succ k ih =>
    obtain ⟨outer, enclosed, up⟩ := Option.bind_eq_some_iff.1 up
    rw [← ih up]
    change (s.enclosing? f).bind _ = _
    rw [enclosed]
    rfl

/-- The scope for a construct around a place is as far out as the construct. -/
theorem Surrounds.ancestor? {opened : Nat → Site → Prop} {s : Scopes Value} {sites : List Site}
    {frames : List Frame} {f k : Nat} {site : Site} (h : Surrounds opened s sites frames f)
    (at_ : sites[k]? = some site) : ∃ g, s.ancestor? k f = some g ∧ opened g site := by
  induction h generalizing k with
  | globals => simp at at_
  | @inside _ _ _ _ f g made enclosed _ _ ih =>
    cases k with
    | zero =>
      cases at_
      exact ⟨f, rfl, made⟩
    | succ k =>
      obtain ⟨g', up, opened⟩ := ih at_
      refine ⟨g', ?_, opened⟩
      rw [Scopes.ancestor?, enclosed]
      exact up

theorem Opens.activation {p : Point} {f : Nat} {g : FunctionDecl} (h : Opens p f (.body g)) :
    ∃ n c values σ, p = ⟨n + 1, .invoke c values, σ⟩ ∧ f = σ.scopes.size ∧ c.declaration = g := by
  cases h with
  | body n c values σ => exact ⟨n, c, values, σ, rfl, rfl, rfl⟩

theorem Opens.binding {p : Point} {f : Nat} {methods : List FunctionDecl}
    (h : Opens p f (.this methods)) :
    ∃ o σ method, Obtains p o σ method ∧ f = σ.scopes.size := by
  cases h with
  | receiver receives _ =>
    obtain ⟨o, obtains⟩ := receives.obtains
    exact ⟨o, _, _, obtains, rfl⟩

/-! ## Sessions are guarded -/

section Guarded

variable {host : Host} {natives : List Native} {runs : List (Nat × String)}

theorem Execution.single_ofSession : (Execution.ofSession host natives runs).Single where
  taker := by
    rintro p q series n ⟨⟨_, l⟩, launched, reached⟩ ⟨⟨_, l'⟩, launched', reached'⟩ takes takes'
    exact Session.taker launched launched' reached reached' takes takes'

/-- What a session opens lies beyond the scope of the globals. -/
theorem Execution.pos_ofSession {p : Point} {f : Nat} {site : Site}
    (reached : (Execution.ofSession host natives runs).reached p) (opens : Opens p f site) :
    0 < f := by
  obtain ⟨⟨_, l⟩, launched, reached⟩ := reached
  exact Session.le_of_opens launched reached opens

theorem Reserves.pos {f : Nat} {cell : Scope Value}
    (h : Reserves (Execution.ofSession host natives runs).reached f cell) : 0 < f := by
  cases h with
  | receiver bound obtains number => exact Execution.pos_ofSession bound (number ▸ obtains.opens)
  | superclass executed first number =>
    exact Execution.pos_ofSession executed (number ▸ Opens.superclass first)

/-- Functions of the host have names that a program can write. -/
theorem Native.isName (f : Native) : IsName f.name := by
  constructor <;> cases f <;> decide

/-- Before the first source there is one scope, for the globals. -/
theorem State.guarded_start :
    (State.start host natives).Guarded (.ofSession host natives runs) where
  toHolds := .start fun _ => trivial
  kept reserves within := absurd reserves.pos (Nat.not_lt.2 (Nat.le_of_lt_succ within))
  only hv reserved := by
    obtain ⟨g, rfl, -⟩ := native_of_start hv
    exact absurd g.isName reserved
  outside _ reserves := absurd reserves.pos (Nat.lt_irrefl 0)
  bodies reached within :=
    absurd (Execution.pos_ofSession reached (.body ..)) (Nat.not_lt.2 (Nat.le_of_lt_succ within))

theorem Point.guarded_ofSession {fuel : Nat} {l : Launch} {p : Point}
    (launched : (fuel, l) ∈ (Session.start host natives).launches runs)
    (reached : l.Reaches fuel p) :
    p.Obeys (.guarding (.ofSession host natives runs) Execution.single_ofSession) :=
  .of_session State.guarded_start launched reached

end Guarded

/-! ## The receiver -/

section Receiver

variable {host : Host} {natives : List Native} {runs : List (Nat × String)}

theorem Visit.place_ofSession {v : Visit}
    (visited : (World.ofLaunches ((Session.start host natives).launches runs)).visited v) :
    Place v.sites v.scopes := by
  obtain ⟨⟨_, l⟩, launched, mem⟩ := visited
  exact Stmt.place_visitsAll (Session.formed_of_launches launched) .top v mem

/-- Where a session evaluates `this`, the word has a distance, and the scopes are those around it. -/
theorem readsAt_this {fuel n id : Nat} {l : Launch} {keyword : Token} {σ : State}
    (launched : (fuel, l) ∈ (Session.start host natives).launches runs)
    (reached : l.Reaches fuel ⟨n + 1, .evaluate (.this id keyword), σ⟩) :
    let W := World.ofLaunches ((Session.start host natives).launches runs)
    ∃ v d, W.visited v ∧ v.reference = ⟨.this, id, keyword⟩ ∧ keyword.lexeme = "this" ∧
      v.ReadsAt W.opened d (.this id keyword) σ := by
  intro W
  obtain ⟨before, sub, prepared⟩ := (Tracks.start host natives).prepared launched
  obtain ⟨c, rfl, m, sites, frames, env, ready⟩ := prepared _ reached
  obtain ⟨seen, visited, -⟩ := ready.refers ⟨.this, id, keyword⟩ List.mem_cons_self
  obtain ⟨⟨d, legal⟩, spelled, recorded⟩ := m.settled _ visited
  have word : keyword.lexeme = "this" := spelled
  have known : c.state.distances.get? id = some d := by
    refine recorded.trans ?_
    rw [Visit.name, word]
    exact legal
  obtain ⟨v, visited', reference, reads⟩ := ready.readsAt (e := .this id keyword) m rfl
    (show ReferenceKind.this ≠ .assign by decide) known
  exact ⟨v, d, World.visited_mono sub visited', reference, word,
    reads.mono fun _ _ => World.opened_mono sub⟩

/-- It then stands for the instance of a method value, of which an activation is at work around it. -/
theorem evaluate_this {fuel n id : Nat} {l : Launch} {keyword : Token} {σ : State}
    (launched : (fuel, l) ∈ (Session.start host natives).launches runs)
    (reached : l.Reaches fuel ⟨n + 1, .evaluate (.this id keyword), σ⟩) :
    let W := World.ofLaunches ((Session.start host natives).launches runs)
    ∃ o f, Obtained W.reached o f ∧ (∀ o', Obtained W.reached o' f → o' = o) ∧
      (∃ v k m values τ, W.visited v ∧ v.reference = ⟨.this, id, keyword⟩ ∧
        InBodyOf f.declaration k v.sites ∧ W.reached ⟨m + 1, .invoke f values, τ⟩ ∧
        σ.scopes.ancestor? k σ.current = some τ.scopes.size) ∧
      Eval.evaluate (n + 1) (.this id keyword) σ = .ok (.object o) σ := by
  intro W
  have single : (Execution.ofSession host natives runs).Single := Execution.single_ofSession
  obtain ⟨v, d, visited, reference, word, reads⟩ := readsAt_this launched reached
  have name : v.name = "this" := by rw [Visit.name, reference, word]
  have distance := reads.declares
  rw [name] at distance
  obtain ⟨k, g, rfl, within⟩ := (Visit.place_ofSession visited).inBodyOf distance
  obtain ⟨methods, receiver, -⟩ := within.receiver
  -- the two scopes: that of the receiver, and that of the activation within it
  obtain ⟨f, site, up, -, at_, ⟨p, bound, opens⟩, owns⟩ := reads.owner
  cases at_.symm.trans receiver
  obtain ⟨_, owns⟩ := Option.isSome_iff_exists.1 owns
  obtain ⟨o, σ₁, method, obtains, rfl⟩ := opens.binding
  obtain ⟨_, _, -, surrounds⟩ := reads.surrounded
  obtain ⟨h, inner, r, active, opens'⟩ := surrounds.ancestor? within.body
  obtain ⟨m, c, values, τ, rfl, rfl, rfl⟩ := opens'.activation
  have enclosed := (Scopes.ancestor?_succ inner).symm.trans up
  have guarded : σ.Guarded (.ofSession host natives runs) :=
    (Point.guarded_ofSession launched reached).state
  have reserves : Reserves W.reached σ₁.scopes.size ⟨[("this", .object o)], some method.scope⟩ :=
    .receiver bound obtains rfl
  have holds : σ.scopes.cells[σ₁.scopes.size]? = some ⟨[("this", .object o)], some method.scope⟩ :=
    guarded.kept reserves (Scopes.local?_bound owns)
  have closed : c.scope = σ₁.scopes.size := by
    have encloses := guarded.bodies active (Scopes.enclosing?_bound enclosed)
    exact Option.some.inj (encloses.symm.trans enclosed)
  -- what is active can only be the method value that was made with the scope of the receiver
  obtain ⟨o', obtained⟩ : ∃ o', Obtained W.reached o' c := by
    obtain ⟨⟨_, l'⟩, launched', reached'⟩ := active
    rcases (Point.guarded_ofSession launched' reached').task.1 with obtained | unreserved
    · exact obtained
    · exact absurd reserves (closed ▸ unreserved _)
  obtain ⟨rfl, -⟩ := single.obtained obtained ⟨p, σ₁, method, bound, obtains, rfl⟩ closed
  refine ⟨o', c, obtained, fun _ other => (single.obtained other obtained rfl).1,
    ⟨v, k, m, values, τ, visited, reference, within, active, inner⟩, ?_⟩
  have plain : v.reference.kind ≠ .super := by
    rw [reference]
    exact nofun
  obtain ⟨value, found, evaluates⟩ := reads.plain plain
  rw [Scopes.getAt?, up, name] at found
  change σ.scopes.local? σ₁.scopes.size "this" = some value at found
  rw [Scopes.local?, holds] at found
  cases found
  exact evaluates n

end Receiver

/-- In every state that a session comes to, a scope that was opened for a receiver or a superclass
holds just that, and is enclosed as it was when it was opened; no other scope has `this` or `super`.
A method value is made only where a method is bound to an instance, and whatever a name or a field
holds was made so.  Wherever `this` is evaluated, an activation of a method value is at work around
it, of the method in which the word stands, and what the word yields is the instance through which
that value was obtained. -/
theorem receivers_stable (host : Host) (natives : List Native) (runs : List (Nat × String)) :
    let s := Session.start host natives
    let W := World.ofLaunches (s.launches runs)
    (∀ f cell, Reserves W.reached f cell → ∀ σ, s.ComesTo runs σ → f < σ.scopes.size →
      σ.scopes.cells[f]? = some cell) ∧
    (∀ σ, s.ComesTo runs σ → ∀ f name v, name = "this" ∨ name = "super" →
      σ.scopes.local? f name = some v → ∃ cell, Reserves W.reached f cell) ∧
    (∀ fuel e σ₀ o σ method, W.reached ⟨fuel, .evaluate e, σ₀⟩ →
      Obtains ⟨fuel, .evaluate e, σ₀⟩ o σ method →
      ∃ f serial σ₁, Eval.evaluate fuel e σ₀ = .ok (.bound serial f) σ₁ ∧ Obtained W.reached o f) ∧
    (∀ σ, s.ComesTo runs σ → ∀ serial f,
      (∃ g name, σ.scopes.local? g name = some (.bound serial f)) ∨
        (∃ o name, σ.field? o name = some (.bound serial f)) → ∃ o, Obtained W.reached o f) ∧
    ∀ n id keyword σ, W.reached ⟨n + 1, .evaluate (.this id keyword), σ⟩ →
      ∃ o f, Obtained W.reached o f ∧ (∀ o', Obtained W.reached o' f → o' = o) ∧
        (∃ v k m values τ, W.visited v ∧ v.reference = ⟨.this, id, keyword⟩ ∧
          InBodyOf f.declaration k v.sites ∧ W.reached ⟨m + 1, .invoke f values, τ⟩ ∧
          σ.scopes.ancestor? k σ.current = some τ.scopes.size) ∧
        Eval.evaluate (n + 1) (.this id keyword) σ = .ok (.object o) σ := by
  intro s W
  have guarded : ∀ {σ}, s.ComesTo runs σ → σ.Guarded (.ofSession host natives runs) :=
    fun comes => Invariant.state_of_comesTo
      (I := .guarding (.ofSession host natives runs) Execution.single_ofSession)
      State.guarded_start comes
  refine ⟨fun f cell reserves σ comes => (guarded comes).kept reserves, ?_, ?_, ?_, ?_⟩
  · intro σ comes f name v word held
    refine (guarded comes).only held fun named => ?_
    exact word.elim named.1 named.2
  · intro fuel e σ₀ o σ method reached obtains
    obtain ⟨σ₁, evaluates⟩ := obtains.evaluate
    exact ⟨_, _, σ₁, evaluates, _, σ, method, reached, obtains, rfl⟩
  · rintro σ comes serial f (⟨g, name, held⟩ | ⟨o, name, held⟩)
    · exact (guarded comes).scopes held
    · exact (guarded comes).fields held
  · rintro n id keyword σ ⟨⟨fuel, l⟩, launched, reached⟩
    exact evaluate_this launched reached

end ClassScript
