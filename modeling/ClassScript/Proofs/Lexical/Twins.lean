import ClassScript.Proofs.Execution.Points
import ClassScript.Proofs.Lexical.Related

set_option autoImplicit false

/-!
# The two interpreters side by side

A twin is a state of the running program next to a memory of the lexical interpreter.  They match if
every local name is in a scope and at a location of its own with the same value, and globals, fields
and everything else are the same.  Each of the few ways in which a state changes has its counterpart
in the memory.
-/

namespace ClassScript

open Lexical (Environment Memory)

/-! ## Worlds -/

/-- What is known from outside: the visits of the programs that ever run, and the points and the
scopes of all their executions. -/
structure World where
  visited : Visit → Prop
  reached : Point → Prop
  opened : Nat → Site → Prop
  calls : ∀ {p q : Point}, reached p → Calls p q → reached q
  opens : ∀ {p : Point} {f : Nat} {site : Site}, reached p → Opens p f site → opened f site

/-- A name is assigned within its own initializer. -/
def Visit.AssignsUnborn (v : Visit) : Prop :=
  v.reference.kind = .assign ∧ stageIn v.scopes v.name = some .declared

instance : DecidablePred Visit.AssignsUnborn := fun v =>
  inferInstanceAs
    (Decidable (v.reference.kind = .assign ∧ stageIn v.scopes v.name = some .declared))

/-! ## Twins -/

/-- A state and a memory, and the location that stands for each name of a scope. -/
structure Twin where
  state : State
  memory : Memory
  place : Nat → String → Option Nat

namespace Twin

/-- What the twin knows of scopes and maps. -/
def view (W : World) (c : Twin) : View where
  visited := W.visited
  opened := W.opened
  scopes := c.state.scopes
  captured := c.memory.captured
  place := c.place

/-- Nothing lies around the globals. -/
structure Rooted (s : Scopes Value) : Prop where
  outermost : s.enclosing? globalScope = none
  inhabited : globalScope < s.size

/-- The same was printed and asked for. -/
structure SameEffects (σ : State) (m : Memory) : Prop where
  printed : m.printed = σ.printed
  clockReads : m.clockReads = σ.clockReads
  nextSerial : m.nextSerial = σ.nextSerial
  host : m.host = σ.host

/-- The visits of the walk are legal and have the distances that the walk records. -/
def Settled (W : World) (distances : Distances) : Prop :=
  ∀ v, W.visited v → v.Legal ∧ v.reference.Spelled ∧
    distances.get? v.id = distance? v.name v.scopes

/-- The state and the memory are those of the same program at the same moment. -/
structure Matched (W : World) (c : Twin) : Prop where
  globals : ∀ name, Option.Rel (SameValue (c.view W)) (c.state.scopes.local? globalScope name)
    (c.memory.globals.get? name)
  placed : ∀ f name v, f ≠ globalScope → c.state.scopes.local? f name = some v →
    ∃ location w, c.place f name = some location ∧ c.memory.cells[location]? = some w ∧
      SameValue (c.view W) v w
  owned : ∀ f name location, c.place f name = some location →
    f ≠ globalScope ∧ ∃ v, c.state.scopes.local? f name = some v
  apart : ∀ f g name other location, c.place f name = some location →
    c.place g other = some location → f = g ∧ name = other
  rooted : Rooted c.state.scopes
  fields : List.Forall₂ (Bindings.Same (SameValue (c.view W))) c.state.fields.toList
    c.memory.fields.toList
  effects : SameEffects c.state c.memory
  settled : Settled W c.state.distances

/-- What running a part of the program does to a twin: nothing known is lost, and no scope that was
there gets new names, except one that may be free to. -/
structure Grown (W : World) (free : Option Nat) (c c' : Twin) : Prop where
  kept : (c.view W).Kept (c'.view W)
  size : c.state.scopes.size ≤ c'.state.scopes.size
  closed : ∀ f < c.state.scopes.size, some f ≠ free → ∀ name,
    c.state.scopes.local? f name = none → c'.state.scopes.local? f name = none
  current : c'.state.current = c.state.current
  distances : c'.state.distances = c.state.distances

namespace Rooted

variable {s : Scopes Value}

theorem define (h : Rooted s) (f : Nat) (name : String) (v : Value) :
    Rooted (s.define f name v) := by
  refine ⟨?_, ?_⟩
  · rw [Scopes.enclosing?_define]
    exact h.outermost
  · rw [Scopes.size_define]
    exact h.inhabited

theorem push (h : Rooted s) (outside : Nat) : Rooted (s.push [] (some outside)) := by
  refine ⟨?_, ?_⟩
  · rw [Scopes.enclosing?_push, if_neg (Nat.ne_of_lt h.inhabited)]
    exact h.outermost
  · rw [Scopes.size_push]
    exact Nat.lt_succ_of_lt h.inhabited

end Rooted

variable {W : World} {free : Option Nat} {c c₁ c' : Twin}

namespace Grown

theorem refl (W : World) (free : Option Nat) (c : Twin) : c.Grown W free c :=
  ⟨.refl _, Nat.le_refl _, fun _ _ _ _ h => h, rfl, rfl⟩

theorem trans (h : c.Grown W free c₁) (k : c₁.Grown W free c') : c.Grown W free c' where
  kept := h.kept.trans k.kept
  size := Nat.le_trans h.size k.size
  closed f hf other name absent :=
    k.closed f (Nat.lt_of_lt_of_le hf h.size) other name (h.closed f hf other name absent)
  current := k.current.trans h.current
  distances := k.distances.trans h.distances

theorem widen (h : c.Grown W none c') : c.Grown W free c' :=
  ⟨h.kept, h.size, fun f hf _ => h.closed f hf (Option.some_ne_none f), h.current, h.distances⟩

/-- A scope that was not there yet may get names. -/
theorem narrow {f : Nat} (h : c.Grown W (some f) c') (fresh : c.state.scopes.size ≤ f) :
    c.Grown W none c' := by
  refine ⟨h.kept, h.size, fun g hg _ => h.closed g hg ?_, h.current, h.distances⟩
  rintro ⟨⟩
  exact absurd hg (Nat.not_lt.2 fresh)

end Grown

/-! ## Reading -/

/-- Among the globals, a name is found directly. -/
theorem Matched.get?_globalScope (m : c.Matched W) (name : String) :
    c.state.scopes.get? globalScope name = c.state.scopes.local? globalScope name := by
  unfold Scopes.get? Scopes.owner? Scopes.ownerWithin
  rw [m.rooted.outermost]
  cases h : c.state.scopes.local? globalScope name <;> simp [h]

/-- Among the globals, a name is owned or nowhere. -/
theorem Matched.owner?_globalScope (m : c.Matched W) (name : String) :
    c.state.scopes.owner? globalScope name =
      if (c.state.scopes.local? globalScope name).isSome then some globalScope else none := by
  unfold Scopes.owner? Scopes.ownerWithin
  rw [m.rooted.outermost]
  rfl

/-- A local name is found by its distance and by its place, with the same value. -/
theorem Matched.found (m : c.Matched W) {sites : List Site} {frames : List Frame} {f d : Nat}
    {env : Environment} {name : String} (laid : Laid (c.view W) sites frames f env)
    (hd : distance? name frames = some d) :
    ∃ g v location w, c.state.scopes.ancestor? d f = some g ∧ g ≠ globalScope ∧
      c.state.scopes.local? g name = some v ∧ v.Fits name ∧ c.place g name = some location ∧
      env.location? name = some location ∧ c.memory.cells[location]? = some w ∧
      SameValue (c.view W) v w := by
  obtain ⟨g, site, v, location, up, ⟨outer, inner⟩, -, -, hv, fits, hl, he⟩ := laid.found hd
  have inside : g ≠ globalScope := by
    rintro rfl
    exact absurd (m.rooted.outermost.symm.trans inner) (by simp)
  obtain ⟨location', w, hl', hw, same⟩ := m.placed g name v inside hv
  obtain rfl : location' = location := Option.some.inj (hl'.symm.trans hl)
  exact ⟨g, v, location', w, up, inside, hv, fits, hl, he, hw, same⟩

/-! ## Changes without new names -/

/-- Nothing that values depend on is lost, and what holds values is the same. -/
theorem Matched.mono {W' : World} (m : c.Matched W) (kept : (c.view W).Kept (c'.view W'))
    (scopes : c'.state.scopes = c.state.scopes) (place : c'.place = c.place)
    (cells : c'.memory.cells = c.memory.cells) (globals : c'.memory.globals = c.memory.globals)
    (fields : c'.state.fields = c.state.fields) (fields' : c'.memory.fields = c.memory.fields)
    (effects : SameEffects c'.state c'.memory) (settled : Settled W' c'.state.distances) :
    c'.Matched W' where
  globals name := by
    rw [scopes, globals]
    exact (m.globals name).imp fun _ _ same => same.mono kept
  placed f name v inside hv := by
    rw [scopes] at hv
    obtain ⟨location, w, hl, hw, same⟩ := m.placed f name v inside hv
    exact ⟨location, w, by rw [place, hl], by rw [cells, hw], same.mono kept⟩
  owned f name location := by
    rw [place, scopes]
    exact m.owned f name location
  apart f g name other location := by
    rw [place]
    exact m.apart f g name other location
  rooted := by
    rw [scopes]
    exact m.rooted
  fields := by
    rw [fields, fields']
    exact List.Forall₂.imp (fun _ _ h => h.imp fun _ _ hv => hv.mono kept) m.fields
  effects := effects
  settled := settled

/-- The twin in another scope. -/
def moveTo (c : Twin) (f : Nat) : Twin := { c with state := { c.state with current := f } }

theorem Matched.moveTo (m : c.Matched W) (f : Nat) : (c.moveTo f).Matched W :=
  { m with effects := { m.effects with } }

/-- A closure keeps a map. -/
def capture (c : Twin) (env : Environment) : Twin :=
  { c with memory := { c.memory with captured := c.memory.captured.push env } }

theorem kept_capture (W : World) (c : Twin) (env : Environment) :
    (c.view W).Kept ((c.capture env).view W) := by
  refine { View.Kept.refl (c.view W) with captured := fun i env' hi => ?_ }
  have bound : i < c.memory.captured.size := (Array.getElem?_eq_some_iff.1 hi).1
  change (c.memory.captured.push env)[i]? = some env'
  rw [Array.getElem?_push, if_neg (Nat.ne_of_lt bound)]
  exact hi

theorem Matched.capture (m : c.Matched W) (env : Environment) : (c.capture env).Matched W :=
  m.mono (kept_capture W c env) rfl rfl rfl rfl rfl rfl
    { m.effects with } m.settled

theorem grown_capture (W : World) (c : Twin) (env : Environment) :
    c.Grown W none (c.capture env) :=
  ⟨kept_capture W c env, Nat.le_refl _, fun _ _ _ _ h => h, rfl, rfl⟩

theorem captured_capture (c : Twin) (env : Environment) :
    (c.capture env).memory.captured[c.memory.captured.size]? = some env :=
  Array.getElem?_push_size

/-! ## New scopes -/

/-- A scope without names is opened inside another. -/
def enter (c : Twin) (outside : Nat) : Twin :=
  { c with state := { c.state with scopes := c.state.scopes.push [] (some outside) } }

theorem local?_enter (c : Twin) (outside f : Nat) (name : String) :
    (c.enter outside).state.scopes.local? f name =
      if f = c.state.scopes.size then none else c.state.scopes.local? f name :=
  Scopes.local?_push ..

theorem kept_enter (W : World) (c : Twin) (outside : Nat) :
    (c.view W).Kept ((c.enter outside).view W) := by
  refine { View.Kept.refl (c.view W) with enclosing := fun f g h => ?_, owned := fun f name v h => ?_ }
  · change (c.state.scopes.push [] (some outside)).enclosing? f = some g
    have bound : f < c.state.scopes.size := Scopes.enclosing?_bound h
    rw [Scopes.enclosing?_push, if_neg (Nat.ne_of_lt bound)]
    exact h
  · refine ⟨v, ?_, fun fits => fits⟩
    change (c.enter outside).state.scopes.local? f name = some v
    have bound : f < c.state.scopes.size := Scopes.local?_bound h
    rw [local?_enter, if_neg (Nat.ne_of_lt bound)]
    exact h

theorem grown_enter (W : World) (c : Twin) (outside : Nat) :
    c.Grown W none (c.enter outside) where
  kept := kept_enter W c outside
  size := by
    change c.state.scopes.size ≤ (c.state.scopes.push [] (some outside)).size
    simp
  closed f hf _ name absent := by
    rw [local?_enter, if_neg (Nat.ne_of_lt hf)]
    exact absent
  current := rfl
  distances := rfl

theorem Matched.enter (m : c.Matched W) (outside : Nat) : (c.enter outside).Matched W where
  globals name := by
    rw [local?_enter, if_neg (Nat.ne_of_lt m.rooted.inhabited)]
    exact (m.globals name).imp fun _ _ same => same.mono (kept_enter W c outside)
  placed f name v inside hv := by
    rw [local?_enter] at hv
    split at hv
    · cases hv
    · obtain ⟨location, w, hl, hw, same⟩ := m.placed f name v inside hv
      exact ⟨location, w, hl, hw, same.mono (kept_enter W c outside)⟩
  owned f name location hl := by
    obtain ⟨inside, v, hv⟩ := m.owned f name location hl
    refine ⟨inside, v, ?_⟩
    rw [local?_enter, if_neg (Nat.ne_of_lt (Scopes.local?_bound hv))]
    exact hv
  apart := m.apart
  rooted := m.rooted.push outside
  fields := List.Forall₂.imp
    (fun _ _ h => h.imp fun _ _ hv => hv.mono (kept_enter W c outside)) m.fields
  effects := { m.effects with }
  settled := m.settled

end Twin

end ClassScript
