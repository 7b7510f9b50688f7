import ClassScript.Proofs.Lexical.Twins

set_option autoImplicit false

/-!
# Names and fields of twins

A name that is new to a scope gets a location that is new to the memory; a name that is there keeps
its location and changes what is stored in it.  Either way the scopes stay laid out, with one name
more in the innermost frame if the name was new.
-/

namespace ClassScript

open Lexical (Environment Memory)

namespace Twin

variable {W : World} {c : Twin} {f : Nat} {name : String} {v w : Value}

/-! ## What defining a name does to scopes -/

theorem local?_define_self {s : Scopes Value} (hf : f < s.size) :
    (s.define f name v).local? f name = some v := by
  rw [Scopes.local?_define, if_pos ⟨rfl, hf, rfl⟩]

theorem local?_define_of_ne {s : Scopes Value} {g : Nat} {other : String}
    (h : ¬(f = g ∧ other = name)) : (s.define f name v).local? g other = s.local? g other := by
  rw [Scopes.local?_define, if_neg]
  rintro ⟨same, -, same'⟩
  exact h ⟨same, same'⟩

/-- Giving a name a value twice is giving it the second. -/
theorem define_define (s : Scopes Value) (f : Nat) (name : String) (u v : Value) :
    (s.define f name u).define f name v = s.define f name v := by
  have puts : ∀ b : Bindings Value, (b.put name u).put name v = b.put name v := by
    intro b
    induction b with
    | nil => simp [Bindings.put]
    | cons p rest ih =>
      obtain ⟨n, x⟩ := p
      by_cases h : n = name <;> simp [Bindings.put, h, ih]
  have cells : ((s.define f name u).define f name v).cells = (s.define f name v).cells := by
    apply Array.ext_getElem?
    intro i
    rw [Scopes.cells_define, Scopes.cells_define, Scopes.cells_define]
    split
    · cases s.cells[i]? <;> simp [puts]
    · rfl
  exact congrArg Scopes.mk cells

/-- Opening a scope with a name is opening one and giving it the name. -/
theorem push_define (s : Scopes Value) (b : Bindings Value) (outside : Option Nat) (name : String)
    (v : Value) : (s.push b outside).define s.size name v = s.push (b.put name v) outside := by
  have cells : ((s.push b outside).define s.size name v).cells =
      (s.push (b.put name v) outside).cells := by
    apply Array.ext_getElem?
    intro i
    rw [Scopes.cells_define, Scopes.cells_push, Scopes.cells_push]
    by_cases h : i = s.size
    · simp [h]
    · simp [h, Ne.symm h]
  exact congrArg Scopes.mk cells

/-- No other scope gets a name. -/
theorem closed_define {s : Scopes Value} {g : Nat} {n : String} (other : some g ≠ some f)
    (missing : s.local? g n = none) : (s.define f name v).local? g n = none := by
  rw [local?_define_of_ne]
  · exact missing
  · rintro ⟨rfl, -⟩
    exact other rfl

/-- A name that is there is none that a scope gets. -/
theorem closed_define_of_present {s : Scopes Value} {g : Nat} {n : String} {u : Value}
    (present : s.local? f name = some u) (missing : s.local? g n = none) :
    (s.define f name v).local? g n = none := by
  rw [local?_define_of_ne]
  · exact missing
  · rintro ⟨rfl, rfl⟩
    rw [present] at missing
    cases missing

/-- A view with other scopes and places keeps the first, if one name was given a fitting value. -/
theorem kept_define {V' : View} (visited : V'.visited = W.visited) (opened : V'.opened = W.opened)
    (scopes : V'.scopes = c.state.scopes.define f name v)
    (captured : V'.captured = c.memory.captured) (fits : v.Fits name)
    (place : ∀ g other location, c.place g other = some location →
      V'.place g other = some location) : (c.view W).Kept V' where
  visited u hu := by
    rw [visited]
    exact hu
  opened g site hg := by
    rw [opened]
    exact hg
  enclosing g outer hg := by
    rw [scopes, Scopes.enclosing?_define]
    exact hg
  owned g other u hu := by
    rw [scopes, Scopes.local?_define]
    split
    · rename_i here
      obtain ⟨-, -, rfl⟩ := here
      exact ⟨v, rfl, fun _ => fits⟩
    · exact ⟨u, hu, fun h => h⟩
  place := place
  captured i env hi := by
    rw [captured]
    exact hi

/-! ## A new local name -/

/-- A name is given a location of its own. -/
def declare (c : Twin) (f : Nat) (name : String) (v w : Value) : Twin where
  state := { c.state with scopes := c.state.scopes.define f name v }
  memory := { c.memory with cells := c.memory.cells.push w }
  place := fun g other => if g = f ∧ other = name then some c.memory.cells.size else c.place g other

/-- Locations that are in use come before the new one. -/
theorem Matched.place_bound (m : c.Matched W) {g location : Nat} {other : String}
    (h : c.place g other = some location) : location < c.memory.cells.size := by
  obtain ⟨inside, u, hu⟩ := m.owned g other location h
  obtain ⟨location', x, hl, hx, -⟩ := m.placed g other u inside hu
  obtain rfl : location' = location := Option.some.inj (hl.symm.trans h)
  exact (Array.getElem?_eq_some_iff.1 hx).1

/-- A name that is new to its scope has no location yet. -/
theorem Matched.place_new (m : c.Matched W) (absent : c.state.scopes.local? f name = none) :
    c.place f name = none := by
  cases h : c.place f name with
  | none => rfl
  | some location =>
    obtain ⟨-, u, hu⟩ := m.owned f name location h
    rw [absent] at hu
    cases hu

theorem kept_declare (m : c.Matched W) (absent : c.state.scopes.local? f name = none)
    (fits : v.Fits name) : (c.view W).Kept ((c.declare f name v w).view W) := by
  refine kept_define rfl rfl rfl rfl fits fun g other location h => ?_
  change (if g = f ∧ other = name then _ else _) = _
  rw [if_neg]
  · exact h
  · rintro ⟨rfl, rfl⟩
    rw [m.place_new absent] at h
    cases h

theorem grown_declare (m : c.Matched W) (absent : c.state.scopes.local? f name = none)
    (fits : v.Fits name) : c.Grown W (some f) (c.declare f name v w) where
  kept := kept_declare m absent fits
  size := Nat.le_of_eq (Scopes.size_define ..).symm
  closed _ _ other _ := closed_define other
  current := rfl
  distances := rfl

theorem Matched.declare (m : c.Matched W) (inside : f ≠ globalScope)
    (bound : f < c.state.scopes.size) (absent : c.state.scopes.local? f name = none)
    (fits : v.Fits name) (same : SameValue (c.view W) v w) :
    (c.declare f name v w).Matched W where
  globals n := by
    change Option.Rel _ ((c.state.scopes.define f name v).local? globalScope n) _
    rw [local?_define_of_ne (fun h => inside h.1)]
    exact (m.globals n).imp fun _ _ h => h.mono (kept_declare m absent fits)
  placed g n u hg hu := by
    change (c.state.scopes.define f name v).local? g n = some u at hu
    by_cases here : g = f ∧ n = name
    · obtain ⟨rfl, rfl⟩ := here
      rw [local?_define_self bound] at hu
      obtain rfl := Option.some.inj hu
      exact ⟨c.memory.cells.size, w, if_pos ⟨rfl, rfl⟩, Array.getElem?_push_size,
        same.mono (kept_declare m absent fits)⟩
    · rw [local?_define_of_ne (fun h => here ⟨h.1.symm, h.2⟩)] at hu
      obtain ⟨location, x, hl, hx, h⟩ := m.placed g n u hg hu
      refine ⟨location, x, (if_neg here).trans hl, ?_, h.mono (kept_declare m absent fits)⟩
      change (c.memory.cells.push w)[location]? = some x
      rw [Array.getElem?_push, if_neg (Nat.ne_of_lt (m.place_bound hl))]
      exact hx
  owned g n location hl := by
    change g ≠ globalScope ∧ ∃ u, (c.state.scopes.define f name v).local? g n = some u
    change (if g = f ∧ n = name then _ else _) = _ at hl
    by_cases here : g = f ∧ n = name
    · obtain ⟨rfl, rfl⟩ := here
      exact ⟨inside, v, local?_define_self bound⟩
    · rw [if_neg here] at hl
      rw [local?_define_of_ne (fun h => here ⟨h.1.symm, h.2⟩)]
      exact m.owned g n location hl
  apart g g' n n' location hl hl' := by
    change (if g = f ∧ n = name then _ else _) = _ at hl
    change (if g' = f ∧ n' = name then _ else _) = _ at hl'
    by_cases here : g = f ∧ n = name
    · by_cases here' : g' = f ∧ n' = name
      · exact ⟨here.1.trans here'.1.symm, here.2.trans here'.2.symm⟩
      · rw [if_pos here] at hl
        rw [if_neg here'] at hl'
        have bound := m.place_bound hl'
        exact absurd (Option.some.inj hl) (Nat.ne_of_gt bound)
    · by_cases here' : g' = f ∧ n' = name
      · rw [if_neg here] at hl
        rw [if_pos here'] at hl'
        have bound := m.place_bound hl
        exact absurd (Option.some.inj hl') (Nat.ne_of_gt bound)
      · rw [if_neg here] at hl
        rw [if_neg here'] at hl'
        exact m.apart g g' n n' location hl hl'
  rooted := m.rooted.define ..
  fields := List.Forall₂.imp
    (fun _ _ h => h.imp fun _ _ hv => hv.mono (kept_declare m absent fits)) m.fields
  effects := { m.effects with }
  settled := m.settled

/-! ## A local name that is there -/

/-- The value of a name changes, in its scope and at its location. -/
def store (c : Twin) (f : Nat) (name : String) (location : Nat) (v w : Value) : Twin where
  state := { c.state with scopes := c.state.scopes.define f name v }
  memory := { c.memory with cells := c.memory.cells.setIfInBounds location w }
  place := c.place

theorem grown_store {location : Nat} {u : Value} (present : c.state.scopes.local? f name = some u)
    (fits : v.Fits name) : c.Grown W none (c.store f name location v w) where
  kept := kept_define rfl rfl rfl rfl fits fun _ _ _ h => h
  size := Nat.le_of_eq (Scopes.size_define ..).symm
  closed _ _ _ _ := closed_define_of_present present
  current := rfl
  distances := rfl

theorem Matched.store {location : Nat} {u : Value} (m : c.Matched W)
    (present : c.state.scopes.local? f name = some u) (place : c.place f name = some location)
    (fits : v.Fits name) (same : SameValue (c.view W) v w) :
    (c.store f name location v w).Matched W := by
  have grown : c.Grown W none (c.store f name location v w) := grown_store present fits
  have kept := grown.kept
  obtain ⟨inside, -⟩ := m.owned f name location place
  refine
    { globals := fun n => ?_
      placed := fun g n x hg hx => ?_
      owned := fun g n other hl => ?_
      apart := m.apart
      rooted := m.rooted.define ..
      fields := List.Forall₂.imp (fun _ _ h => h.imp fun _ _ hv => hv.mono kept) m.fields
      effects := { m.effects with }
      settled := m.settled }
  · change Option.Rel _ ((c.state.scopes.define f name v).local? globalScope n) _
    rw [local?_define_of_ne (fun h => inside h.1)]
    exact (m.globals n).imp fun _ _ h => h.mono kept
  · change (c.state.scopes.define f name v).local? g n = some x at hx
    by_cases here : g = f ∧ n = name
    · obtain ⟨rfl, rfl⟩ := here
      rw [local?_define_self (Scopes.local?_bound present)] at hx
      obtain rfl := Option.some.inj hx
      refine ⟨location, w, place, ?_, same.mono kept⟩
      change (c.memory.cells.setIfInBounds location w)[location]? = some w
      rw [Array.getElem?_setIfInBounds_self_of_lt (m.place_bound place)]
    · rw [local?_define_of_ne (fun h => here ⟨h.1.symm, h.2⟩)] at hx
      obtain ⟨other, y, hl, hy, h⟩ := m.placed g n x hg hx
      refine ⟨other, y, hl, ?_, h.mono kept⟩
      change (c.memory.cells.setIfInBounds location w)[other]? = some y
      rw [Array.getElem?_setIfInBounds_ne]
      · exact hy
      · rintro rfl
        exact here (m.apart g f n name _ hl place)
  · obtain ⟨hg, x, hx⟩ := m.owned g n other hl
    obtain ⟨x', hx', -⟩ := kept.owned g n x hx
    exact ⟨hg, x', hx'⟩

/-! ## Globals -/

/-- A global is given a value. -/
def putGlobal (c : Twin) (name : String) (v w : Value) : Twin where
  state := { c.state with scopes := c.state.scopes.define globalScope name v }
  memory := { c.memory with globals := c.memory.globals.put name w }
  place := c.place

theorem kept_putGlobal (W : World) (c : Twin) (w : Value) (fits : v.Fits name) :
    (c.view W).Kept ((c.putGlobal name v w).view W) :=
  kept_define rfl rfl rfl rfl fits fun _ _ _ h => h

theorem grown_putGlobal (W : World) (c : Twin) (w : Value) (fits : v.Fits name) :
    c.Grown W (some globalScope) (c.putGlobal name v w) where
  kept := kept_putGlobal W c w fits
  size := Nat.le_of_eq (Scopes.size_define ..).symm
  closed _ _ other _ := closed_define other
  current := rfl
  distances := rfl

/-- A global that is there gets no new name. -/
theorem grown_putGlobal_of_present {u : Value} (w : Value) (fits : v.Fits name)
    (present : c.state.scopes.local? globalScope name = some u) :
    c.Grown W none (c.putGlobal name v w) where
  kept := kept_putGlobal W c w fits
  size := (grown_putGlobal W c w fits).size
  closed _ _ _ _ := closed_define_of_present present
  current := rfl
  distances := rfl

theorem Matched.putGlobal (m : c.Matched W) (fits : v.Fits name)
    (same : SameValue (c.view W) v w) : (c.putGlobal name v w).Matched W where
  globals n := by
    change Option.Rel _ ((c.state.scopes.define globalScope name v).local? globalScope n)
      ((c.memory.globals.put name w).get? n)
    rw [Scopes.local?_define, Bindings.get?_put]
    by_cases here : n = name
    · rw [if_pos ⟨rfl, m.rooted.inhabited, here⟩, if_pos here]
      exact .some (same.mono (kept_putGlobal W c w fits))
    · rw [if_neg (fun h => here h.2.2), if_neg here]
      exact (m.globals n).imp fun _ _ h => h.mono (kept_putGlobal W c w fits)
  placed g n u hg hu := by
    change (c.state.scopes.define globalScope name v).local? g n = some u at hu
    rw [local?_define_of_ne (fun h => hg h.1.symm)] at hu
    obtain ⟨location, x, hl, hx, h⟩ := m.placed g n u hg hu
    exact ⟨location, x, hl, hx, h.mono (kept_putGlobal W c w fits)⟩
  owned g n location hl := by
    obtain ⟨hg, u, hu⟩ := m.owned g n location hl
    obtain ⟨u', hu', -⟩ := (kept_putGlobal W c w fits).owned g n u hu
    exact ⟨hg, u', hu'⟩
  apart := m.apart
  rooted := m.rooted.define ..
  fields := List.Forall₂.imp
    (fun _ _ h => h.imp fun _ _ hv => hv.mono (kept_putGlobal W c w fits)) m.fields
  effects := { m.effects with }
  settled := m.settled

/-! ## Effects -/

/-- A line is printed. -/
def print (c : Twin) (text : String) : Twin where
  state := { c.state with printed := c.state.printed.push text }
  memory := { c.memory with printed := c.memory.printed.push text }
  place := c.place

theorem Matched.print (m : c.Matched W) (text : String) : (c.print text).Matched W :=
  { m with effects :=
      { m.effects with printed := congrArg (·.push text) m.effects.printed } }

/-- The clock is read. -/
def readClock (c : Twin) : Twin where
  state := { c.state with clockReads := c.state.clockReads + 1 }
  memory := { c.memory with clockReads := c.memory.clockReads + 1 }
  place := c.place

theorem Matched.readClock (m : c.Matched W) : c.readClock.Matched W :=
  { m with effects :=
      { m.effects with clockReads := congrArg (· + 1) m.effects.clockReads } }

/-- An identity is used up. -/
def freshSerial (c : Twin) : Twin where
  state := { c.state with nextSerial := c.state.nextSerial + 1 }
  memory := { c.memory with nextSerial := c.memory.nextSerial + 1 }
  place := c.place

theorem Matched.freshSerial (m : c.Matched W) : c.freshSerial.Matched W :=
  { m with effects :=
      { m.effects with nextSerial := congrArg (· + 1) m.effects.nextSerial } }

/-- What leaves scopes and maps alone makes no scope grow. -/
theorem grown_quiet {c' : Twin} (view : c'.view W = c.view W)
    (current : c'.state.current = c.state.current)
    (distances : c'.state.distances = c.state.distances) : c.Grown W none c' := by
  have scopes : c'.state.scopes = c.state.scopes := congrArg View.scopes view
  have size : c.state.scopes.size = c'.state.scopes.size := congrArg Scopes.size scopes.symm
  refine ⟨?_, Nat.le_of_eq size, fun f _ _ name absent => ?_, current, distances⟩
  · rw [view]
    exact .refl _
  · rw [scopes]
    exact absent

/-! ## Fields -/

/-- A field of an instance is given a value. -/
def setField (c : Twin) (id : Nat) (name : String) (v w : Value) : Twin where
  state := { c.state with fields := c.state.fields.modify id fun fields => fields.put name v }
  memory := { c.memory with fields := c.memory.fields.modify id fun fields => fields.put name w }
  place := c.place

/-- An instance is made. -/
def allocate (c : Twin) : Twin where
  state := { c.state with fields := c.state.fields.push [] }
  memory := { c.memory with fields := c.memory.fields.push [] }
  place := c.place

theorem grown_setField (W : World) (c : Twin) (id : Nat) (name : String) (v w : Value) :
    c.Grown W none (c.setField id name v w) :=
  grown_quiet rfl rfl rfl

theorem Matched.setField (m : c.Matched W) (id : Nat) (name : String)
    (same : SameValue (c.view W) v w) : (c.setField id name v w).Matched W :=
  { m with fields := Bindings.Same.modify m.fields id name same, effects := { m.effects with } }

theorem grown_allocate (W : World) (c : Twin) : c.Grown W none c.allocate :=
  grown_quiet rfl rfl rfl

theorem Matched.allocate (m : c.Matched W) : c.allocate.Matched W :=
  { m with fields := Bindings.Same.push m.fields, effects := { m.effects with } }

theorem Matched.size_fields (m : c.Matched W) : c.memory.fields.size = c.state.fields.size :=
  m.fields.length_eq.symm

/-- The fields of an instance are the same. -/
theorem Matched.field? (m : c.Matched W) (id : Nat) (name : String) :
    Option.Rel (SameValue (c.view W)) (c.state.fields[id]?.bind fun fields => fields.get? name)
      (c.memory.fields[id]?.bind fun fields => fields.get? name) :=
  Bindings.Same.field? m.fields id name

end Twin

/-! ## The innermost frame -/

/-- The scope has no name that the innermost frame does not have. -/
def Exact (scopes : Scopes Value) (frames : List Frame) (f : Nat) : Prop :=
  frames ≠ [] → ∀ name, stageIn frames name = none → scopes.local? f name = none

namespace Laid

variable {V V' : View} {site : Site} {sites : List Site} {frame frame' : Frame}
  {frames : List Frame} {f g location : Nat} {env : Environment} {name : String} {v : Value}

/-- A scope without names is opened for a construct. -/
theorem enter (h : Laid V sites frames g env) (opened : V.opened f site)
    (enclosed : V.scopes.enclosing? f = some g) :
    Laid V (site :: sites) ([] :: frames) f env.enter := by
  refine .inside opened enclosed ?_ rfl ?_ h
  · intro name stage absent
    cases absent
  · intro name
    rfl

/-- The innermost scope has got a name more, at a location that the map has got as well. -/
theorem extend (h : Laid V (site :: sites) (frame :: frames) f env)
    (hv : V.scopes.local? f name = some v) (fits : v.Fits name)
    (place : V.place f name = some location)
    (lookup : ∀ other, frame'.lookup other =
      if other = name then some .defined else frame.lookup other) :
    Laid V (site :: sites) (frame' :: frames) f (env.extend name location) := by
  cases h with
  | inside opened enclosed has within names rest =>
    refine .inside opened enclosed (fun other stage hs => ?_) rfl (fun other => ?_) rest
    · rw [lookup] at hs
      split at hs
      · rename_i here
        subst here
        exact ⟨(Option.some.inj hs).symm, v, location, hv, fits, place⟩
      · exact has other stage hs
    · change (if other = name then some location else env.location? other) = _
      rw [lookup]
      split
      · rename_i here
        subst here
        simp [place]
      · exact names other

end Laid

theorem Exact.extend {scopes scopes' : Scopes Value} {frame frame' : Frame} {frames : List Frame}
    {f : Nat} {name : String} (h : Exact scopes (frame :: frames) f)
    (lookup : ∀ other, frame'.lookup other =
      if other = name then some .defined else frame.lookup other)
    (others : ∀ other, other ≠ name → scopes.local? f other = none →
      scopes'.local? f other = none) : Exact scopes' (frame' :: frames) f := by
  intro _ other absent
  change frame'.lookup other = none at absent
  rw [lookup] at absent
  split at absent
  · cases absent
  · rename_i different
    exact others other different (h (List.cons_ne_nil _ _) other absent)

end ClassScript
