import ClassScript.Proofs.Lexical.Twins
import ClassScript.Proofs.Likeness.Values

set_option autoImplicit false

/-!
# States that are alike

Two states are alike if their scopes and instances are the same one for one: they have the same
names, but for the change of names in the scopes that are marked, and values that are alike.  Each of
the few ways in which a state changes leaves two states alike if both of them change in that way.
-/

namespace ClassScript

/-! ## Bindings whose names are changed -/

namespace Bindings

variable {α : Type} {f : String → String}

/-- The same values under other names. -/
def rename (f : String → String) (b : Bindings α) : Bindings α :=
  b.map fun p => (f p.1, p.2)

theorem get?_rename (injective : Function.Injective f) (b : Bindings α) (name : String) :
    (b.rename f).get? (f name) = b.get? name := by
  induction b with
  | nil => rfl
  | cons p rest ih =>
    obtain ⟨n, v⟩ := p
    change (if f n = f name then some v else (rename f rest).get? (f name)) =
      if n = name then some v else get? name rest
    rw [ih]
    exact if_congr injective.eq_iff rfl rfl

theorem rename_put (injective : Function.Injective f) (b : Bindings α) (name : String)
    (value : α) : (b.put name value).rename f = (b.rename f).put (f name) value := by
  induction b with
  | nil => rfl
  | cons p rest ih =>
    obtain ⟨n, v⟩ := p
    change rename f (if n = name then (n, value) :: rest else (n, v) :: put name value rest) =
      if f n = f name then (f n, value) :: rename f rest
      else (f n, v) :: put (f name) value (rename f rest)
    by_cases same : n = name
    · rw [if_pos same, if_pos (congrArg f same)]
      rfl
    · rw [if_neg same, if_neg fun h => same (injective h), ← ih]
      rfl

theorem rename_ofPairs (injective : Function.Injective f) (pairs : List (String × α)) :
    (ofPairs pairs).rename f = ofPairs (pairs.map fun p => (f p.1, p.2)) := by
  have step : ∀ b : Bindings α, (pairs.foldl (fun b p => b.put p.1 p.2) b).rename f =
      (pairs.map fun p => (f p.1, p.2)).foldl (fun b p => b.put p.1 p.2) (b.rename f) := by
    induction pairs with
    | nil => exact fun _ => rfl
    | cons p pairs ih =>
      intro b
      rw [List.foldl_cons, List.map_cons, List.foldl_cons, ih, rename_put injective]
  exact step []

end Bindings

/-! ## Two states -/

/-- Two states side by side, and which of their scopes are marked. -/
structure Pair where
  left : State
  right : State
  marked : Nat → Bool

/-- Scopes in the same place with values that are alike, and the same names but for the change of
names. -/
structure Scope.Alike (K : Guise) (C : Chart) (mark : Bool) (a b : Scope Value) : Prop where
  enclosing : b.enclosing = a.enclosing
  bindings : Bindings.Same (Value.Alike K C) (a.bindings.rename (K.rename mark)) b.bindings

/-- The same was printed and asked for, in the same scope. -/
structure State.SameEffects (σ σ' : State) : Prop where
  current : σ'.current = σ.current
  printed : σ'.printed = σ.printed
  clockReads : σ'.clockReads = σ.clockReads
  nextSerial : σ'.nextSerial = σ.nextSerial
  host : σ'.host = σ.host

namespace Pair

/-- Where the scopes of the pair lie. -/
def chart (p : Pair) : Chart := ⟨p.left.scopes, p.marked⟩

/-- The states are those of programs that are alike, at the same moment. -/
structure Matched (K : Guise) (p : Pair) : Prop where
  scopes : ∀ f : Nat, Option.Rel (Scope.Alike K p.chart (p.marked f)) p.left.scopes.cells[f]?
    p.right.scopes.cells[f]?
  size : p.right.scopes.size = p.left.scopes.size
  outermost : p.left.scopes.enclosing? globalScope = none
  inhabited : globalScope < p.left.scopes.size
  plain : p.marked globalScope = false
  fields : List.Forall₂ (Bindings.Same (Value.Alike K p.chart)) p.left.fields.toList
    p.right.fields.toList
  effects : p.left.SameEffects p.right
  linked : ∀ id id' d, K.link id id' d →
    p.left.distances.get? id = d ∧ p.right.distances.get? id' = d

/-- What running a part of the programs does to a pair: nothing known is lost. -/
structure Grown (p p' : Pair) : Prop where
  kept : p.chart.Kept p'.chart
  current : p'.left.current = p.left.current

theorem Grown.refl (p : Pair) : p.Grown p := ⟨.refl _, rfl⟩

theorem Grown.trans {p p₁ p' : Pair} (h : p.Grown p₁) (k : p₁.Grown p') : p.Grown p' :=
  ⟨h.kept.trans k.kept, k.current.trans h.current⟩

variable {K : Guise} {p p' : Pair} {marks : List Bool} {f g d : Nat} {name : String}
  {v w : Value}

/-! ## Reading -/

namespace Matched

theorem enclosing? (m : p.Matched K) (f : Nat) :
    p.right.scopes.enclosing? f = p.left.scopes.enclosing? f := by
  unfold Scopes.enclosing?
  obtain ⟨hl, hr⟩ | ⟨a, b, hl, hr, same⟩ := (m.scopes f).both
  · rw [hl, hr]
  · rw [hl, hr]
    exact same.enclosing

/-- A name has values that are alike in the same scope, or none in either state. -/
theorem local? (m : p.Matched K) (f : Nat) (name : String) :
    Option.Rel (Value.Alike K p.chart) (p.left.scopes.local? f name)
      (p.right.scopes.local? f (K.rename (p.marked f) name)) := by
  unfold Scopes.local?
  obtain ⟨hl, hr⟩ | ⟨a, b, hl, hr, same⟩ := (m.scopes f).both
  · rw [hl, hr]
    exact .none
  · have found := same.bindings.get? (K.rename (p.marked f) name)
    rw [Bindings.get?_rename (K.rename_injective _)] at found
    rw [hl, hr]
    exact found

theorem ancestor? (m : p.Matched K) (d f : Nat) :
    p.right.scopes.ancestor? d f = p.left.scopes.ancestor? d f := by
  induction d generalizing f with
  | zero => rfl
  | succ d ih =>
    rw [Scopes.ancestor?, Scopes.ancestor?, m.enclosing?]
    exact congrArg _ (funext ih)

/-- The scope at a distance is marked as the marks say. -/
theorem marked_ancestor (m : p.Matched K) (along : p.chart.Along marks f)
    (up : p.left.scopes.ancestor? d f = some g) : p.marked g = markAt marks (some d) := by
  induction along generalizing d with
  | globals =>
    cases d with
    | zero =>
      cases up
      exact m.plain
    | succ d =>
      rw [Scopes.ancestor?, m.outermost] at up
      cases up
  | inside enclosed marked _ ih =>
    cases d with
    | zero =>
      cases up
      exact marked
    | succ d =>
      have outer : p.left.scopes.enclosing? _ = some _ := enclosed
      rw [Scopes.ancestor?, outer] at up
      exact ih up

theorem marked_current (m : p.Matched K) (along : p.chart.Along marks f) :
    p.marked f = marks.headD false := by
  cases along with
  | globals => exact m.plain
  | inside _ marked _ => exact marked

/-- A scope that lies somewhere is there. -/
theorem bound (m : p.Matched K) (along : p.chart.Along marks f) : f < p.left.scopes.size := by
  cases along with
  | globals => exact m.inhabited
  | inside enclosed _ _ => exact Scopes.enclosing?_bound enclosed

/-- At a distance, a name has values that are alike, or none in either state. -/
theorem getAt? (m : p.Matched K) (along : p.chart.Along marks f) (d : Nat) (name : String) :
    Option.Rel (Value.Alike K p.chart) (p.left.scopes.getAt? f d name)
      (p.right.scopes.getAt? f d (K.rename (markAt marks (some d)) name)) := by
  unfold Scopes.getAt?
  rw [m.ancestor?]
  cases up : p.left.scopes.ancestor? d f with
  | none => exact .none
  | some g =>
    rw [← m.marked_ancestor along up]
    exact m.local? g name

theorem isSome_local? (m : p.Matched K) (f : Nat) (name : String) :
    (p.right.scopes.local? f (K.rename (p.marked f) name)).isSome =
      (p.left.scopes.local? f name).isSome := by
  obtain ⟨hl, hr⟩ | ⟨v, w, hl, hr, -⟩ := (m.local? f name).both
  · rw [hl, hr]
  · rw [hl, hr]
    rfl

/-- The scope at a distance has a name in both states or in neither. -/
theorem ownerAt? (m : p.Matched K) (along : p.chart.Along marks f) (d : Nat) (name : String) :
    p.right.scopes.ownerAt? f d (K.rename (markAt marks (some d)) name) =
      p.left.scopes.ownerAt? f d name := by
  unfold Scopes.ownerAt?
  rw [m.ancestor?]
  cases up : p.left.scopes.ancestor? d f with
  | none => rfl
  | some g =>
    rw [← m.marked_ancestor along up, Option.filter_some, Option.filter_some, m.isSome_local?]

theorem outermost_right (m : p.Matched K) : p.right.scopes.enclosing? globalScope = none :=
  (m.enclosing? globalScope).trans m.outermost

theorem global? (m : p.Matched K) (name : String) :
    Option.Rel (Value.Alike K p.chart) (p.left.global? name) (p.right.global? name) := by
  have found := m.local? globalScope name
  rwa [m.plain] at found

end Matched

/-- In the outermost scope, a name is found directly. -/
theorem owner?_outermost {s : Scopes Value} (h : s.enclosing? f = none) (name : String) :
    s.owner? f name = if (s.local? f name).isSome then some f else none := by
  unfold Scopes.owner? Scopes.ownerWithin
  rw [h]
  rfl

theorem get?_outermost {s : Scopes Value} (h : s.enclosing? f = none) (name : String) :
    s.get? f name = s.local? f name := by
  unfold Scopes.get?
  rw [owner?_outermost h]
  cases found : s.local? f name with
  | none => rfl
  | some v => exact found

/-- A scope owns the names that it has itself. -/
theorem owner?_local {s : Scopes Value} (h : s.local? f name = some v) :
    s.owner? f name = some f := by
  unfold Scopes.owner? Scopes.ownerWithin
  rw [h]
  rfl

/-! ## Changes that leave the scopes alone -/

/-- Both states in another scope. -/
def moveTo (p : Pair) (f : Nat) : Pair where
  left := { p.left with current := f }
  right := { p.right with current := f }
  marked := p.marked

theorem Matched.moveTo (m : p.Matched K) (f : Nat) : (p.moveTo f).Matched K :=
  { m with effects := { m.effects with current := rfl } }

/-- A line is printed. -/
def print (p : Pair) (text : String) : Pair where
  left := { p.left with printed := p.left.printed.push text }
  right := { p.right with printed := p.right.printed.push text }
  marked := p.marked

theorem Matched.print (m : p.Matched K) (text : String) : (p.print text).Matched K :=
  { m with effects :=
      { m.effects with printed := congrArg (·.push text) m.effects.printed } }

/-- The clock is read. -/
def readClock (p : Pair) : Pair where
  left := { p.left with clockReads := p.left.clockReads + 1 }
  right := { p.right with clockReads := p.right.clockReads + 1 }
  marked := p.marked

theorem Matched.readClock (m : p.Matched K) : p.readClock.Matched K :=
  { m with effects :=
      { m.effects with clockReads := congrArg (· + 1) m.effects.clockReads } }

/-- An identity is used up. -/
def freshSerial (p : Pair) : Pair where
  left := { p.left with nextSerial := p.left.nextSerial + 1 }
  right := { p.right with nextSerial := p.right.nextSerial + 1 }
  marked := p.marked

theorem Matched.freshSerial (m : p.Matched K) : p.freshSerial.Matched K :=
  { m with effects :=
      { m.effects with nextSerial := congrArg (· + 1) m.effects.nextSerial } }

/-- Where the scopes stay, nothing is lost. -/
theorem grown_quiet (chart : p'.chart = p.chart) (current : p'.left.current = p.left.current) :
    p.Grown p' := by
  refine ⟨?_, current⟩
  rw [chart]
  exact .refl _

/-! ## Fields -/

/-- A field of an instance is given a value. -/
def setField (p : Pair) (id : Nat) (name : String) (v w : Value) : Pair where
  left := { p.left with fields := p.left.fields.modify id fun fields => fields.put name v }
  right := { p.right with fields := p.right.fields.modify id fun fields => fields.put name w }
  marked := p.marked

theorem Matched.setField (m : p.Matched K) (id : Nat) (name : String)
    (same : v.Alike K p.chart w) : (p.setField id name v w).Matched K :=
  { m with fields := Bindings.Same.modify m.fields id name same, effects := { m.effects with } }

/-- An instance is made. -/
def allocate (p : Pair) : Pair where
  left := { p.left with fields := p.left.fields.push [] }
  right := { p.right with fields := p.right.fields.push [] }
  marked := p.marked

theorem Matched.allocate (m : p.Matched K) : p.allocate.Matched K :=
  { m with fields := Bindings.Same.push m.fields, effects := { m.effects with } }

theorem Matched.size_fields (m : p.Matched K) : p.right.fields.size = p.left.fields.size :=
  m.fields.length_eq.symm

/-- A field has values that are alike, or none in either state. -/
theorem Matched.field? (m : p.Matched K) (id : Nat) (name : String) :
    Option.Rel (Value.Alike K p.chart)
      (p.left.fields[id]?.bind fun fields => fields.get? name)
      (p.right.fields[id]?.bind fun fields => fields.get? name) :=
  Bindings.Same.field? m.fields id name

/-! ## Changes of scopes -/

/-- A name is given a value in a scope. -/
def define (K : Guise) (p : Pair) (f : Nat) (name : String) (v w : Value) : Pair where
  left := { p.left with scopes := p.left.scopes.define f name v }
  right := { p.right with scopes := p.right.scopes.define f (K.rename (p.marked f) name) w }
  marked := p.marked

theorem grown_define (K : Guise) (p : Pair) (f : Nat) (name : String) (v w : Value) :
    p.Grown (p.define K f name v w) := by
  refine ⟨fun g g' enclosed => ⟨?_, rfl⟩, rfl⟩
  change (p.left.scopes.define f name v).enclosing? g = some g'
  rw [Scopes.enclosing?_define]
  exact enclosed

theorem Matched.define (m : p.Matched K) (f : Nat) (name : String) (same : v.Alike K p.chart w) :
    (p.define K f name v w).Matched K := by
  have kept := (grown_define K p f name v w).kept
  refine
    { scopes := fun g => ?_
      size := ?_
      outermost := ?_
      inhabited := ?_
      plain := m.plain
      fields := List.Forall₂.imp (fun _ _ h => h.imp fun _ _ hv => hv.mono kept) m.fields
      effects := { m.effects with }
      linked := m.linked }
  · change Option.Rel (Scope.Alike K _ (p.marked g)) (p.left.scopes.define f name v).cells[g]?
      (p.right.scopes.define f (K.rename (p.marked f) name) w).cells[g]?
    rw [Scopes.cells_define, Scopes.cells_define]
    obtain ⟨hl, hr⟩ | ⟨a, b, hl, hr, alike⟩ := (m.scopes g).both
    · rw [hl, hr]
      split <;> exact .none
    · rw [hl, hr]
      have bindings := alike.bindings.imp fun _ _ hv => hv.mono kept
      split
      · rename_i here
        subst here
        refine .some ⟨alike.enclosing, ?_⟩
        dsimp only
        rw [Bindings.rename_put (K.rename_injective _)]
        exact bindings.put _ (same.mono kept)
      · exact .some ⟨alike.enclosing, bindings⟩
  · change (p.right.scopes.define f _ w).size = (p.left.scopes.define f name v).size
    rw [Scopes.size_define, Scopes.size_define, m.size]
  · change (p.left.scopes.define f name v).enclosing? globalScope = none
    rw [Scopes.enclosing?_define, m.outermost]
  · change globalScope < (p.left.scopes.define f name v).size
    rw [Scopes.size_define]
    exact m.inhabited

/-- A scope is opened inside another, marked or not. -/
def push (p : Pair) (b b' : Bindings Value) (outside : Nat) (mark : Bool) : Pair where
  left := { p.left with scopes := p.left.scopes.push b (some outside) }
  right := { p.right with scopes := p.right.scopes.push b' (some outside) }
  marked := Function.update p.marked p.left.scopes.size mark

theorem grown_push (p : Pair) (b b' : Bindings Value) (outside : Nat) (mark : Bool) :
    p.Grown (p.push b b' outside mark) := by
  refine ⟨fun f g enclosed => ?_, rfl⟩
  have old : f ≠ p.left.scopes.size := Nat.ne_of_lt (Scopes.enclosing?_bound enclosed)
  refine ⟨?_, Function.update_of_ne old ..⟩
  change (p.left.scopes.push b (some outside)).enclosing? f = some g
  rw [Scopes.enclosing?_push, if_neg old]
  exact enclosed

/-- The scope that was opened lies inside the other, and is marked as it was to be. -/
theorem along_push (b b' : Bindings Value) (mark : Bool) (along : p.chart.Along marks f) :
    (p.push b b' f mark).chart.Along (mark :: marks) p.left.scopes.size := by
  refine .inside ?_ (Function.update_self ..) (along.mono (grown_push p b b' f mark).kept)
  change (p.left.scopes.push b (some f)).enclosing? p.left.scopes.size = some f
  rw [Scopes.enclosing?_push, if_pos rfl]

theorem Matched.push (m : p.Matched K) {b b' : Bindings Value} (outside : Nat) (mark : Bool)
    (same : Bindings.Same (Value.Alike K p.chart) (b.rename (K.rename mark)) b') :
    (p.push b b' outside mark).Matched K := by
  have kept := (grown_push p b b' outside mark).kept
  have old : ∀ {g : Nat}, g ≠ p.left.scopes.size →
      (p.push b b' outside mark).marked g = p.marked g := fun h => Function.update_of_ne h ..
  have inside := Nat.ne_of_lt m.inhabited
  refine
    { scopes := fun g => ?_
      size := ?_
      outermost := ?_
      inhabited := ?_
      plain := (old inside).trans m.plain
      fields := List.Forall₂.imp (fun _ _ h => h.imp fun _ _ hv => hv.mono kept) m.fields
      effects := { m.effects with }
      linked := m.linked }
  · change Option.Rel _ (p.left.scopes.push b (some outside)).cells[g]?
      (p.right.scopes.push b' (some outside)).cells[g]?
    rw [Scopes.cells_push, Scopes.cells_push, m.size]
    split
    · rename_i new
      subst new
      refine .some ⟨rfl, ?_⟩
      rw [show (p.push b b' outside mark).marked p.left.scopes.size = mark from
        Function.update_self ..]
      exact same.imp fun _ _ hv => hv.mono kept
    · rename_i other
      rw [old other]
      exact (m.scopes g).imp fun _ _ alike =>
        ⟨alike.enclosing, alike.bindings.imp fun _ _ hv => hv.mono kept⟩
  · change (p.right.scopes.push b' _).size = (p.left.scopes.push b _).size
    rw [Scopes.size_push, Scopes.size_push, m.size]
  · change (p.left.scopes.push b _).enclosing? globalScope = none
    rw [Scopes.enclosing?_push, if_neg inside, m.outermost]
  · change globalScope < (p.left.scopes.push b _).size
    rw [Scopes.size_push]
    exact Nat.lt_succ_of_lt m.inhabited

end Pair

end ClassScript
