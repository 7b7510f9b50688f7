import ClassScript.Proofs.Binding.Declarations
import ClassScript.Proofs.Binding.Returning
import ClassScript.Proofs.Lexical.Interpreter
import ClassScript.Proofs.Scope.Related

set_option autoImplicit false

/-!
# Values of the two interpreters

A closure of the running program is closed over a scope, one of the lexical interpreter over a map.
The two are the same function if the scopes from the one outward are laid out like the scopes of the
binding walk at the declaration, and the map has the places of just the names in them.  All other
values are the same if their parts are.
-/

namespace ClassScript

open Lexical (Environment)

/-! ## Views -/

/-- What relating values depends on: the visits and the scopes that are known, and the locations
that stand for the names of scopes. -/
structure View where
  visited : Visit → Prop
  /-- A scope was opened for a construct. -/
  opened : Nat → Site → Prop
  scopes : Scopes Value
  captured : Array Environment
  /-- The location of a name in a scope. -/
  place : Nat → String → Option Nat

/-- The receiver is an instance, the superclass a class. -/
def Value.Fits (name : String) (v : Value) : Prop :=
  (name = "this" → ∃ o, v = .object o) ∧ (name = "super" → ∃ c, v = .ofClass c)

theorem Value.fits_of_isName {name : String} (h : IsName name) (v : Value) : v.Fits name :=
  ⟨fun this => absurd this h.1, fun super => absurd super h.2⟩

/-- Nothing that the first view knows is lost in the second: scopes keep their names and what
encloses them, names keep their places, and maps stay as they are. -/
structure View.Kept (V V' : View) : Prop where
  visited : ∀ v, V.visited v → V'.visited v
  opened : ∀ f site, V.opened f site → V'.opened f site
  enclosing : ∀ f g, V.scopes.enclosing? f = some g → V'.scopes.enclosing? f = some g
  owned : ∀ f name v, V.scopes.local? f name = some v →
    ∃ v', V'.scopes.local? f name = some v' ∧ (v.Fits name → v'.Fits name)
  place : ∀ f name location, V.place f name = some location → V'.place f name = some location
  captured : ∀ (i : Nat) env, V.captured[i]? = some env → V'.captured[i]? = some env

namespace View.Kept

variable {V V' V'' : View}

theorem refl (V : View) : V.Kept V :=
  ⟨fun _ h => h, fun _ _ h => h, fun _ _ h => h, fun _ _ v h => ⟨v, h, fun fits => fits⟩,
    fun _ _ _ h => h, fun _ _ h => h⟩

theorem trans (h : V.Kept V') (k : V'.Kept V'') : V.Kept V'' where
  visited v hv := k.visited v (h.visited v hv)
  opened f site hf := k.opened f site (h.opened f site hf)
  enclosing f g hf := k.enclosing f g (h.enclosing f g hf)
  owned f name v hv := by
    obtain ⟨v', hv', fits⟩ := h.owned f name v hv
    obtain ⟨v'', hv'', fits'⟩ := k.owned f name v' hv'
    exact ⟨v'', hv'', fun start => fits' (fits start)⟩
  place f name location hf := k.place f name location (h.place f name location hf)
  captured i env hi := k.captured i env (h.captured i env hi)

end View.Kept

/-! ## Scopes laid out like frames -/

/-- From a scope outward, there is one scope for each construct and each frame of the walk, and then
the globals.  A scope has the names of its frame, and the map has the places of all of them. -/
inductive Laid (V : View) : List Site → List Frame → Nat → Environment → Prop where
  | globals : Laid V [] [] globalScope .top
  | inside {site : Site} {sites : List Site} {frame : Frame} {frames : List Frame} {f g : Nat}
      {env outer : Environment} (opened : V.opened f site)
      (enclosed : V.scopes.enclosing? f = some g)
      (has : ∀ name stage, frame.lookup name = some stage → stage = .defined ∧
        ∃ v location, V.scopes.local? f name = some v ∧ v.Fits name ∧
          V.place f name = some location)
      (within : env.outermost = false)
      (names : ∀ name, env.location? name =
        if (frame.lookup name).isSome then V.place f name else outer.location? name)
      (rest : Laid V sites frames g outer) :
      Laid V (site :: sites) (frame :: frames) f env

namespace Laid

variable {V V' : View} {sites : List Site} {frames : List Frame} {f : Nat} {env : Environment}

theorem mono (h : Laid V sites frames f env) (kept : V.Kept V') :
    Laid V' sites frames f env := by
  induction h with
  | globals => exact .globals
  | inside opened enclosed has inner names rest ih =>
    rename_i site sites frame frames f g env outer
    apply Laid.inside (kept.opened _ _ opened) (kept.enclosing _ _ enclosed) _ inner _ ih
    · intro name stage hn
      obtain ⟨defined, v, location, hv, fits, hl⟩ := has name stage hn
      obtain ⟨v', hv', fits'⟩ := kept.owned _ _ _ hv
      exact ⟨defined, v', location, hv', fits' fits, kept.place _ _ _ hl⟩
    · intro name
      rw [names]
      cases hn : frame.lookup name with
      | none => rfl
      | some stage =>
        obtain ⟨-, v, location, -, -, hl⟩ := has name stage hn
        change V.place f name = V'.place f name
        rw [hl, kept.place _ _ _ hl]

theorem outermost (h : Laid V sites frames f env) : env.outermost = frames.isEmpty := by
  cases h with
  | globals => rfl
  | inside _ _ _ inner _ _ => exact inner

/-- No scope is open only outside, where the map is empty. -/
theorem nil_iff (h : Laid V sites frames f env) : frames = [] ↔ sites = [] := by
  cases h <;> simp

/-- A name that the frames have is in the scope at its distance, and the map has its place. -/
theorem found {name : String} {d : Nat} (h : Laid V sites frames f env)
    (hd : distance? name frames = some d) :
    ∃ g site v location, V.scopes.ancestor? d f = some g ∧
      (∃ outer, V.scopes.enclosing? g = some outer) ∧ sites[d]? = some site ∧
      V.opened g site ∧ V.scopes.local? g name = some v ∧ v.Fits name ∧
      V.place g name = some location ∧ env.location? name = some location := by
  induction h generalizing d with
  | globals => simp [distance?] at hd
  | inside opened enclosed has inner names rest ih =>
    rename_i site sites frame frames f g env outer
    cases hn : frame.lookup name with
    | some stage =>
      obtain rfl : 0 = d := by simpa [distance?, hn] using hd
      obtain ⟨-, v, location, hv, fits, hl⟩ := has name stage hn
      refine ⟨f, site, v, location, rfl, ⟨g, enclosed⟩, rfl, opened, hv, fits, hl, ?_⟩
      simp [names, hn, hl]
    | none =>
      simp only [distance?, hn, Option.isSome_none, Bool.false_eq_true, if_false] at hd
      obtain ⟨d', hd', rfl⟩ := Option.map_eq_some_iff.1 hd
      obtain ⟨g', site', v, location, up, inner', at_, opened', hv, fits, hl, he⟩ := ih hd'
      refine ⟨g', site', v, location, ?_, inner', at_, opened', hv, fits, hl, ?_⟩
      · simpa [Scopes.ancestor?, enclosed] using up
      · simpa [names, hn] using he

/-- A name that the frames do not have is not in the map. -/
theorem missing {name : String} (h : Laid V sites frames f env)
    (hd : distance? name frames = none) : env.location? name = none := by
  induction h with
  | globals => rfl
  | inside opened enclosed has inner names rest ih =>
    rename_i site sites frame frames f g env outer
    cases hn : frame.lookup name with
    | some stage => simp [distance?, hn] at hd
    | none =>
      have out : distance? name frames = none := by
        simpa [distance?, hn] using hd
      rw [names, hn]
      exact ih out

end Laid

/-! ## Parts of the program that are known -/

/-- The walk met the statement in the given place and had nothing to report. -/
structure Stmt.Known (V : View) (sites : List Site) (frames : List Frame) (s : Stmt) : Prop where
  visits : ∀ v ∈ s.visits sites frames, V.visited v
  formed : s.WellFormed
  new : s.DeclaresNew frames
  returns : ∃ position, s.ReturnsIn position

/-- The walk met the statements, each in the scopes that those before it left, and had nothing to
report. -/
structure Stmt.KnownAll (V : View) (sites : List Site) (frames : List Frame) (ss : List Stmt) :
    Prop where
  visits : ∀ v ∈ Stmt.visitsAll sites frames ss, V.visited v
  formed : Stmt.WellFormedAll ss
  new : Stmt.DeclaresNewAll frames ss
  returns : ∃ position, Stmt.ReturnsInAll position ss

/-- The walk met the function within these scopes and had nothing to report.  In the scope of a receiver,
its `return`s are those of a method. -/
structure FunctionDecl.Known (V : View) (sites : List Site) (frames : List Frame)
    (f : FunctionDecl) : Prop where
  visits : ∀ v ∈ f.visits sites frames, V.visited v
  formed : f.WellFormed
  new : f.DeclaresNew frames
  returns : ∃ position, f.ReturnsIn position ∧
    ∀ outer, frames = receiverFrame :: outer → position = f.methodPosition

section Known

variable {V V' : View} {sites : List Site} {frames : List Frame}

theorem Stmt.Known.mono {s : Stmt} (h : s.Known V sites frames) (kept : V.Kept V') :
    s.Known V' sites frames :=
  ⟨fun v hv => kept.visited v (h.visits v hv), h.formed, h.new, h.returns⟩

theorem Stmt.KnownAll.mono {ss : List Stmt} (h : Stmt.KnownAll V sites frames ss)
    (kept : V.Kept V') : Stmt.KnownAll V' sites frames ss :=
  ⟨fun v hv => kept.visited v (h.visits v hv), h.formed, h.new, h.returns⟩

theorem FunctionDecl.Known.mono {f : FunctionDecl} (h : f.Known V sites frames)
    (kept : V.Kept V') : f.Known V' sites frames :=
  ⟨fun v hv => kept.visited v (h.visits v hv), h.formed, h.new, h.returns⟩

end Known

/-! ## Values -/

/-- The same function, ready to be called. -/
structure SameFunction (V : View) (f f' : Closure) : Prop where
  declaration : f'.declaration = f.declaration
  isInitializer : f'.isInitializer = f.isInitializer
  initializer : f.isInitializer = true → f.declaration.isInitializer = true
  scope : ∃ sites frames env, V.captured[f'.scope]? = some env ∧ Laid V sites frames f.scope env ∧
    f.declaration.Known V sites frames ∧
    (f.isInitializer = true → ∃ outer, frames = receiverFrame :: outer)

/-- The same method, whose receiver is still missing. -/
structure SameMethod (V : View) (f f' : Closure) : Prop where
  declaration : f'.declaration = f.declaration
  isInitializer : f'.isInitializer = f.isInitializer
  initializer : f.isInitializer = true → f.declaration.isInitializer = true
  scope : ∃ methods sites frames env, V.captured[f'.scope]? = some env ∧
    Laid V sites frames f.scope env ∧ f.declaration ∈ methods ∧
    f.declaration.Known V (.this methods :: sites) (receiverFrame :: frames)

/-- What one class declaration contributed: its number, its name, and the same methods. -/
structure SameLayer (V : View) (l l' : ClassLayer) : Prop where
  serial : l'.serial = l.serial
  name : l'.name = l.name
  methods : Bindings.Same (SameMethod V) l.methods l'.methods

/-- The same class: its layers are the same. -/
def SameClass (V : View) (c c' : Class) : Prop :=
  List.Forall₂ (SameLayer V) c.layers c'.layers

/-- The same value for the two interpreters. -/
inductive SameValue (V : View) : Value → Value → Prop where
  | nil : SameValue V .nil .nil
  | bool (b : Bool) : SameValue V (.bool b) (.bool b)
  | number (x : Float) : SameValue V (.number x) (.number x)
  | text (s : String) : SameValue V (.text s) (.text s)
  | native (f : Native) : SameValue V (.native f) (.native f)
  | function {f f' : Closure} (serial : Nat) (same : SameFunction V f f') :
      SameValue V (.function serial f) (.function serial f')
  | bound {f f' : Closure} (serial : Nat) (same : SameFunction V f f') :
      SameValue V (.bound serial f) (.bound serial f')
  | ofClass {c c' : Class} (same : SameClass V c c') : SameValue V (.ofClass c) (.ofClass c')
  | object {c c' : Class} (id : Nat) (same : SameClass V c c') :
      SameValue V (.object ⟨id, c⟩) (.object ⟨id, c'⟩)

section Mono

variable {V V' : View} (kept : V.Kept V')

include kept

theorem SameFunction.mono {f f' : Closure} (h : SameFunction V f f') : SameFunction V' f f' := by
  obtain ⟨sites, frames, env, captured, laid, known, init⟩ := h.scope
  exact ⟨h.declaration, h.isInitializer, h.initializer, sites, frames, env,
    kept.captured _ _ captured, laid.mono kept, known.mono kept, init⟩

theorem SameMethod.mono {f f' : Closure} (h : SameMethod V f f') : SameMethod V' f f' := by
  obtain ⟨methods, sites, frames, env, captured, laid, declared, known⟩ := h.scope
  exact ⟨h.declaration, h.isInitializer, h.initializer, methods, sites, frames, env,
    kept.captured _ _ captured, laid.mono kept, declared, known.mono kept⟩

theorem SameClass.mono {c c' : Class} (h : SameClass V c c') : SameClass V' c c' :=
  List.Forall₂.imp (fun _ _ hl => ⟨hl.serial, hl.name, hl.methods.imp fun _ _ hm => hm.mono kept⟩) h

theorem SameValue.mono {v w : Value} (h : SameValue V v w) : SameValue V' v w := by
  cases h with
  | nil => exact .nil
  | bool b => exact .bool b
  | number x => exact .number x
  | text s => exact .text s
  | native f => exact .native f
  | function serial same => exact .function serial (same.mono kept)
  | bound serial same => exact .bound serial (same.mono kept)
  | ofClass same => exact .ofClass (same.mono kept)
  | object id same => exact .object id (same.mono kept)

end Mono

/-! ## What the same values have in common -/

namespace SameClass

variable {V : View} {c c' : Class}

theorem own (h : SameClass V c c') : SameLayer V c.own c'.own := by
  have layers : List.Forall₂ (SameLayer V) (c.own :: c.inherited) (c'.own :: c'.inherited) := h
  exact (List.forall₂_cons.1 layers).1

theorem findMethod? (h : SameClass V c c') (name : String) :
    Option.Rel (SameMethod V) (c.findMethod? name) (c'.findMethod? name) := by
  have search : ∀ {ls ls' : List ClassLayer}, List.Forall₂ (SameLayer V) ls ls' →
      Option.Rel (SameMethod V) (ls.findSome? fun l => l.methods.get? name)
        (ls'.findSome? fun l => l.methods.get? name) := by
    intro ls ls' hl
    induction hl with
    | nil => exact .none
    | cons first rest ih =>
      rename_i l l' ls ls'
      rw [List.findSome?_cons, List.findSome?_cons]
      obtain ⟨hl, hl'⟩ | ⟨f, f', hl, hl', hm⟩ := (first.methods.get? name).both
      · rw [hl, hl']
        exact ih
      · rw [hl, hl']
        exact .some hm
  exact search h

theorem arity (h : SameClass V c c') : c'.arity = c.arity := by
  unfold Class.arity
  obtain ⟨hc, hc'⟩ | ⟨f, f', hc, hc', hm⟩ := (h.findMethod? initializerName).both
  · rw [hc, hc']
  · simp [hc, hc', Closure.arity, hm.declaration]

/-- A class on top of the same superclass. -/
theorem declare {l l' : ClassLayer} (hl : SameLayer V l l') {s s' : Option Class}
    (hs : Option.Rel (SameClass V) s s') :
    SameClass V (Class.declare l s) (Class.declare l' s') := by
  refine List.Forall₂.cons hl ?_
  cases hs with
  | none => exact .nil
  | some same => exact same

end SameClass

namespace SameValue

variable {V : View} {v w v' w' : Value}

theorem isTruthy (h : SameValue V v w) : w.isTruthy = v.isTruthy := by
  cases h <;> rfl

theorem typeName (h : SameValue V v w) : w.typeName = v.typeName := by
  cases h <;> rfl

theorem toText (h : SameValue V v w) : w.toText = v.toText := by
  cases h with
  | nil | bool | number | text | native => rfl
  | function _ same | bound _ same =>
    simp [Value.toText, Value.functionText, Closure.name, same.declaration]
  | ofClass same => exact same.own.name
  | object _ same => exact congrArg (· ++ " instance") same.own.name

theorem toInspected (h : SameValue V v w) : w.toInspected = v.toInspected := by
  cases h with
  | text s => rfl
  | nil | bool | number | native => rfl
  | function serial same => exact (SameValue.function serial same).toText
  | bound serial same => exact (SameValue.bound serial same).toText
  | ofClass same => exact (SameValue.ofClass same).toText
  | object id same => exact (SameValue.object id same).toText

theorem equals (h : SameValue V v w) (h' : SameValue V v' w') :
    w.equals w' = v.equals v' := by
  cases h with
  | ofClass same =>
    cases h' with
    | ofClass same' =>
      simp [Value.equals, Class.serial, same.own.serial, same'.own.serial]
    | nil | bool | number | text | native | function | bound | object => rfl
  | nil | bool | number | text | native | function | bound | object => cases h' <;> rfl

theorem ofConstant (value : Constant) :
    SameValue V (Value.ofConstant value) (Value.ofConstant value) := by
  cases value with
  | number x => exact .number x
  | text s => exact .text s
  | true => exact .bool true
  | false => exact .bool false
  | nil => exact .nil

end SameValue

end ClassScript
