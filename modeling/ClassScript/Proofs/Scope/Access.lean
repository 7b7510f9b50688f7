import ClassScript.Evaluation.State
import Mathlib.Data.Nat.Find

set_option autoImplicit false

/-!
# The two ways to a binding

The dynamic way finds the first scope outward that owns a name, so it is the indexed way with the
least number of steps that leads to such a scope; the two therefore read and write the same binding.
A write changes that binding alone, for everything that is read from any scope by either way, and
one that finds no owner changes nothing.

The dynamic way is bounded by the number of the scope it starts from.  The bound is never met in
scopes that were opened one after the other, since each encloses only later ones (`Built.descends`).
-/

namespace ClassScript

/-! ## Collections of scopes -/

/-- What can be asked of a collection of scopes that may change it. -/
inductive Change (α : Type) where
  | new
  | child (scope : Nat)
  | define (scope : Nat) (name : String) (value : α)
  | assign (scope : Nat) (name : String) (value : α)
  | assignAt (scope distance : Nat) (name : String) (value : α)

namespace Scopes

variable {α : Type}

/-- The scope of which the change is asked is there. -/
def Admits (s : Scopes α) : Change α → Prop
  | .new => True
  | .child scope => scope < s.size
  | .define scope _ _ => scope < s.size
  | .assign scope _ _ => scope < s.size
  | .assignAt scope _ _ _ => scope < s.size

instance (s : Scopes α) (change : Change α) : Decidable (s.Admits change) :=
  match change with
  | .new => .isTrue trivial
  | .child scope => inferInstanceAs (Decidable (scope < s.size))
  | .define scope _ _ => inferInstanceAs (Decidable (scope < s.size))
  | .assign scope _ _ => inferInstanceAs (Decidable (scope < s.size))
  | .assignAt scope _ _ _ => inferInstanceAs (Decidable (scope < s.size))

/-- The scopes after a change.  A write that fails leaves them as they are. -/
def after (s : Scopes α) : Change α → Scopes α
  | .new => s.push [] none
  | .child scope => s.push [] (some scope)
  | .define scope name value => s.define scope name value
  | .assign scope name value => (s.assign? scope name value).getD s
  | .assignAt scope distance name value => (s.assignAt? scope distance name value).getD s

/-- The collections that changes make from nothing. -/
inductive Built : Scopes α → Prop where
  | empty : Built .empty
  | after {s : Scopes α} {change : Change α} (built : s.Built) (admitted : s.Admits change) :
      Built (s.after change)

/-- Scopes are enclosed by scopes with lower numbers. -/
def Descends (s : Scopes α) : Prop :=
  ∀ id outer, s.enclosing? id = some outer → outer < id

section Descends

variable {s : Scopes α}

theorem Descends.define (h : s.Descends) (id : Nat) (name : String) (value : α) :
    (s.define id name value).Descends := fun inner outer around =>
  h inner outer (by rwa [enclosing?_define] at around)

theorem Descends.push (h : s.Descends) (bindings : Bindings α) {enclosing : Option Nat}
    (there : ∀ outer, enclosing = some outer → outer < s.size) :
    (s.push bindings enclosing).Descends := by
  intro inner outer around
  rw [enclosing?_push] at around
  split at around
  · rename_i last
    exact last ▸ there outer around
  · exact h inner outer around

theorem Descends.getD_map (h : s.Descends) (scope : Option Nat) (name : String) (value : α) :
    ((scope.map fun id => s.define id name value).getD s).Descends := by
  cases scope with
  | none => exact h
  | some id => exact h.define id name value

theorem Descends.after (h : s.Descends) {change : Change α} (admitted : s.Admits change) :
    (s.after change).Descends := by
  cases change with
  | new => exact h.push [] nofun
  | child scope =>
    refine h.push [] fun outer around => ?_
    cases around
    exact admitted
  | define scope name value => exact h.define scope name value
  | assign scope name value => exact h.getD_map _ name value
  | assignAt scope distance name value => exact h.getD_map _ name value

theorem Built.descends (built : s.Built) : s.Descends := by
  induction built with
  | empty =>
    intro id outer around
    cases around
  | after _ admitted ih => exact ih.after admitted

end Descends

/-! ## Owners -/

/-- The scope some steps out is there and has the name itself. -/
def OwnsAt (s : Scopes α) (id distance : Nat) (name : String) : Prop :=
  ∃ scope, s.ancestor? distance id = some scope ∧ (s.local? scope name).isSome

/-- The least number of steps to a scope that has the name itself. -/
def FirstAt (s : Scopes α) (id distance : Nat) (name : String) : Prop :=
  s.OwnsAt id distance name ∧ ∀ nearer < distance, ¬s.OwnsAt id nearer name

/-- The first scope outward that has the name itself. -/
def FirstOwner (s : Scopes α) (id : Nat) (name : String) (scope : Nat) : Prop :=
  ∃ distance, s.FirstAt id distance name ∧ s.ancestor? distance id = some scope

section Owners

variable {s : Scopes α} {id distance scope : Nat} {name : String}

theorem ownsAt_zero : s.OwnsAt id 0 name ↔ (s.local? id name).isSome := by
  simp [OwnsAt, ancestor?]

theorem ownsAt_succ : s.OwnsAt id (distance + 1) name ↔
    ∃ outer, s.enclosing? id = some outer ∧ s.OwnsAt outer distance name := by
  simp only [OwnsAt, ancestor?, Option.bind_eq_some_iff]
  constructor
  · rintro ⟨scope, ⟨outer, around, further⟩, has⟩
    exact ⟨outer, around, scope, further, has⟩
  · rintro ⟨outer, around, scope, further, has⟩
    exact ⟨scope, ⟨outer, around, further⟩, has⟩

/-- What is some steps out from a scope is one step farther out from a scope within it. -/
theorem ownerAt?_succ {outer : Nat} (around : s.enclosing? id = some outer) :
    s.ownerAt? id (distance + 1) name = s.ownerAt? outer distance name := by
  rw [ownerAt?, ancestor?, around]
  rfl

theorem getAt?_succ {outer : Nat} (around : s.enclosing? id = some outer) :
    s.getAt? id (distance + 1) name = s.getAt? outer distance name := by
  rw [getAt?, ancestor?, around]
  rfl

theorem ownerAt?_eq_some_iff : s.ownerAt? id distance name = some scope ↔
    s.ancestor? distance id = some scope ∧ (s.local? scope name).isSome := by
  rw [ownerAt?, Option.filter_eq_some_iff]

theorem isSome_ownerAt? : (s.ownerAt? id distance name).isSome ↔ s.OwnsAt id distance name := by
  simp only [Option.isSome_iff_exists, ownerAt?_eq_some_iff, OwnsAt]

/-- The first owner of a name that the scope itself does not have is that of the scope around. -/
theorem firstAt_succ (absent : ¬(s.local? id name).isSome) {outer : Nat}
    (around : s.enclosing? id = some outer) :
    s.FirstAt id (distance + 1) name ↔ s.FirstAt outer distance name := by
  have out : ∀ d, s.OwnsAt id (d + 1) name ↔ s.OwnsAt outer d name := fun d => by
    rw [ownsAt_succ, around]
    simp
  have none_here : ¬s.OwnsAt id 0 name := by rwa [ownsAt_zero]
  simp only [FirstAt, out]
  refine and_congr_right fun _ => ⟨fun least d nearer => ?_, fun least d nearer => ?_⟩
  · exact (out d).not.1 (least (d + 1) (Nat.succ_lt_succ nearer))
  · cases d with
    | zero => exact none_here
    | succ d => exact (out d).not.2 (least d (Nat.lt_of_succ_lt_succ nearer))

/-- Within a number of scopes, the owner is the first one outward. -/
theorem ownerWithin_eq_some_iff {count : Nat} : s.ownerWithin name count id = some scope ↔
    ∃ distance < count, s.FirstAt id distance name ∧ s.ancestor? distance id = some scope := by
  induction count generalizing id with
  | zero => simp [ownerWithin]
  | succ count ih =>
    rw [ownerWithin]
    split
    · rename_i has
      constructor
      · rintro ⟨⟩
        exact ⟨0, Nat.succ_pos _, ⟨ownsAt_zero.2 has, nofun⟩, rfl⟩
      · rintro ⟨distance, -, ⟨-, least⟩, found⟩
        cases distance with
        | zero => exact found
        | succ d => exact absurd (ownsAt_zero.2 has) (least 0 (Nat.succ_pos d))
    · rename_i absent
      cases around : s.enclosing? id with
      | none =>
        refine iff_of_false nofun ?_
        rintro ⟨distance, -, ⟨owns, -⟩, -⟩
        cases distance with
        | zero => exact absent (ownsAt_zero.1 owns)
        | succ d =>
          obtain ⟨outer, found, -⟩ := ownsAt_succ.1 owns
          rw [around] at found
          cases found
      | some outer =>
        change ownerWithin s name count outer = some scope ↔ _
        rw [ih]
        constructor
        · rintro ⟨d, less, first, found⟩
          refine ⟨d + 1, Nat.succ_lt_succ less, (firstAt_succ absent around).2 first, ?_⟩
          rwa [ancestor?, around]
        · rintro ⟨distance, less, first, found⟩
          cases distance with
          | zero => exact absurd (ownsAt_zero.1 first.1) absent
          | succ d =>
            refine ⟨d, Nat.lt_of_succ_lt_succ less, (firstAt_succ absent around).1 first, ?_⟩
            rwa [ancestor?, around] at found

theorem FirstOwner.owns (first : s.FirstOwner id name scope) : (s.local? scope name).isSome := by
  obtain ⟨distance, ⟨⟨scope', found', has⟩, -⟩, found⟩ := first
  obtain rfl : scope' = scope := Option.some.inj (found'.symm.trans found)
  exact has

/-- Where the dynamic way leads, the name is. -/
theorem owns_of_owner? (owner : s.owner? id name = some scope) : (s.local? scope name).isSome := by
  obtain ⟨distance, -, first⟩ := ownerWithin_eq_some_iff.1 owner
  exact FirstOwner.owns ⟨distance, first⟩

/-- Every step outward leads to a lower number. -/
theorem Descends.ancestor?_le (h : s.Descends) (found : s.ancestor? distance id = some scope) :
    scope + distance ≤ id := by
  induction distance generalizing id with
  | zero =>
    cases found
    exact Nat.le_refl _
  | succ d ih =>
    obtain ⟨outer, around, further⟩ := Option.bind_eq_some_iff.1 found
    have below := h id outer around
    have rest := ih further
    omega

/-- The bound of the dynamic way is never met. -/
theorem owner?_eq_some_iff (descends : s.Descends) :
    s.owner? id name = some scope ↔ s.FirstOwner id name scope := by
  rw [owner?, ownerWithin_eq_some_iff]
  constructor
  · rintro ⟨distance, -, first⟩
    exact ⟨distance, first⟩
  · rintro ⟨distance, first, found⟩
    have bound := descends.ancestor?_le found
    exact ⟨distance, by omega, first, found⟩

/-- Some scope outward has the name if one is the first of them. -/
theorem exists_firstOwner : (∃ scope, s.FirstOwner id name scope) ↔
    ∃ distance, s.OwnsAt id distance name := by
  classical
  constructor
  · rintro ⟨scope, distance, first, -⟩
    exact ⟨distance, first.1⟩
  · intro owned
    obtain ⟨scope, found, -⟩ := Nat.find_spec owned
    exact ⟨scope, Nat.find owned, ⟨Nat.find_spec owned, fun _ => Nat.find_min owned⟩, found⟩

theorem isSome_owner? (descends : s.Descends) :
    (s.owner? id name).isSome ↔ ∃ distance, s.OwnsAt id distance name := by
  rw [Option.isSome_iff_exists, ← exists_firstOwner]
  exact exists_congr fun _ => owner?_eq_some_iff descends

/-- The dynamic way leads where the indexed way does with the least number of steps. -/
theorem owner?_of_firstAt (descends : s.Descends) (first : s.FirstAt id distance name) :
    s.owner? id name = s.ownerAt? id distance name := by
  obtain ⟨scope, found, has⟩ := first.1
  rw [ownerAt?_eq_some_iff.2 ⟨found, has⟩, owner?_eq_some_iff descends]
  exact ⟨distance, first, found⟩

/-- What is found at an owner is there. -/
theorem isSome_bind_local? {owner : Option Nat}
    (owns : ∀ scope, owner = some scope → (s.local? scope name).isSome) :
    (owner.bind fun scope => s.local? scope name).isSome ↔ owner.isSome := by
  cases owner with
  | none => simp
  | some scope => simpa using owns scope rfl

/-- The indexed way finds the value of the owner. -/
theorem getAt?_eq_bind : s.getAt? id distance name =
    (s.ownerAt? id distance name).bind fun scope => s.local? scope name := by
  rw [getAt?, ownerAt?]
  cases s.ancestor? distance id with
  | none => rfl
  | some scope =>
    cases has : s.local? scope name <;> simp [Option.filter, has]

end Owners

/-! ## Writes -/

/-- One scope has one name, which it had before, at a new value, and nothing else is changed. -/
structure Overwrites (s : Scopes α) (scope : Nat) (name : String) (value : α) (s' : Scopes α) :
    Prop where
  owned : (s.local? scope name).isSome
  size : s'.size = s.size
  enclosing : ∀ id, s'.enclosing? id = s.enclosing? id
  /-- no scope has a name that it did not have -/
  names : ∀ id other, (s'.local? id other).isSome = (s.local? id other).isSome
  changed : s'.local? scope name = some value
  unchanged : ∀ id other, ¬(id = scope ∧ other = name) → s'.local? id other = s.local? id other
  get : ∀ id, s.FirstOwner id name scope → s'.get? id name = some value
  get_other : ∀ id other, ¬(s.FirstOwner id other scope ∧ other = name) →
    s'.get? id other = s.get? id other
  getAt : ∀ id distance, s.ancestor? distance id = some scope →
    s'.getAt? id distance name = some value
  getAt_other : ∀ id distance other, ¬(s.ancestor? distance id = some scope ∧ other = name) →
    s'.getAt? id distance other = s.getAt? id distance other

section Writes

variable {s : Scopes α} {scope : Nat} {name : String}

theorem ancestor?_define (value : α) (distance id : Nat) :
    (s.define scope name value).ancestor? distance id = s.ancestor? distance id := by
  induction distance generalizing id with
  | zero => rfl
  | succ d ih => simp only [ancestor?, enclosing?_define, funext ih]

theorem isSome_local?_define (owned : (s.local? scope name).isSome) (value : α) (id : Nat)
    (other : String) :
    ((s.define scope name value).local? id other).isSome = (s.local? id other).isSome := by
  rw [local?_define]
  split
  · rename_i here
    obtain ⟨rfl, -, rfl⟩ := here
    exact owned.symm
  · rfl

theorem owner?_define (owned : (s.local? scope name).isSome) (value : α) (id : Nat)
    (other : String) : (s.define scope name value).owner? id other = s.owner? id other := by
  unfold owner?
  generalize id + 1 = count
  induction count generalizing id with
  | zero => rfl
  | succ count ih =>
    simp only [ownerWithin, isSome_local?_define owned, enclosing?_define, funext ih]

/-- To give a scope a new value for a name that it has is to overwrite it. -/
theorem overwrites_define (descends : s.Descends) (owned : (s.local? scope name).isSome)
    (value : α) : s.Overwrites scope name value (s.define scope name value) := by
  obtain ⟨_, has⟩ := Option.isSome_iff_exists.1 owned
  have bound : scope < s.size := local?_bound has
  have changed : (s.define scope name value).local? scope name = some value := by
    rw [local?_define, if_pos ⟨rfl, bound, rfl⟩]
  have unchanged : ∀ id other, ¬(id = scope ∧ other = name) →
      (s.define scope name value).local? id other = s.local? id other := by
    intro id other elsewhere
    rw [local?_define, if_neg fun here => elsewhere ⟨here.1.symm, here.2.2⟩]
  exact {
    owned, changed, unchanged
    size := size_define ..
    enclosing := fun id => enclosing?_define ..
    names := isSome_local?_define owned value
    get := fun id first => by
      rw [get?, owner?_define owned, (owner?_eq_some_iff descends).2 first]
      exact changed
    get_other := fun id other elsewhere => by
      rw [get?, get?, owner?_define owned]
      cases found : s.owner? id other with
      | none => rfl
      | some owner =>
        have first := (owner?_eq_some_iff descends).1 found
        exact unchanged owner other fun here => elsewhere ⟨here.1 ▸ first, here.2⟩
    getAt := fun id distance found => by
      rw [getAt?, ancestor?_define, found]
      exact changed
    getAt_other := fun id distance other elsewhere => by
      rw [getAt?, getAt?, ancestor?_define]
      cases found : s.ancestor? distance id with
      | none => rfl
      | some owner =>
        exact unchanged owner other fun here => elsewhere ⟨by rw [found, here.1], here.2⟩ }

end Writes

end Scopes

/-! ## Both ways together -/

/-- What writing comes to in a state: the scopes that the write leaves, or an error that the name of
the token is not defined, and then the state as it was. -/
def State.written (σ : State) (t : Token) :
    Option (Scopes Value) → EStateM.Result Interrupt State Unit
  | some scopes => .ok () { σ with scopes }
  | none => .error (.error { fault := .undefinedVariable t.lexeme, line := t.line }) σ

theorem assignIn_eq_written (owner : Option Nat) (t : Token) (value : Value) (σ : State) :
    Eval.assignIn owner t value σ =
      σ.written t (owner.map fun scope => σ.scopes.define scope t.lexeme value) := by
  cases owner <;> rfl

open Scopes in
/-- In scopes that were built by opening scopes, defining and assigning, the two ways agree.  The
dynamic one succeeds where some scope outward has the name, and then does what the indexed one does
with the least number of steps to such a scope; the indexed one succeeds where the scope that many
steps out is there and has the name itself.  A write overwrites the one binding it leads to, and a
write that fails leaves the scopes as they were. -/
theorem access_agrees {s : Scopes Value} (built : s.Built) (id : Nat) (name : String)
    (value : Value) :
    ((s.get? id name).isSome ↔ ∃ distance, s.OwnsAt id distance name) ∧
    ((s.assign? id name value).isSome ↔ ∃ distance, s.OwnsAt id distance name) ∧
    (∀ distance, s.FirstAt id distance name →
      s.get? id name = s.getAt? id distance name ∧
      s.assign? id name value = s.assignAt? id distance name value) ∧
    (∀ distance,
      ((s.getAt? id distance name).isSome ↔ s.OwnsAt id distance name) ∧
      ((s.assignAt? id distance name value).isSome ↔ s.OwnsAt id distance name)) ∧
    (∀ s', s.assign? id name value = some s' →
      ∃ scope, s.FirstOwner id name scope ∧ s.Overwrites scope name value s') ∧
    (∀ distance s', s.assignAt? id distance name value = some s' →
      ∃ scope, s.ancestor? distance id = some scope ∧ s.Overwrites scope name value s') ∧
    ((¬∃ distance, s.OwnsAt id distance name) → s.after (.assign id name value) = s) ∧
    (∀ distance, ¬s.OwnsAt id distance name → s.after (.assignAt id distance name value) = s) ∧
    ∀ (σ : State) (t : Token), σ.scopes = s → t.lexeme = name →
      Eval.assignIn (s.owner? id name) t value σ = σ.written t (s.assign? id name value) ∧
      ∀ distance, Eval.assignIn (s.ownerAt? id distance name) t value σ =
        σ.written t (s.assignAt? id distance name value) := by
  have descends := built.descends
  have dynamic : (s.assign? id name value).isSome ↔ ∃ distance, s.OwnsAt id distance name := by
    rw [assign?, Option.isSome_map, isSome_owner? descends]
  have indexed : ∀ distance, (s.assignAt? id distance name value).isSome ↔
      s.OwnsAt id distance name := fun distance => by
    rw [assignAt?, Option.isSome_map, isSome_ownerAt?]
  refine ⟨?_, dynamic, fun distance first => ?_, fun distance => ⟨?_, indexed distance⟩,
    fun s' written => ?_, fun distance s' written => ?_, fun unowned => ?_,
    fun distance unowned => ?_, ?_⟩
  · rw [get?, isSome_bind_local? fun _ => owns_of_owner?, isSome_owner? descends]
  · have same := owner?_of_firstAt descends first
    rw [get?, getAt?_eq_bind, assign?, assignAt?, same]
    exact ⟨rfl, rfl⟩
  · rw [getAt?_eq_bind, isSome_bind_local? fun scope found => (ownerAt?_eq_some_iff.1 found).2,
      isSome_ownerAt?]
  · obtain ⟨scope, found, rfl⟩ := Option.map_eq_some_iff.1 written
    have first := (owner?_eq_some_iff descends).1 found
    exact ⟨scope, first, overwrites_define descends first.owns value⟩
  · obtain ⟨scope, found, rfl⟩ := Option.map_eq_some_iff.1 written
    obtain ⟨there, has⟩ := ownerAt?_eq_some_iff.1 found
    exact ⟨scope, there, overwrites_define descends has value⟩
  · rw [← dynamic, Option.not_isSome_iff_eq_none] at unowned
    rw [Scopes.after, unowned]
    rfl
  · rw [← indexed distance, Option.not_isSome_iff_eq_none] at unowned
    rw [Scopes.after, unowned]
    rfl
  · rintro σ t rfl rfl
    exact ⟨assignIn_eq_written .., fun _ => assignIn_eq_written ..⟩

/-- Three scopes, of which the outer two both have the name that the innermost lacks. -/
def Scopes.nested : Scopes Value :=
  ((((Scopes.empty.after .new).after (.define 0 "a" .nil)).after (.child 0)).after
    (.define 1 "a" (.bool true))).after (.child 1)

theorem Scopes.nested_built : Scopes.nested.Built := by
  unfold Scopes.nested
  refine .after (.after (.after (.after (.after .empty ?_) ?_) ?_) ?_) ?_ <;> decide

/-- From the innermost of the scopes the dynamic way leads one step out. -/
theorem access_agrees_nested : Scopes.nested.Built ∧
    Scopes.nested.get? 2 "a" = Scopes.nested.getAt? 2 1 "a" ∧
    Scopes.nested.assign? 2 "a" (.bool false) = Scopes.nested.assignAt? 2 1 "a" (.bool false) := by
  have first : Scopes.nested.FirstAt 2 1 "a" := by
    refine ⟨⟨1, rfl, rfl⟩, fun nearer less => ?_⟩
    obtain rfl : nearer = 0 := by omega
    rw [Scopes.ownsAt_zero]
    decide
  exact ⟨Scopes.nested_built,
    (access_agrees Scopes.nested_built 2 "a" (.bool false)).2.2.1 1 first⟩

end ClassScript
