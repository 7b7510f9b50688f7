import ClassScript.Evaluation.State

set_option autoImplicit false

/-!
# Values that a state holds

A state holds the values of its names and of the fields of its instances.  Whatever is true of all
that it holds stays true if a value of which it is true is added.
-/

namespace ClassScript

/-- All values that a state holds are as said. -/
structure State.Holds (P : Value → Prop) (σ : State) : Prop where
  scopes : ∀ {f name v}, σ.scopes.local? f name = some v → P v
  fields : ∀ {o name v}, σ.field? o name = some v → P v

namespace State.Holds

variable {P Q : Value → Prop} {σ σ' : State}

theorem imp (h : σ.Holds P) (weaker : ∀ v, P v → Q v) : σ.Holds Q :=
  ⟨fun held => weaker _ (h.scopes held), fun held => weaker _ (h.fields held)⟩

/-- What a state has besides its scopes and fields does not matter. -/
theorem congr (h : σ.Holds P) (scopes : σ'.scopes = σ.scopes) (fields : σ'.fields = σ.fields) :
    σ'.Holds P where
  scopes {f name v} held := by
    rw [scopes] at held
    exact h.scopes held
  fields {o name v} held := by
    rw [State.field?, fields] at held
    exact h.fields held

/-- A name is given a value. -/
theorem define (h : σ.Holds P) (f : Nat) (name : String) {v : Value} (hv : P v) :
    State.Holds P { σ with scopes := σ.scopes.define f name v } where
  scopes {g other w} held := by
    rw [Scopes.local?_define] at held
    split at held
    · cases held
      exact hv
    · exact h.scopes held
  fields := h.fields

/-- A scope is opened. -/
theorem opened (h : σ.Holds P) {b : Bindings Value} (enclosing : Nat)
    (all : ∀ name v, b.get? name = some v → P v) :
    State.Holds P { σ with scopes := σ.scopes.push b (some enclosing) } where
  scopes {f name v} held := by
    rw [Scopes.local?_push] at held
    split at held
    · exact all name v held
    · exact h.scopes held
  fields := h.fields

/-- A field is given a value. -/
theorem setField (h : σ.Holds P) (o : Object) (name : String) {v : Value} (hv : P v) :
    (σ.setField o name v).Holds P where
  scopes := h.scopes
  fields {o' other w} held := by
    obtain ⟨fields, ho, held⟩ := Option.bind_eq_some_iff.1 held
    change (σ.fields.modify o.id _)[o'.id]? = some fields at ho
    rw [Array.getElem?_modify] at ho
    split at ho
    · obtain ⟨before, hb, rfl⟩ := Option.map_eq_some_iff.1 ho
      rw [Bindings.get?_put] at held
      split at held
      · cases held
        exact hv
      · exact h.fields (Option.bind_eq_some_iff.2 ⟨before, hb, held⟩)
    · exact h.fields (Option.bind_eq_some_iff.2 ⟨fields, ho, held⟩)

/-- An instance is made, without fields. -/
theorem allocate (h : σ.Holds P) : State.Holds P { σ with fields := σ.fields.push [] } where
  scopes := h.scopes
  fields {o name v} held := by
    obtain ⟨fields, ho, held⟩ := Option.bind_eq_some_iff.1 held
    rw [Array.getElem?_push] at ho
    split at ho
    · cases ho
      cases held
    · exact h.fields (Option.bind_eq_some_iff.2 ⟨fields, ho, held⟩)

end State.Holds

/-! ## Before the first program -/

/-- Before the first source, there is nothing but functions of the host. -/
theorem native_of_start {host : Host} {natives : List Native} {f : Nat} {name : String} {v : Value}
    (hv : (State.start host natives).scopes.local? f name = some v) :
    ∃ g : Native, name = g.name ∧ v = .native g := by
  change (Scopes.empty.push _ none).local? f name = some v at hv
  rw [Scopes.local?_push] at hv
  split at hv
  · obtain ⟨g, -, same⟩ := List.mem_map.1 (Bindings.mem_of_get?_ofPairs hv)
    cases same
    exact ⟨g, rfl, rfl⟩
  · simp [Scopes.local?, Scopes.empty] at hv

/-- The scope that programs begin in is there. -/
theorem current_lt_start (host : Host) (natives : List Native) :
    (State.start host natives).current < (State.start host natives).scopes.size := by
  change 0 < (Scopes.push _ _ _).size
  rw [Scopes.size_push]
  exact Nat.succ_pos _

theorem State.Holds.start {P : Value → Prop} {host : Host} {natives : List Native}
    (all : ∀ f, P (.native f)) : (State.start host natives).Holds P where
  scopes held := by
    obtain ⟨g, -, rfl⟩ := native_of_start held
    exact all g
  fields held := by simp [State.start, State.field?] at held

/-! ## Single scopes -/

/-- What a scope with a single name holds. -/
theorem eq_of_get?_singleton {name other : String} {v w : Value}
    (found : Bindings.get? other [(name, v)] = some w) : name = other ∧ v = w := by
  unfold Bindings.get? at found
  split at found
  · exact ⟨‹_›, Option.some.inj found⟩
  · cases found

/-- What is true of the one value is true of all that the scope holds. -/
theorem forall_get?_singleton {P : Value → Prop} {name : String} {v : Value} (h : P v) :
    ∀ other w, Bindings.get? other [(name, v)] = some w → P w := by
  intro other w found
  obtain ⟨-, rfl⟩ := eq_of_get?_singleton found
  exact h

end ClassScript
