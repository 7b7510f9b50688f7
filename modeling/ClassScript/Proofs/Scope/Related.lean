import ClassScript.Scope.Bindings
import Mathlib.Data.List.Forall2

set_option autoImplicit false

/-!
# Bindings with related values

To compare two runs, values of the one are related to values of the other.  Here the relation is any
one at all: what it says of single values is carried over to bindings with the same names, and to the
fields of all instances.
-/

/-! ## Options -/

/-- Related values may be related in a weaker way. -/
theorem Option.Rel.imp {α β : Type} {R S : α → β → Prop} {x : Option α} {y : Option β}
    (h : Option.Rel R x y) (imp : ∀ a b, R a b → S a b) : Option.Rel S x y := by
  cases h with
  | none => exact .none
  | some hab => exact .some (imp _ _ hab)

/-- Related options have both a value or both none. -/
theorem Option.Rel.both {α β : Type} {R : α → β → Prop} {x : Option α} {y : Option β}
    (h : Option.Rel R x y) :
    (x = Option.none ∧ y = Option.none) ∨
      ∃ a b, x = Option.some a ∧ y = Option.some b ∧ R a b := by
  cases h with
  | none => exact .inl ⟨rfl, rfl⟩
  | some hab => exact .inr ⟨_, _, rfl, rfl, hab⟩

namespace ClassScript

/-! ## Bindings -/

/-- The same names in the same order, with related values. -/
def Bindings.Same {α β : Type} (R : α → β → Prop) (b : Bindings α) (b' : Bindings β) : Prop :=
  List.Forall₂ (fun p q => p.1 = q.1 ∧ R p.2 q.2) b b'

namespace Bindings.Same

variable {α β : Type} {R S : α → β → Prop} {b : Bindings α} {b' : Bindings β}

theorem nil : Bindings.Same R [] [] := List.Forall₂.nil

theorem imp (h : Bindings.Same R b b') (imp : ∀ a c, R a c → S a c) : Bindings.Same S b b' :=
  List.Forall₂.imp (fun _ _ hpq => ⟨hpq.1, imp _ _ hpq.2⟩) h

theorem get? (h : Bindings.Same R b b') (name : String) :
    Option.Rel R (b.get? name) (b'.get? name) := by
  induction h with
  | nil => exact .none
  | cons first rest ih =>
    rename_i p q ps qs
    obtain ⟨n, v⟩ := p
    obtain ⟨m, w⟩ := q
    obtain ⟨rfl, hvw⟩ := first
    by_cases hn : n = name
    · simpa [Bindings.get?, hn] using Option.Rel.some hvw
    · simpa [Bindings.get?, hn] using ih

theorem put (h : Bindings.Same R b b') (name : String) {v : α} {w : β} (hvw : R v w) :
    Bindings.Same R (b.put name v) (b'.put name w) := by
  induction h with
  | nil => exact List.Forall₂.cons ⟨rfl, hvw⟩ .nil
  | cons first rest ih =>
    rename_i p q ps qs
    obtain ⟨n, a⟩ := p
    obtain ⟨m, c⟩ := q
    obtain ⟨rfl, hac⟩ := first
    by_cases hn : n = name
    · rw [Bindings.put, Bindings.put, if_pos hn, if_pos hn]
      exact List.Forall₂.cons ⟨rfl, hvw⟩ rest
    · rw [Bindings.put, Bindings.put, if_neg hn, if_neg hn]
      exact List.Forall₂.cons ⟨rfl, hac⟩ ih

theorem foldl_put {ps : List (String × α)} {qs : List (String × β)}
    (h : List.Forall₂ (fun p q => p.1 = q.1 ∧ R p.2 q.2) ps qs) (start : Bindings.Same R b b') :
    Bindings.Same R (ps.foldl (fun b p => b.put p.1 p.2) b)
      (qs.foldl (fun b p => b.put p.1 p.2) b') := by
  induction h generalizing b b' with
  | nil => exact start
  | cons first rest ih =>
    rename_i p q ps qs
    apply ih
    have next := start.put p.1 first.2
    change Bindings.Same R (b.put p.1 p.2) (b'.put q.1 q.2)
    rwa [← first.1]

theorem ofPairs {ps : List (String × α)} {qs : List (String × β)}
    (h : List.Forall₂ (fun p q => p.1 = q.1 ∧ R p.2 q.2) ps qs) :
    Bindings.Same R (Bindings.ofPairs ps) (Bindings.ofPairs qs) :=
  foldl_put h nil

/-! ### The fields of all instances, one by one -/

section Fields

variable {fields : Array (Bindings α)} {fields' : Array (Bindings β)}
  (h : List.Forall₂ (Bindings.Same R) fields.toList fields'.toList)

include h

theorem modify (id : Nat) (name : String) {v : α} {w : β} (hvw : R v w) :
    List.Forall₂ (Bindings.Same R) (fields.modify id fun b => b.put name v).toList
      (fields'.modify id fun b => b.put name w).toList := by
  rw [Array.toList_modify, Array.toList_modify]
  generalize fields.toList = as at h
  generalize fields'.toList = bs at h
  induction h generalizing id with
  | nil =>
    rw [List.modify_nil, List.modify_nil]
    exact .nil
  | cons first rest ih =>
    cases id with
    | zero => exact .cons (first.put name hvw) rest
    | succ id => exact .cons first (ih id)

theorem push : List.Forall₂ (Bindings.Same R) (fields.push []).toList (fields'.push []).toList := by
  rw [Array.toList_push, Array.toList_push]
  exact List.rel_append h (.cons nil .nil)

theorem field? (id : Nat) (name : String) :
    Option.Rel R (fields[id]?.bind fun b => b.get? name)
      (fields'[id]?.bind fun b => b.get? name) := by
  rw [← Array.getElem?_toList, ← Array.getElem?_toList]
  generalize fields.toList = as at h
  generalize fields'.toList = bs at h
  induction h generalizing id with
  | nil => exact .none
  | cons first rest ih =>
    cases id with
    | zero => exact first.get? name
    | succ id => exact ih id

end Fields

end Bindings.Same

end ClassScript
