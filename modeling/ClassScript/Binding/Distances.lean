import ClassScript.Tree.Basic

set_option autoImplicit false

/-!
# Scope distances

How many scopes out of its own place each reference finds its binding.  Nodes are numbered without
large gaps, so the table is an array by node number; a node without an entry refers to a global.
-/

namespace ClassScript

/-- The recorded distances by node number. -/
structure Distances where
  slots : Array (Option Nat)
  deriving Inhabited, DecidableEq

namespace Distances

/-- No distance at all. -/
def empty : Distances := { slots := #[] }

/-- The distance of a node. -/
def get? (t : Distances) (id : Nat) : Option Nat :=
  t.slots[id]?.join

/-- Record a distance, in place of an earlier one of the same node. -/
def insert (t : Distances) (id distance : Nat) : Distances :=
  if id < t.slots.size then { slots := t.slots.setIfInBounds id (some distance) }
  else
    { slots := (t.slots ++ Array.replicate (id - t.slots.size) none).push (some distance) }

/-- How many nodes have a distance. -/
def size (t : Distances) : Nat :=
  t.slots.countP Option.isSome

@[simp] theorem get?_empty (id : Nat) : empty.get? id = none := rfl

theorem get?_insert (t : Distances) (id j distance : Nat) :
    (t.insert id distance).get? j = if j = id then some distance else t.get? j := by
  unfold insert get?
  split
  · rename_i h
    rw [Array.getElem?_setIfInBounds]
    by_cases e : id = j
    · subst e; simp [h]
    · simp [e, Ne.symm e]
  · rename_i h
    have total : (t.slots ++ Array.replicate (id - t.slots.size) (none : Option Nat)).size = id := by
      simp only [Array.size_append, Array.size_replicate]; omega
    rw [Array.getElem?_push, total]
    by_cases e : j = id
    · simp [e]
    · rw [if_neg e, if_neg e, Array.getElem?_append]
      split
      · rfl
      · rename_i outside
        rw [Array.getElem?_eq_none (Nat.le_of_not_lt outside), Array.getElem?_replicate]
        split <;> rfl

@[simp] theorem get?_insert_self (t : Distances) (id distance : Nat) :
    (t.insert id distance).get? id = some distance := by
  simp [get?_insert]

theorem get?_insert_of_ne (t : Distances) {id j : Nat} (distance : Nat) (h : j ≠ id) :
    (t.insert id distance).get? j = t.get? j := by
  simp [get?_insert, h]

end Distances

end ClassScript
