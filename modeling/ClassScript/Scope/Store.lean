import ClassScript.Scope.Bindings

set_option autoImplicit false

/-!
# Scopes

A scope has bindings of its own and, unless it is outermost, one scope around it.  Scopes are shared
by everything that runs in them, so they live in a store and are known by number, in the order in
which they were opened; a scope is opened inside one that is there already, and what encloses it
never changes.

There are two ways to a binding.  The dynamic way goes outward until some scope owns the name.  The
indexed way goes outward a fixed number of steps and looks there only.  Assigning changes a binding
that is there and never makes one.
-/

namespace ClassScript

/-- The bindings of a scope and the number of the scope around it. -/
structure Scope (α : Type) where
  bindings : Bindings α
  enclosing : Option Nat
  deriving Inhabited

/-- All scopes by number. -/
structure Scopes (α : Type) where
  cells : Array (Scope α)
  deriving Inhabited

namespace Scopes

variable {α : Type}

/-- No scope at all. -/
def empty : Scopes α := { cells := #[] }

/-- How many scopes there are; also the number of the next one. -/
def size (s : Scopes α) : Nat := s.cells.size

/-- Open a scope with some bindings. -/
def push (s : Scopes α) (bindings : Bindings α) (enclosing : Option Nat) : Scopes α :=
  { cells := s.cells.push { bindings, enclosing } }

/-- The scope around a scope. -/
def enclosing? (s : Scopes α) (id : Nat) : Option Nat :=
  s.cells[id]?.bind (·.enclosing)

/-- The value that a scope itself has for a name. -/
def local? (s : Scopes α) (id : Nat) (name : String) : Option α :=
  s.cells[id]?.bind (·.bindings.get? name)

/-- Give a name a value in a scope, whether the scope has the name or not. -/
def define (s : Scopes α) (id : Nat) (name : String) (value : α) : Scopes α :=
  { cells := s.cells.modify id fun scope => { scope with bindings := scope.bindings.put name value } }

/-! ## The indexed way -/

/-- The scope a number of steps out. -/
def ancestor? (s : Scopes α) : Nat → Nat → Option Nat
  | 0, id => some id
  | distance + 1, id => (s.enclosing? id).bind (ancestor? s distance)

/-- The value of a name in the scope a number of steps out. -/
def getAt? (s : Scopes α) (id distance : Nat) (name : String) : Option α :=
  (s.ancestor? distance id).bind fun scope => s.local? scope name

/-- The scope a number of steps out, if it has a name itself. -/
def ownerAt? (s : Scopes α) (id distance : Nat) (name : String) : Option Nat :=
  (s.ancestor? distance id).filter fun scope => (s.local? scope name).isSome

/-- Change the value of a name in the scope a number of steps out. -/
def assignAt? (s : Scopes α) (id distance : Nat) (name : String) (value : α) :
    Option (Scopes α) :=
  (s.ownerAt? id distance name).map fun scope => s.define scope name value

/-! ## The dynamic way -/

/-- The first scope outward that has a name, within a number of scopes. -/
def ownerWithin (s : Scopes α) (name : String) : Nat → Nat → Option Nat
  | 0, _ => none
  | count + 1, id =>
    if (s.local? id name).isSome then some id
    else (s.enclosing? id).bind (ownerWithin s name count)

/-- The first scope outward that has a name.  Every step leads to a lower number. -/
def owner? (s : Scopes α) (id : Nat) (name : String) : Option Nat :=
  s.ownerWithin name (id + 1) id

/-- The value of a name where it is first found outward. -/
def get? (s : Scopes α) (id : Nat) (name : String) : Option α :=
  (s.owner? id name).bind fun scope => s.local? scope name

/-- Change the value of a name where it is first found outward. -/
def assign? (s : Scopes α) (id : Nat) (name : String) (value : α) : Option (Scopes α) :=
  (s.owner? id name).map fun scope => s.define scope name value

/-! ## What the operations do to single bindings -/

theorem cells_define (s : Scopes α) (id j : Nat) (name : String) (value : α) :
    (s.define id name value).cells[j]? =
      if id = j then
        s.cells[j]?.map fun scope => { scope with bindings := scope.bindings.put name value }
      else s.cells[j]? := by
  simp [define, Array.getElem?_modify]

@[simp] theorem size_define (s : Scopes α) (id : Nat) (name : String) (value : α) :
    (s.define id name value).size = s.size := by
  simp [define, size]

@[simp] theorem enclosing?_define (s : Scopes α) (id j : Nat) (name : String) (value : α) :
    (s.define id name value).enclosing? j = s.enclosing? j := by
  unfold enclosing?
  rw [cells_define]
  split
  · cases s.cells[j]? <;> rfl
  · rfl

theorem local?_define (s : Scopes α) (id j : Nat) (name other : String) (value : α) :
    (s.define id name value).local? j other =
      if id = j ∧ id < s.size ∧ other = name then some value else s.local? j other := by
  unfold local?
  rw [cells_define]
  by_cases h : id = j
  · subst h
    by_cases hb : id < s.size
    · have hs : s.cells[id]? = some s.cells[id] := Array.getElem?_eq_getElem hb
      simp [hs, hb, Bindings.get?_put]
    · have hs : s.cells[id]? = none := Array.getElem?_eq_none (Nat.le_of_not_lt hb)
      simp [hs, hb]
  · simp [h]

@[simp] theorem size_push (s : Scopes α) (b : Bindings α) (e : Option Nat) :
    (s.push b e).size = s.size + 1 := by
  simp [push, size]

theorem cells_push (s : Scopes α) (b : Bindings α) (e : Option Nat) (j : Nat) :
    (s.push b e).cells[j]? =
      if j = s.size then some { bindings := b, enclosing := e } else s.cells[j]? :=
  Array.getElem?_push

theorem enclosing?_push (s : Scopes α) (b : Bindings α) (e : Option Nat) (j : Nat) :
    (s.push b e).enclosing? j = if j = s.size then e else s.enclosing? j := by
  unfold enclosing?
  rw [cells_push]
  split <;> rfl

theorem local?_push (s : Scopes α) (b : Bindings α) (e : Option Nat) (j : Nat) (name : String) :
    (s.push b e).local? j name = if j = s.size then b.get? name else s.local? j name := by
  unfold local?
  rw [cells_push]
  split <;> rfl

/-! ## Numbers of scopes -/

theorem enclosing?_bound {s : Scopes α} {id outer : Nat} (h : s.enclosing? id = some outer) :
    id < s.size := by
  obtain ⟨_, found, -⟩ := Option.bind_eq_some_iff.1 h
  exact (Array.getElem?_eq_some_iff.1 found).1

theorem local?_bound {s : Scopes α} {id : Nat} {name : String} {value : α}
    (h : s.local? id name = some value) : id < s.size := by
  obtain ⟨_, found, -⟩ := Option.bind_eq_some_iff.1 h
  exact (Array.getElem?_eq_some_iff.1 found).1

end Scopes

end ClassScript
