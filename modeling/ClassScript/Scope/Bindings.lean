set_option autoImplicit false

/-!
# Bindings

Names and their values in the order in which the names first appeared.  Each name has one value, the
one it was given last.
-/

namespace ClassScript

/-- Names with values. -/
abbrev Bindings (α : Type) : Type := List (String × α)

namespace Bindings

variable {α : Type}

/-- Give a name a value, in place of an earlier one. -/
def put (name : String) (value : α) : Bindings α → Bindings α
  | [] => [(name, value)]
  | (n, v) :: rest => if n = name then (n, value) :: rest else (n, v) :: put name value rest

/-- The value of a name. -/
def get? (name : String) : Bindings α → Option α
  | [] => none
  | (n, v) :: rest => if n = name then some v else get? name rest

/-- The bindings that a list of pairs leaves, later pairs winning over earlier ones. -/
def ofPairs (pairs : List (String × α)) : Bindings α :=
  pairs.foldl (fun b p => b.put p.1 p.2) []

/-- The names that have a value. -/
def names (b : Bindings α) : List String :=
  b.map (·.1)

@[simp] theorem get?_nil (name : String) : get? name ([] : Bindings α) = none := rfl

theorem get?_put (b : Bindings α) (name other : String) (value : α) :
    (b.put name value).get? other = if other = name then some value else b.get? other := by
  induction b with
  | nil => by_cases h : name = other <;> simp [put, get?, h, eq_comm]
  | cons p rest ih =>
    obtain ⟨n, v⟩ := p
    by_cases hn : n = name
    · subst hn
      by_cases ho : n = other
      · simp [put, get?, ho]
      · simp [put, get?, ho, Ne.symm ho]
    · by_cases ho : n = other
      · subst ho
        simp [put, get?, hn]
      · simp [put, get?, hn, ho, ih]

theorem get?_foldl_put (pairs : List (String × α)) (b : Bindings α) (name : String) :
    (pairs.foldl (fun b p => b.put p.1 p.2) b).get? name =
      ((pairs.reverse.find? fun p => p.1 = name).map Prod.snd).or (b.get? name) := by
  induction pairs generalizing b with
  | nil => rfl
  | cons p pairs ih =>
    rw [List.foldl_cons, ih, get?_put, List.reverse_cons, List.find?_append]
    cases pairs.reverse.find? fun p => p.1 = name with
    | some q => rfl
    | none =>
      by_cases h : p.1 = name
      · simp [h]
      · simp [h, Ne.symm h]

/-- Of several pairs with one name, the last gives the value. -/
theorem get?_ofPairs (pairs : List (String × α)) (name : String) :
    (ofPairs pairs).get? name = (pairs.reverse.find? fun p => p.1 = name).map Prod.snd :=
  (get?_foldl_put pairs [] name).trans Option.or_none

theorem mem_of_get?_ofPairs {pairs : List (String × α)} {name : String} {value : α}
    (h : (ofPairs pairs).get? name = some value) : (name, value) ∈ pairs := by
  rw [get?_ofPairs] at h
  obtain ⟨p, found, rfl⟩ := Option.map_eq_some_iff.1 h
  have same : p.1 = name := by simpa using List.find?_some found
  rw [← same]
  exact List.mem_reverse.1 (List.mem_of_find?_eq_some found)

/-- A name has a value exactly if it is among the names. -/
theorem get?_isSome_iff (b : Bindings α) (name : String) :
    (b.get? name).isSome = true ↔ name ∈ b.names := by
  induction b with
  | nil => simp [names]
  | cons p rest ih =>
    obtain ⟨n, v⟩ := p
    by_cases h : n = name
    · simp [get?, names, h]
    · simpa [get?, names, h, Ne.symm h] using ih

/-- A value that replaces another adds no name; a new name comes last. -/
theorem names_put (b : Bindings α) (name : String) (value : α) :
    (b.put name value).names = if name ∈ b.names then b.names else b.names ++ [name] := by
  induction b with
  | nil => simp [put, names]
  | cons p rest ih =>
    obtain ⟨n, v⟩ := p
    by_cases h : n = name
    · simp [put, names, h]
    · simp only [names] at ih
      by_cases hm : name ∈ rest.map (·.1)
      · simp only [hm, if_true] at ih
        simp [put, names, h, ih, hm]
      · simp only [hm, if_false] at ih
        simp [put, names, h, ih, hm, Ne.symm h]

end Bindings

end ClassScript
