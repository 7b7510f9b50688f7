import ClassScript.Proofs.Binding.Addresses
import Mathlib

set_option autoImplicit false

/-!
# Binding is local

One table holds the distances of all programs, and nothing is ever taken out of it.  Still no program
gets in the way of another: programs that were read apart share no node number, so each of them sets
entries of its own, to values that the table has no part in.  Binding a program again sets the same
entries to the same values, and binding several of them comes to the same table in any order.
Whether a program has faults makes no difference to this.
-/

namespace ClassScript

/-! ## Tables -/

namespace Distances

/-- Tables of one size with the same entries are the same. -/
theorem ext_get? {t u : Distances} (size : t.slots.size = u.slots.size)
    (entries : ∀ id, t.get? id = u.get? id) : t = u := by
  have slots : t.slots = u.slots := by
    apply Array.ext size
    intro id ht hu
    have same := entries id
    rw [get?, get?, Array.getElem?_eq_getElem ht, Array.getElem?_eq_getElem hu] at same
    exact same
  cases t
  cases u
  exact congrArg Distances.mk slots

/-- A table is as large as its entries ask for. -/
theorem size_insert (t : Distances) (id distance : Nat) :
    (t.insert id distance).slots.size = max t.slots.size (id + 1) := by
  unfold insert
  split
  · rename_i within
    rw [Array.size_setIfInBounds, Nat.max_eq_left within]
  · rename_i outside
    rw [Array.size_push, Array.size_append, Array.size_replicate]
    omega

/-- Entries of different nodes may be recorded in either order. -/
theorem insert_comm (t : Distances) {id j : Nat} (apart : id ≠ j) (d e : Nat) :
    (t.insert id d).insert j e = (t.insert j e).insert id d := by
  apply ext_get?
  · simp only [size_insert, Nat.max_assoc, Nat.max_comm (id + 1)]
  · intro other
    rw [get?_insert, get?_insert, get?_insert, get?_insert]
    by_cases first : other = id
    · rw [if_pos first, if_pos first, if_neg (first.trans_ne apart)]
    · rw [if_neg first, if_neg first]

/-- An entry that is recorded twice is the same as once. -/
theorem insert_again (t : Distances) (id d : Nat) : (t.insert id d).insert id d = t.insert id d := by
  apply ext_get?
  · rw [size_insert, size_insert, Nat.max_assoc, Nat.max_self]
  · intro other
    rw [get?_insert, get?_insert]
    split <;> rfl

end Distances

/-! ## Notes in any order -/

section Notes

variable {o o' : Occasion} {os os' : List Occasion}

theorem note_again (o : Occasion) (t : Distances) : o.note (o.note t) = o.note t := by
  unfold Occasion.note
  cases o.reference? with
  | none => rfl
  | some reference =>
    cases o.address? with
    | none => rfl
    | some distance => exact t.insert_again reference.id distance

/-- Notes for different nodes may be made in either order. -/
theorem note_comm (apart : ∀ r ∈ o.reference?, ∀ r' ∈ o'.reference?, r.id ≠ r'.id)
    (t : Distances) : o'.note (o.note t) = o.note (o'.note t) := by
  unfold Occasion.note
  cases refers : o.reference? with
  | none => rfl
  | some r =>
    cases refers' : o'.reference? with
    | none => rfl
    | some r' =>
      have ids : r.id ≠ r'.id := apart r refers r' refers'
      cases o.address? with
      | none => rfl
      | some distance =>
        cases o'.address? with
        | none => rfl
        | some distance' => exact t.insert_comm ids distance distance'

/-- The nodes of one occasion are among those of all. -/
theorem referencesIn_cons (o : Occasion) (os : List Occasion) :
    referencesIn (o :: os) = o.reference?.toList ++ referencesIn os := by
  rw [referencesIn, List.filterMap_cons]
  cases o.reference? <;> rfl

/-- A note may be made before notes for other nodes or after them. -/
theorem foldl_note_comm (apart : ∀ r ∈ o.reference?, ∀ r' ∈ referencesIn os, r.id ≠ r'.id)
    (t : Distances) : os.foldl Occasion.note (o.note t) = o.note (os.foldl Occasion.note t) := by
  induction os generalizing t with
  | nil => rfl
  | cons first os ih =>
    rw [referencesIn_cons] at apart
    have here : ∀ r ∈ o.reference?, ∀ r' ∈ first.reference?, r.id ≠ r'.id := by
      intro r hr r' hr'
      exact apart r hr r' (List.mem_append_left _ (Option.mem_toList.2 hr'))
    have later := ih fun r hr r' hr' => apart r hr r' (List.mem_append_right _ hr')
    rw [List.foldl_cons, List.foldl_cons, note_comm here, later]

/-- Notes for some nodes may be made before notes for others or after them. -/
theorem foldl_notes_comm (apart : ∀ r ∈ referencesIn os, ∀ r' ∈ referencesIn os', r.id ≠ r'.id)
    (t : Distances) : os'.foldl Occasion.note (os.foldl Occasion.note t) =
      os.foldl Occasion.note (os'.foldl Occasion.note t) := by
  induction os generalizing t with
  | nil => rfl
  | cons o os ih =>
    rw [referencesIn_cons] at apart
    have here : ∀ r ∈ o.reference?, ∀ r' ∈ referencesIn os', r.id ≠ r'.id := by
      intro r hr
      exact apart r (List.mem_append_left _ (Option.mem_toList.2 hr))
    have later := ih fun r hr => apart r (List.mem_append_right _ hr)
    rw [List.foldl_cons, List.foldl_cons, later, foldl_note_comm here]

/-- Notes for nodes that are numbered apart may be made again. -/
theorem foldl_note_again (apart : ((referencesIn os).map Reference.id).Nodup) (t : Distances) :
    os.foldl Occasion.note (os.foldl Occasion.note t) = os.foldl Occasion.note t := by
  induction os generalizing t with
  | nil => rfl
  | cons o os ih =>
    rw [referencesIn_cons, List.map_append, List.nodup_append] at apart
    obtain ⟨-, rest, disjoint⟩ := apart
    have here : ∀ r ∈ o.reference?, ∀ r' ∈ referencesIn os, r.id ≠ r'.id := by
      intro r hr r' hr'
      exact disjoint _ (List.mem_map_of_mem (Option.mem_toList.2 hr)) _ (List.mem_map_of_mem hr')
    rw [List.foldl_cons, List.foldl_cons, ← foldl_note_comm here, note_again, ih rest]

end Notes

/-! ## Programs that were read apart -/

/-- The programs that are read from lists of tokens, one list after the other.  A list that is no
program uses up numbers all the same. -/
def programsOf (firstId : Nat) : List (List Token) → List (List Stmt)
  | [] => []
  | tokens :: more =>
    let parsed := parse tokens firstId
    match parsed.outcome with
    | .program statements => statements :: programsOf parsed.nextId more
    | _ => programsOf parsed.nextId more

/-- The nodes of two programs have different numbers. -/
def ReadApart (p q : List Stmt) : Prop :=
  ∀ r ∈ references p, ∀ r' ∈ references q, r.id ≠ r'.id

/-- The references of a program have different numbers. -/
def NumberedApart (program : List Stmt) : Prop :=
  ((references program).map Reference.id).Nodup

theorem parse_numbered {tokens : List Token} {firstId : Nat} {program : List Stmt}
    (parsed : (parse tokens firstId).outcome = .program program) :
    NumberedApart program ∧
      ∀ r ∈ references program, firstId ≤ r.id ∧ r.id < (parse tokens firstId).nextId := by
  obtain ⟨numbered, -⟩ :=
    (parse_grounded Token.grounds_any (fun _ _ => trivial) firstId).2 program parsed
  exact ⟨numbered.apart, numbered.within⟩

/-- The numbers of later programs are those that are still to come. -/
theorem programsOf_from (firstId : Nat) (lists : List (List Token)) :
    ∀ p ∈ programsOf firstId lists, NumberedApart p ∧ ∀ r ∈ references p, firstId ≤ r.id := by
  induction lists generalizing firstId with
  | nil => exact List.forall_mem_nil _
  | cons tokens more ih =>
    have onward : firstId ≤ (parse tokens firstId).nextId :=
      (parse_grounded Token.grounds_any (fun _ _ => trivial) firstId).1
    have later : ∀ p ∈ programsOf (parse tokens firstId).nextId more,
        NumberedApart p ∧ ∀ r ∈ references p, firstId ≤ r.id := by
      intro p hp
      obtain ⟨apart, from_⟩ := ih (parse tokens firstId).nextId p hp
      exact ⟨apart, fun r hr => Nat.le_trans onward (from_ r hr)⟩
    rw [programsOf]
    split
    · rename_i statements parsed
      have first := parse_numbered parsed
      exact List.forall_mem_cons.2 ⟨⟨first.1, fun r hr => (first.2 r hr).1⟩, later⟩
    · exact later

theorem programsOf_apart (firstId : Nat) (lists : List (List Token)) :
    (programsOf firstId lists).Pairwise ReadApart := by
  induction lists generalizing firstId with
  | nil => exact .nil
  | cons tokens more ih =>
    rw [programsOf]
    split
    · rename_i statements parsed
      apply List.Pairwise.cons _ (ih _)
      intro q hq r hr r' hr'
      have below := ((parse_numbered parsed).2 r hr).2
      have above := (programsOf_from _ more q hq).2 r' hr'
      exact Nat.ne_of_lt (Nat.lt_of_lt_of_le below above)
    · exact ih _

/-! ## Binding programs -/

section Resolve

variable {p q : List Stmt}

theorem fst_resolve (program : List Stmt) (t : Distances) :
    (resolve program t).1 = (occasions program).foldl Occasion.note t :=
  (resolve_walks program t).recorded

theorem referencesIn_occasions (program : List Stmt) :
    (referencesIn (occasions program)).Perm (references program) :=
  Stmt.referencesIn_occasionsAll [] program

theorem NumberedApart.occasions (apart : NumberedApart p) :
    ((referencesIn (occasions p)).map Reference.id).Nodup :=
  ((referencesIn_occasions p).map Reference.id).nodup_iff.2 apart

/-- The table has no part in what is reported. -/
theorem faults_resolve (program : List Stmt) (t u : Distances) :
    (resolve program t).2 = (resolve program u).2 :=
  (resolve_reports program t).1.unique (resolve_reports program u).1

/-- Only nodes of the program have entries because of it. -/
theorem get?_resolve_of_other {id : Nat} (other : ∀ r ∈ references p, r.id ≠ id) (t : Distances) :
    (resolve p t).1.get? id = t.get? id := by
  rw [fst_resolve]
  exact get?_foldl_note (fun r hr => other r ((referencesIn_occasions p).mem_iff.1 hr)) t

/-- A program sets the entries that it sets in an empty table, to the same values. -/
theorem get?_resolve (apart : NumberedApart p) (t : Distances) (id : Nat) :
    (resolve p t).1.get? id = ((resolve p .empty).1.get? id).or (t.get? id) := by
  by_cases own : ∃ r ∈ references p, r.id = id
  · obtain ⟨r, hr, rfl⟩ := own
    obtain ⟨o, ho, refers⟩ := List.mem_filterMap.1 ((referencesIn_occasions p).mem_iff.2 hr)
    rw [fst_resolve, fst_resolve, get?_foldl_note_of_mem apart.occasions ho refers,
      get?_foldl_note_of_mem apart.occasions ho refers, Distances.get?_empty, Option.or_none]
  · have other : ∀ r ∈ references p, r.id ≠ id := fun r hr same => own ⟨r, hr, same⟩
    rw [get?_resolve_of_other other, get?_resolve_of_other other, Distances.get?_empty,
      Option.none_or]

/-- Binding a program again changes nothing and reports the same. -/
theorem resolve_again (apart : NumberedApart p) (t : Distances) :
    resolve p (resolve p t).1 = resolve p t := by
  apply Prod.ext
  · rw [fst_resolve, fst_resolve, foldl_note_again apart.occasions]
  · exact faults_resolve p _ t

/-- Two programs come to the same table in either order. -/
def InEitherOrder (p q : List Stmt) : Prop :=
  ∀ t, (resolve q (resolve p t).1).1 = (resolve p (resolve q t).1).1

theorem ReadApart.inEitherOrder (apart : ReadApart p q) : InEitherOrder p q := by
  have disjoint : ∀ r ∈ referencesIn (occasions p), ∀ r' ∈ referencesIn (occasions q),
      r.id ≠ r'.id := by
    intro r hr r' hr'
    exact apart r ((referencesIn_occasions p).mem_iff.1 hr) r'
      ((referencesIn_occasions q).mem_iff.1 hr')
  intro t
  rw [fst_resolve, fst_resolve, fst_resolve, fst_resolve, foldl_notes_comm disjoint]

/-- The table after programs are bound one after the other. -/
def resolveEach (programs : List (List Stmt)) (t : Distances) : Distances :=
  programs.foldl (fun t program => (resolve program t).1) t

/-- Programs that were read apart may be bound in any order. -/
theorem resolveEach_perm {programs others : List (List Stmt)} (apart : programs.Pairwise ReadApart)
    (same : programs.Perm others) (t : Distances) :
    resolveEach others t = resolveEach programs t := by
  have pairs : programs.Pairwise InEitherOrder := apart.imp ReadApart.inEitherOrder
  have symm : Std.Symm InEitherOrder := ⟨fun p q either t => (either t).symm⟩
  have all : ∀ p ∈ programs, ∀ q ∈ programs, InEitherOrder p q := by
    intro p hp q hq
    exact pairs.forall_of_forall (fun p _ t => rfl) hp hq
  have folds := same.foldl_eq' (f := fun t program => (resolve program t).1)
    (fun p hp q hq t => all p hp q hq t) t
  exact folds.symm

end Resolve

end ClassScript
