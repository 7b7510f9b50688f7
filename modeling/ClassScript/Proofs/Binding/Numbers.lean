import ClassScript.Proofs.Binding.Locality
import ClassScript.Proofs.Grammar.Climbing

set_option autoImplicit false

/-!
# No number is given twice

The nodes of a program that refer to bindings are known by numbers, and one table is for the nodes of
all programs.  So nodes of different programs must have different numbers as well, whatever was read in
between: programs, lists with faults, and lists that reading broke off in.
-/

namespace ClassScript

/-- A program that is read in place has the numbers that reading it used up, each once. -/
theorem InPlace.program_numbered {tokens : List Token} {firstId : Nat} {statements : List Stmt}
    {r : TokenReader} (read : InPlace.program (.start tokens firstId) = .ok (.program statements) r) :
    NumberedApart statements ∧
      ∀ reference ∈ references statements, firstId ≤ reference.id ∧ reference.id < r.nextId := by
  obtain ⟨l, rfl, -⟩ := exists_closed (closed_of_program read)
  obtain ⟨outcome, r', ran, -, -, parsed, -⟩ := l.program_eq firstId
  cases read.symm.trans ran
  have numbered := parse_numbered (congrArg Parse.outcome parsed)
  rw [parsed] at numbered
  exact numbered

/-- The programs that are read in place from lists, one list after the other.  Whatever comes of a list,
the next one starts with the number at which reading it left off. -/
def programsRead (firstId : Nat) : List (List Token) → List (List Stmt)
  | [] => []
  | tokens :: more =>
    match InPlace.program (.start tokens firstId) with
    | .ok (.program statements) r => statements :: programsRead r.nextId more
    | .ok _ r | .error _ r => programsRead r.nextId more

/-- The numbers of the references in several programs. -/
def numbersOf (programs : List (List Stmt)) : List Nat :=
  (programs.flatMap references).map Reference.id

theorem numbersOf_cons (statements : List Stmt) (programs : List (List Stmt)) :
    numbersOf (statements :: programs) =
      (references statements).map Reference.id ++ numbersOf programs := by
  rw [numbersOf, List.flatMap_cons, List.map_append]
  rfl

/-- Reading goes up from the first number, and what is read has different numbers. -/
theorem programsRead_numbered (firstId : Nat) (lists : List (List Token)) :
    (∀ n ∈ numbersOf (programsRead firstId lists), firstId ≤ n) ∧
      (numbersOf (programsRead firstId lists)).Nodup := by
  -- the first number varies, since every list starts where the one before it left off
  induction lists generalizing firstId with
  | nil => exact ⟨List.forall_mem_nil _, .nil⟩
  | cons tokens more ih =>
    rw [programsRead]
    have later : ∀ {r : TokenReader}, firstId ≤ r.nextId →
        ∀ n ∈ numbersOf (programsRead r.nextId more), firstId ≤ n :=
      fun up n mem => Nat.le_trans up ((ih _).1 n mem)
    split
    · rename_i statements r read
      obtain ⟨apart, within⟩ := InPlace.program_numbered read
      have own : ∀ n ∈ (references statements).map Reference.id, firstId ≤ n ∧ n < r.nextId := by
        intro n mem
        obtain ⟨reference, among, rfl⟩ := List.mem_map.1 mem
        exact within reference among
      rw [numbersOf_cons]
      refine ⟨List.forall_mem_append.2 ⟨fun n mem => (own n mem).1,
        later (InPlace.program_climbs.ok read).ids⟩, ?_⟩
      refine List.nodup_append.2 ⟨apart, (ih _).2, fun n mem m mem' => ?_⟩
      exact Nat.ne_of_lt (Nat.lt_of_lt_of_le (own n mem).2 ((ih _).1 m mem'))
    · rename_i r other read
      exact ⟨later (InPlace.program_climbs.ok read).ids, (ih _).2⟩
    · rename_i stop r read
      exact ⟨later (InPlace.program_climbs.error read).ids, (ih _).2⟩

/-- Programs that were read apart have different numbers. -/
theorem numbersOf_nodup {programs : List (List Stmt)} (each : ∀ p ∈ programs, NumberedApart p)
    (apart : programs.Pairwise ReadApart) : (numbersOf programs).Nodup := by
  rw [numbersOf, List.map_flatMap, List.nodup_flatMap]
  refine ⟨each, apart.imp fun {p q} disjoint n mem mem' => ?_⟩
  obtain ⟨r, hr, rfl⟩ := List.mem_map.1 mem
  obtain ⟨r', hr', same⟩ := List.mem_map.1 mem'
  exact disjoint r hr r' hr' same.symm

/-- **Node numbers are unique.**  However many lists of tokens are read, one after the other, and whatever
they are, no two nodes of the programs that come of it have the same number: neither within a program
nor in different ones, and wherever reading the other lists failed.  It makes no difference whether the
lists are read in place or taken apart. -/
theorem nodes_numbered_apart (firstId : Nat) (lists : List (List Token)) :
    (numbersOf (programsRead firstId lists)).Nodup ∧
    (numbersOf (programsOf firstId lists)).Nodup := by
  refine ⟨(programsRead_numbered firstId lists).2, numbersOf_nodup (fun p among => ?_) ?_⟩
  · exact (programsOf_from firstId lists p among).1
  · exact programsOf_apart firstId lists

end ClassScript
