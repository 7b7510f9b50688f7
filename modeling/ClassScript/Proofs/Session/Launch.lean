import ClassScript.Proofs.Binding.Declarations
import ClassScript.Proofs.Binding.Returning
import ClassScript.Proofs.Tree.Numbering
import ClassScript.Session

set_option autoImplicit false

/-!
# Launching a source

A source runs in two parts.  Reading and binding it changes nothing but the recorded distances, and
those only for nodes that were not there before.  If it has no static fault, its program is launched:
the rest of the run is that program's execution.
-/

namespace ClassScript

/-- A program that runs, and the session once its names are bound. -/
structure Launch where
  program : List Stmt
  session : Session

namespace Session

/-- What a source launches, if it has no static fault. -/
def launch? (source : String) (s : Session) : Option Launch :=
  match s.read source with
  | (.program program, s) =>
    match s.resolve program with
    | ([], s) => some { program, session := s }
    | _ => none
  | _ => none

/-- No node that is still to come has a distance. -/
def Bounded (s : Session) : Prop :=
  ∀ id, s.nextId ≤ id → s.state.distances.get? id = none

/-- Between the two sessions, something was read and bound but nothing ran. -/
structure Prepares (s s' : Session) : Prop where
  state : ∃ distances, s'.state = { s.state with distances }
  nextId : s.nextId ≤ s'.nextId
  kept : ∀ id < s.nextId, s'.state.distances.get? id = s.state.distances.get? id
  bounded : s.Bounded → s'.Bounded

/-- What binding without a fault has made sure of. -/
structure Binds (s s' : Session) (program : List Stmt) : Prop where
  prepares : s.Prepares s'
  formed : Stmt.WellFormedAll program
  new : Stmt.DeclaresNewAll [] program
  returns : Stmt.ReturnsInAll .outside program
  settled : ∀ v ∈ programVisits program, v.Legal ∧ v.reference.Spelled ∧
    s'.state.distances.get? v.id = distance? v.name v.scopes
  within : ∀ v ∈ programVisits program, s.nextId ≤ v.id ∧ v.id < s'.nextId
  apart : ∀ v ∈ programVisits program, ∀ v' ∈ programVisits program, v.id = v'.id → v = v'

variable {s s' : Session} {fuel : Nat} {source : String} {program : List Stmt}

theorem Prepares.nextId_of (h : s.nextId ≤ s'.nextId) (same : s'.state = s.state) :
    s.Prepares s' where
  state := ⟨s.state.distances, same⟩
  nextId := h
  kept id _ := by rw [same]
  bounded bounded id hid := by
    rw [same]
    exact bounded id (Nat.le_trans h hid)

/-- Reading uses up numbers for the nodes of the program, and does nothing else. -/
theorem read_prepares (source : String) (s : Session) : s.Prepares (s.read source).2 :=
  .nextId_of (parse_made (scan_spelled source) s.nextId).1 rfl

/-- What was read is a program as the parser makes it. -/
theorem read_program (h : (s.read source).1 = .program program) :
    Numbered s.nextId (s.read source).2.nextId (references program) ∧
      Stmt.WellFormedAll program := by
  apply (parse_made (scan_spelled source) s.nextId).2 program
  unfold read at h
  dsimp only at h
  split at h
  · rename_i statements returned
    split at h
    · cases h
      exact returned
    · cases h
  · cases h
  · cases h

/-- Every visit of a program is of one of its references. -/
theorem mem_references_of_visit {v : Visit} (h : v ∈ programVisits program) :
    v.reference ∈ references program := by
  have mem := List.mem_map_of_mem (f := Visit.reference) h
  rwa [programVisits, Stmt.reference_visitsAll] at mem

/-- Binding what was read records distances for its nodes only. -/
theorem resolve_prepares (read : (s.read source).1 = .program program) :
    s.Prepares ((s.read source).2.resolve program).2 := by
  obtain ⟨numbered, formed⟩ := read_program read
  have others : ∀ id, id < s.nextId ∨ (s.read source).2.nextId ≤ id →
      ((s.read source).2.resolve program).2.state.distances.get? id =
        s.state.distances.get? id := by
    intro id outside
    apply (resolve_settles formed numbered.toApart s.state.distances).1
    intro r hr same
    have := numbered.within r hr
    omega
  have reads := read_prepares source s
  exact ⟨⟨_, rfl⟩, reads.nextId, fun id old => others id (.inl old),
    fun bounded id new =>
      (others id (.inr new)).trans (bounded id (Nat.le_trans reads.nextId new))⟩

/-- Without a fault, every visit has the distance that the walk finds. -/
theorem resolve_binds (bounded : s.Bounded) (read : (s.read source).1 = .program program)
    (silent : ((s.read source).2.resolve program).1 = []) :
    s.Binds ((s.read source).2.resolve program).2 program := by
  obtain ⟨numbered, formed⟩ := read_program read
  have settled := (resolve_settles formed numbered.toApart s.state.distances).2 silent
  refine ⟨resolve_prepares read, formed, declaresNew_of_resolve silent,
    returnsIn_of_resolve silent, fun v hv => ?_,
    fun v hv => numbered.within _ (mem_references_of_visit hv), fun v hv v' hv' same => ?_⟩
  swap
  · have ids := numbered.toApart.visits (Stmt.reference_visitsAll [] [] program)
    exact List.inj_on_of_nodup_map ids hv hv' same
  have mem := mem_references_of_visit hv
  obtain ⟨legal, recorded⟩ := settled v hv
  have unrecorded : s.state.distances.get? v.id = none :=
    bounded v.id (numbered.within _ mem).1
  refine ⟨legal, numbered.spelled _ mem, recorded.trans ?_⟩
  rw [unrecorded, Option.or_none]

/-! ## Launching -/

/-- A source that launches a program was read and bound without faults. -/
theorem launch?_eq_some {l : Launch} (h : s.launch? source = some l) :
    (s.read source).1 = .program l.program ∧ ((s.read source).2.resolve l.program).1 = [] ∧
      l = ⟨l.program, ((s.read source).2.resolve l.program).2⟩ := by
  unfold launch? at h
  split at h
  · rename_i program s₁ read
    split at h
    · rename_i s₂ bound
      cases h
      rw [read]
      dsimp only
      rw [bound]
      exact ⟨rfl, rfl, rfl⟩
    · cases h
  · cases h

/-- What was read and bound without faults is launched. -/
theorem launch?_of_read (read : (s.read source).1 = .program program)
    (silent : ((s.read source).2.resolve program).1 = []) :
    s.launch? source = some ⟨program, ((s.read source).2.resolve program).2⟩ := by
  unfold launch?
  cases was : s.read source with
  | mk o s₁ =>
    rw [was] at read silent
    obtain rfl : o = .program program := read
    dsimp only at silent ⊢
    cases bound : s₁.resolve program with
    | mk faults s₂ =>
      rw [bound] at silent
      obtain rfl : faults = [] := silent
      rfl

theorem binds_of_launch? {l : Launch} (bounded : s.Bounded)
    (h : s.launch? source = some l) : s.Binds l.session l.program := by
  obtain ⟨read, silent, same⟩ := launch?_eq_some h
  rw [same]
  exact resolve_binds bounded read silent

/-- A session that runs a program ends as the program does, in the state that it leaves. -/
theorem interpret_eq_ok {σ : State} {u : Unit} (h : Eval.interpret fuel program s.state = .ok u σ) :
    s.interpret fuel program = (.finished, { s with state := σ }) := by
  unfold interpret perform
  rw [h]

theorem interpret_eq_error {σ : State} {i : Interrupt}
    (h : Eval.interpret fuel program s.state = .error i σ) :
    s.interpret fuel program = (.ofInterrupt i, { s with state := σ }) := by
  unfold interpret perform
  rw [h]

/-- The rest of the run is the execution of what is launched. -/
theorem run_of_launch? {l : Launch} (h : s.launch? source = some l) :
    s.run fuel source = l.session.interpret fuel l.program := by
  unfold launch? at h
  unfold run
  split at h
  · rename_i program s₁ read
    rw [read]
    dsimp only
    split at h
    · rename_i s₂ bound
      cases h
      rw [bound]
    · cases h
  · cases h

/-- Where nothing is launched, nothing runs. -/
theorem prepares_of_launch?_eq_none (h : s.launch? source = none) :
    s.Prepares (s.run fuel source).2 := by
  have reads := read_prepares source s
  unfold launch? at h
  unfold run
  split at h
  · rename_i program s₁ read
    have resolves := resolve_prepares (congrArg Prod.fst read)
    rw [read] at resolves ⊢
    dsimp only at resolves ⊢
    split at h
    · cases h
    · rename_i faults nonempty
      split
      · exact absurd ‹_› (nonempty _)
      · rename_i bound
        rwa [bound] at resolves
  · rename_i other
    split
    · rename_i read
      rwa [read] at reads
    · rename_i read
      rwa [read] at reads
    · rename_i read
      exact absurd read (other _ _)

end Session

end ClassScript
