import ClassScript.Proofs.Binding.Locality
import ClassScript.Proofs.Execution.Inventory
import ClassScript.Proofs.Session.Executions

set_option autoImplicit false

/-!
# Functions keep their distances

The table of distances changes between two sources only, when the second is bound, and then only for
nodes that are new.  All nodes of a function that a session holds are old: they are nodes of a
program that was launched before.  So whatever is read, bound or run later, with or without faults,
the references in the function are looked up as far out as when it was made.
-/

namespace ClassScript

open Eval

/-! ## Running leaves the table alone -/

section Running

variable {p q : Point} {fuel : Nat} {program : List Stmt} {σ : State}

theorem Calls.distances (calls : Calls p q) : q.state.distances = p.state.distances := by
  cases calls with
  | binaryRight first | logicalRight first _ | arguments first | setValue first | tail first =>
    exact ((allProceed _).evaluate _).of_ok first |>.distances
  | call first second =>
    exact ((((allProceed _).evaluate _).of_ok first).trans
      (((allProceed _).evaluateAll _).of_ok second)).distances
  | initializer _ made _ received =>
    exact (((proceeds_allocate _).of_ok made).trans
      ((Proceeds.compositional.receive _ _).of_ok received)).distances
  | body entered | block entered =>
    exact ((proceeds_openScope _ _).of_ok entered).distances
  | ifThen first _ | thenBranch first _ | elseBranch first _ | round first _ =>
    exact ((allProceed _).evaluate _).of_ok first |>.distances
  | rest first => exact ((allProceed _).execute _).of_ok first |>.distances
  | again first _ second =>
    exact ((((allProceed _).evaluate _).of_ok first).trans
      (((allProceed _).execute _).of_ok second)).distances
  | _ => rfl

theorem Starts.distances (starts : Starts fuel program σ p) : p.state.distances = σ.distances := by
  induction starts with
  | here s ss σ => rfl
  | later first _ ih => exact ih.trans (((allProceed _).execute _).of_ok first).distances

/-- A program runs with the table that it was launched with. -/
theorem Launch.Reaches.distances {l : Launch} (reached : l.Reaches fuel p) :
    p.state.distances = l.session.state.distances := by
  induction reached with
  | start starts => exact starts.distances
  | call _ calls ih => exact calls.distances.trans ih

end Running

/-! ## Sessions -/

namespace Session

variable {s s' : Session} {fuel : Nat} {source : String} {runs : List (Nat × String)} {l : Launch}

/-- Between the two sessions, numbers were used up and old entries stayed. -/
structure Ages (s s' : Session) : Prop where
  nextId : s.nextId ≤ s'.nextId
  kept : ∀ id < s.nextId, s'.state.distances.get? id = s.state.distances.get? id

theorem Ages.refl (s : Session) : s.Ages s :=
  ⟨Nat.le_refl _, fun _ _ => rfl⟩

theorem Ages.trans {s'' : Session} (h : s.Ages s') (k : s'.Ages s'') : s.Ages s'' :=
  ⟨Nat.le_trans h.nextId k.nextId,
    fun id old => (k.kept id (Nat.lt_of_lt_of_le old h.nextId)).trans (h.kept id old)⟩

theorem Prepares.ages (h : s.Prepares s') : s.Ages s' :=
  ⟨h.nextId, h.kept⟩

/-- What is launched has new numbers, and old entries stay. -/
theorem ages_of_launch? (launches : s.launch? source = some l) :
    s.Ages l.session ∧ ∀ r ∈ references l.program, r.id < l.session.nextId := by
  obtain ⟨read, -, same⟩ := launch?_eq_some launches
  obtain ⟨numbered, -⟩ := read_program read
  rw [same]
  exact ⟨(resolve_prepares read).ages, fun r hr => (numbered.within r hr).2⟩

theorem nextId_interpret (fuel : Nat) (program : List Stmt) (s : Session) :
    (s.interpret fuel program).2.nextId = s.nextId := by
  rcases leaves_cases (Eval.interpret fuel program) s.state with ⟨a, ran⟩ | ⟨i, ran⟩
  · rw [interpret_eq_ok ran]
  · rw [interpret_eq_error ran]

theorem ages_interpret (fuel : Nat) (program : List Stmt) (s : Session) :
    s.Ages (s.interpret fuel program).2 := by
  have same : (s.interpret fuel program).2.state.distances = s.state.distances := by
    rw [state_interpret]
    exact (proceeds_interpret fuel program s.state).distances
  exact ⟨Nat.le_of_eq (nextId_interpret fuel program s).symm, fun id _ => by rw [same]⟩

theorem ages_run (fuel : Nat) (source : String) (s : Session) :
    s.Ages (s.run fuel source).2 := by
  cases launches : s.launch? source with
  | none => exact (prepares_of_launch?_eq_none launches).ages
  | some l =>
    rw [run_of_launch? launches]
    exact (ages_of_launch? launches).1.trans (ages_interpret fuel l.program l.session)

theorem ages_runAll (runs : List (Nat × String)) (s : Session) : s.Ages (s.runAll runs).2 := by
  induction runs generalizing s with
  | nil => exact .refl s
  | cons run runs ih =>
    obtain ⟨fuel, source⟩ := run
    exact (ages_run fuel source s).trans (ih _)

/-- Old entries are there whenever a program is launched. -/
theorem ages_of_launches (launched : (fuel, l) ∈ s.launches runs) : s.Ages l.session := by
  induction runs generalizing s with
  | nil => cases launched
  | cons run runs ih =>
    obtain ⟨fuel', source⟩ := run
    rcases mem_launches_cons.1 launched with ⟨-, launches⟩ | later
    · exact (ages_of_launch? launches).1
    · exact (ages_run fuel' source s).trans (ih later)

/-- All numbers of the programs that were launched are used up. -/
theorem lt_nextId_of_launches (launched : (fuel, l) ∈ s.launches runs) :
    ∀ r ∈ references l.program, r.id < (s.runAll runs).2.nextId := by
  induction runs generalizing s with
  | nil => cases launched
  | cons run runs ih =>
    obtain ⟨fuel', source⟩ := run
    rcases mem_launches_cons.1 launched with ⟨-, launches⟩ | later
    · intro r hr
      have used : l.session.nextId ≤ (s.run fuel' source).2.nextId := by
        rw [run_of_launch? launches, nextId_interpret]
      have onward : (s.run fuel' source).2.nextId ≤ (s.runAll ((fuel', source) :: runs)).2.nextId :=
        (ages_runAll runs (s.run fuel' source).2).nextId
      exact Nat.lt_of_lt_of_le ((ages_of_launch? launches).2 r hr) (Nat.le_trans used onward)
    · exact ih later

/-- Old entries are there in every state that a session comes to. -/
theorem ComesTo.kept {σ : State} (comes : s.ComesTo runs σ) :
    ∀ id < s.nextId, σ.distances.get? id = s.state.distances.get? id := by
  intro id old
  cases comes with
  | at_ launched reached =>
    rw [reached.distances]
    exact (ages_of_launches launched).kept id old
  | after launched reached =>
    rw [Point.onward _ |>.distances, reached.distances]
    exact (ages_of_launches launched).kept id old
  | between split => exact (ages_runAll _ s).kept id old

/-- The node has an old number, if it has one. -/
def Old (s : Session) (e : Expr) : Prop :=
  ∀ r ∈ e.reference?, r.id < s.nextId

/-- All nodes of a function that is held after some sources are old. -/
theorem old_of_has {host : Host} {natives : List Native} {f : Closure}
    (has : ((Session.start host natives).runAll runs).2.state.Has f) :
    ∀ e ∈ f.declaration.walk, ((Session.start host natives).runAll runs).2.Old e := by
  let s := Session.start host natives
  have known : s.StartsIn (Point.Shows .nodes (s.runAll runs).2.Old) runs := by
    intro fuel l launched q starts
    have all : ∀ e ∈ Stmt.walkAll l.program, (s.runAll runs).2.Old e := fun e he r hr =>
      lt_nextId_of_launches launched r (List.mem_filterMap.2 ⟨e, he, hr⟩)
    exact starts.shows all
  have start : s.state.Holds (Value.Shows .nodes (s.runAll runs).2.Old) :=
    .shows_start host natives
  have holds := (state_runAll (I := .shows .nodes (s.runAll runs).2.Old) start known).2
  exact holds.has has

end Session

/-! ## Binding in sessions -/

/-- Binding is local, may be repeated and takes place in any order.  Of programs that are read from
lists of tokens one after the other, lists that are no program among them, each sets entries of its
own nodes only, to the values that it sets in an empty table, and reports the same faults from
whatever table; a session takes part with nothing but its table.  Binding a program again changes
nothing and reports the same, and any two of the programs, as all of them, come to the same table in
any order.  Therefore the references in every function that a session holds after some sources keep
their entries in all states that it comes to with later ones. -/
theorem binding_local :
    (∀ (firstId : Nat) (lists : List (List Token)),
      (∀ p ∈ programsOf firstId lists,
        (∀ t, (∀ id, (∀ r ∈ references p, r.id ≠ id) → (resolve p t).1.get? id = t.get? id) ∧
          (∀ id, (resolve p t).1.get? id = ((resolve p .empty).1.get? id).or (t.get? id)) ∧
          (resolve p t).2 = (resolve p .empty).2 ∧
          resolve p (resolve p t).1 = resolve p t) ∧
        ∀ s : Session, s.resolve p = ((resolve p .empty).2,
          { s with state := { s.state with distances := (resolve p s.state.distances).1 } })) ∧
      (programsOf firstId lists).Pairwise (fun p q => ∀ t,
        (resolve q (resolve p t).1).1 = (resolve p (resolve q t).1).1) ∧
      ∀ others, (programsOf firstId lists).Perm others →
        ∀ t, resolveEach others t = resolveEach (programsOf firstId lists) t) ∧
    ∀ host natives before,
      let s := ((Session.start host natives).runAll before).2
      ∀ f, s.state.Has f → ∀ e ∈ f.declaration.walk, ∀ r ∈ e.reference?,
        ∀ later σ, s.ComesTo later σ →
          σ.distances.get? r.id = s.state.distances.get? r.id := by
  constructor
  · intro firstId lists
    have apart := programsOf_apart firstId lists
    refine ⟨fun p hp => ?_, apart.imp ReadApart.inEitherOrder, fun others same t => ?_⟩
    · have numbered := (programsOf_from firstId lists p hp).1
      constructor
      · intro t
        exact ⟨fun id other => get?_resolve_of_other other t, get?_resolve numbered t,
          faults_resolve p t .empty, resolve_again numbered t⟩
      · intro s
        rw [← faults_resolve p s.state.distances .empty]
        rfl
    · exact resolveEach_perm apart same t
  · intro host natives before s f has e he r hr later σ comes
    have old : r.id < s.nextId := Session.old_of_has has e he r hr
    exact comes.kept r.id old

end ClassScript
