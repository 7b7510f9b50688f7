import ClassScript.Proofs.Execution.Restored
import ClassScript.Proofs.Likeness.Looser
import ClassScript.Proofs.Likeness.Simulation
import ClassScript.Proofs.Likeness.Text
import ClassScript.Proofs.Session.History

set_option autoImplicit false

/-!
# Sessions that are alike

Two sessions are alike if their states are, where references go together that have the same distance
in both.  Reading and binding leave sessions alike whatever is read, and so do programs that are
alike.  So every session is like itself, under any guise that has nothing against names and lines as
they are.
-/

namespace ClassScript

/-! ## What a session knows -/

/-- The number was given to a node, for which this distance is recorded. -/
def Session.Knows (s : Session) (id : Nat) (d : Option Nat) : Prop :=
  id < s.nextId ∧ s.state.distances.get? id = d

/-- The guise under which references are linked that have the same distance in the two sessions. -/
def Guise.across (K : Guise) (s s' : Session) : Guise :=
  { K with link := fun id id' d => s.Knows id d ∧ s'.Knows id' d }

/-- The sessions are alike, before a program or after it. -/
structure Session.Alike (K : Guise) (s s' : Session) : Prop where
  matched : ∃ marked, Pair.Matched (K.across s s') ⟨s.state, s'.state, marked⟩
  current : s.state.current = globalScope
  bounded : s.Bounded
  bounded' : s'.Bounded

/-- The runs end for the same reason. -/
inductive Outcome.Alike (K : Guise) : Outcome → Outcome → Prop where
  | finished : Outcome.Alike K .finished .finished
  | failed {e e' : RuntimeError} (same : e.Alike K e') : Outcome.Alike K (.failed e) (.failed e')
  | outOfFuel : Outcome.Alike K .outOfFuel .outOfFuel
  | malformed : Outcome.Alike K .malformed .malformed

variable {K : Guise} {s s' s₁ s₁' : Session} {program program' : List Stmt} {fuel : Nat}
  {source : String} {l : Launch}

theorem Outcome.Alike.ofInterrupt {i i' : Interrupt} (h : i.Alike (K.across s s') i') :
    Outcome.Alike K (.ofInterrupt i) (.ofInterrupt i') := by
  cases h with
  | error same => exact .failed ⟨same.line, same.fault⟩
  | outOfFuel => exact .outOfFuel
  | malformed => exact .malformed

namespace Session

/-- What is known stays known. -/
theorem Knows.prepare {id : Nat} {d : Option Nat} (h : s.Knows id d) (prepares : s.Prepares s₁) :
    s₁.Knows id d :=
  ⟨Nat.lt_of_lt_of_le h.1 prepares.nextId, (prepares.kept id h.1).trans h.2⟩

/-- The references of a program that was bound are known at the distances that the walk finds. -/
theorem Binds.placed (h : s.Binds s₁ program) : ∀ v ∈ programVisits program, v.Placed s₁.Knows :=
  fun v hv => ⟨(h.within v hv).2, (h.settled v hv).2.2⟩

/-- A program runs the same where the state is the same. -/
theorem interpret_congr (state : s.state = s'.state) (fuel : Nat) (program : List Stmt) :
    (s.interpret fuel program).1 = (s'.interpret fuel program).1 ∧
      (s.interpret fuel program).2.state = (s'.interpret fuel program).2.state := by
  cases ran : Eval.interpret fuel program s.state with
  | ok u σ =>
    rw [interpret_eq_ok ran, interpret_eq_ok (state ▸ ran)]
    exact ⟨rfl, rfl⟩
  | error i σ =>
    rw [interpret_eq_error ran, interpret_eq_error (state ▸ ran)]
    exact ⟨rfl, rfl⟩

end Session

/-! ## What leaves sessions alike -/

namespace Session.Alike

/-- Once more is known, references are linked that were, and states stay alike. -/
theorem looser_across (left : ∀ id d, s.Knows id d → s₁.Knows id d)
    (right : ∀ id d, s'.Knows id d → s₁'.Knows id d) :
    (K.across s s').Looser (K.across s₁ s₁') where
  word := rfl
  allows _ _ h := h
  line _ _ h := h
  link id id' d h := ⟨left id d h.1, right id' d h.2⟩

/-- Sessions that have run nothing are alike. -/
theorem start (K : Guise) (host : Host) (natives : List Native) :
    (Session.start host natives).Alike K (Session.start host natives) where
  matched := by
    let pairs := natives.map fun f => (f.name, Value.native f)
    have same : ∀ (K : Guise) (C : Chart), Bindings.Same (Value.Alike K C)
        ((Bindings.ofPairs pairs).rename id) (Bindings.ofPairs pairs) := by
      intro K C
      rw [Bindings.rename_ofPairs Function.injective_id]
      refine Bindings.Same.ofPairs (List.forall₂_map_left_iff.2 (List.forall₂_same.2 ?_))
      intro p hp
      obtain ⟨f, -, rfl⟩ := List.mem_map.1 hp
      exact ⟨rfl, .native f⟩
    refine ⟨fun _ => false, fun f => ?_, rfl, rfl, Nat.zero_lt_one, rfl, .nil,
      ⟨rfl, rfl, rfl, rfl, rfl⟩, fun id _ _ linked => absurd linked.1.1 (Nat.not_lt_zero id)⟩
    cases f with
    | zero => exact .some ⟨rfl, same _ _⟩
    | succ f => exact .none
  current := rfl
  bounded _ _ := rfl
  bounded' _ _ := rfl

/-- Reading and binding leave sessions alike. -/
theorem prepare (h : s.Alike K s') (left : s.Prepares s₁) (right : s'.Prepares s₁') :
    s₁.Alike K s₁' := by
  obtain ⟨T, same⟩ := left.state
  obtain ⟨T', same'⟩ := right.state
  refine ⟨?_, ?_, left.bounded h.bounded, right.bounded h.bounded'⟩
  · obtain ⟨marked, m⟩ := h.matched
    have looser : (K.across s s').Looser (K.across s₁ s₁') :=
      looser_across (fun _ _ known => known.prepare left) fun _ _ known => known.prepare right
    have loosened := m.loosen looser s₁.state.distances s₁'.state.distances
      fun id id' d linked => ⟨linked.1.2, linked.2.2⟩
    refine ⟨marked, ?_⟩
    rw [Pair.withTables] at loosened
    rw [same, same'] at loosened ⊢
    exact loosened
  · rw [same]
    exact h.current

/-- States that two alike sessions have gone on to leave them alike if they are alike. -/
theorem goOn {p : Pair} (h : s.Alike K s') (m : p.Matched (K.across s s'))
    (left : s.state.Onward p.left) (right : s'.state.Onward p.right) :
    Session.Alike K { s with state := p.left } { s' with state := p.right } where
  matched := by
    have looser : (K.across s s').Looser
        (K.across { s with state := p.left } { s' with state := p.right }) := by
      refine looser_across (fun id d known => ⟨known.1, ?_⟩) fun id d known => ⟨known.1, ?_⟩
      · exact (congrArg (·.get? id) left.distances).trans known.2
      · exact (congrArg (·.get? id) right.distances).trans known.2
    exact ⟨p.marked, m.loosen looser p.left.distances p.right.distances
      fun _ _ _ linked => ⟨linked.1.2, linked.2.2⟩⟩
  current := left.current.trans h.current
  bounded id hid := (congrArg (·.get? id) left.distances).trans (h.bounded id hid)
  bounded' id hid := (congrArg (·.get? id) right.distances).trans (h.bounded' id hid)

/-- Programs that are alike end alike, and leave sessions alike. -/
theorem interpret (h : s.Alike K s')
    (programs : Stmt.AlikeAll (K.across s s') [] [] program program') (fuel : Nat) :
    (s.interpret fuel program).2.Alike K (s'.interpret fuel program').2 ∧
      Outcome.Alike K (s.interpret fuel program).1 (s'.interpret fuel program').1 := by
  obtain ⟨marked, m⟩ := h.matched
  have mirrors := @Mirrors.interpret _ fuel _ _ _ _ m h.current programs
  have proceeds := proceeds_interpret fuel
  cases ran : Eval.interpret fuel program s.state with
  | ok u σ =>
    obtain ⟨p, u', rfl, ran', m', -⟩ := mirrors.ok u σ ran
    rw [Session.interpret_eq_ok ran, Session.interpret_eq_ok ran']
    exact ⟨h.goOn m' ((proceeds program).of_ok ran) ((proceeds program').of_ok ran'), .finished⟩
  | error i σ =>
    obtain ⟨p, i', rfl, ran', m', -, same⟩ := mirrors.error i σ ran
    rw [Session.interpret_eq_error ran, Session.interpret_eq_error ran']
    exact ⟨h.goOn m' ((proceeds program).of_error ran) ((proceeds program').of_error ran'),
      .ofInterrupt same⟩

end Session.Alike

/-! ## Every session is like itself -/

namespace Guise

/-- The guise has nothing against names and lines as they are. -/
structure Lenient (K : Guise) : Prop where
  whole : ∀ name, K.allows false name
  line : ∀ n, K.line n n

/-- Exchanging tokens for similar ones, no two references get unlinked that are known at the same
distance. -/
theorem retells_across {f : Token → Token} (whole : ∀ name, K.allows false name)
    (token : ∀ t, K.SameToken t (f t)) : (K.across s s').Retells f s.Knows s'.Knows where
  token t := ⟨(token t).kind, (token t).lexeme, (token t).literal, (token t).line⟩
  whole := whole
  link _ _ _ left right := ⟨left, right⟩

end Guise

namespace Session.Alike

/-- A program that is launched runs alike in the same session. -/
theorem launched (h : s.Alike K s) (lenient : K.Lenient) (launches : s.launch? source = some l) :
    l.session.Alike K l.session ∧
      Stmt.AlikeAll (K.across l.session l.session) [] [] l.program l.program := by
  have binds := Session.binds_of_launch? h.bounded launches
  have retells : (K.across l.session l.session).Retells id l.session.Knows l.session.Knows :=
    Guise.retells_across lenient.whole fun t => ⟨rfl, rfl, rfl, lenient.line _⟩
  exact ⟨h.prepare binds.prepares binds.prepares, .of_text retells (List.forall_mem_nil _)
    (Stmt.mapTokensAll_id _).symm binds.placed binds.placed⟩

/-- Whatever runs, a session that was like itself is so still. -/
theorem runAll (h : s.Alike K s) (lenient : K.Lenient) (runs : List (Nat × String)) :
    (s.runAll runs).2.Alike K (s.runAll runs).2 := by
  induction runs generalizing s with
  | nil => exact h
  | cons run runs ih =>
    obtain ⟨fuel, source⟩ := run
    have first : (s.run fuel source).2.Alike K (s.run fuel source).2 := by
      cases launches : s.launch? source with
      | none =>
        have prepares : s.Prepares (s.run fuel source).2 :=
          Session.prepares_of_launch?_eq_none launches
        exact h.prepare prepares prepares
      | some l =>
        obtain ⟨alike, programs⟩ := h.launched lenient launches
        rw [Session.run_of_launch? launches]
        exact (alike.interpret programs fuel).1
    exact ih first

end Session.Alike

/-- Every session is like itself. -/
theorem Session.alike_runAll (lenient : K.Lenient) (host : Host) (natives : List Native)
    (runs : List (Nat × String)) :
    ((Session.start host natives).runAll runs).2.Alike K
      ((Session.start host natives).runAll runs).2 :=
  (Session.Alike.start K host natives).runAll lenient runs

end ClassScript
