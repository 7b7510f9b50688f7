import ClassScript.Proofs.Grammar.Totality
import ClassScript.Proofs.Session.Rereading

set_option autoImplicit false

/-!
# Rejected sources leave no trace

A source with a static fault uses up numbers of nodes, and the distances that were found for its
references stay recorded.  Neither is ever noticed: with all rejected sources taken out of a session,
the others get the replies that they got, and the session ends in the same state up to the numbers of
nodes.
-/

namespace ClassScript

/-! ## Replies -/

/-- Whether nothing ran because of static faults. -/
def Outcome.isRejected : Outcome → Bool
  | .rejected _ => true
  | _ => false

/-- What is seen of running a source: how it ended, and what it printed. -/
structure Reply where
  outcome : Outcome
  printed : String

namespace Session

/-- The reply to a source. -/
def reply (fuel : Nat) (source : String) (s : Session) : Reply where
  outcome := (s.run fuel source).1
  printed := (s.run fuel source).2.printedSince s.state.printed.size

/-- The replies to sources that run one after the other, each with its fuel. -/
def replies : List (Nat × String) → Session → List Reply
  | [], _ => []
  | (fuel, source) :: rest, s => s.reply fuel source :: replies rest (s.run fuel source).2

/-- The sources that are not rejected when all of them run one after the other. -/
def accepted : List (Nat × String) → Session → List (Nat × String)
  | [], _ => []
  | (fuel, source) :: rest, s =>
    if (s.run fuel source).1.isRejected then accepted rest (s.run fuel source).2
    else (fuel, source) :: accepted rest (s.run fuel source).2

variable {s s' : Session} {fuel : Nat} {source : String} {l : Launch}

/-! ## What is rejected -/

/-- What launches nothing is rejected. -/
theorem isRejected_of_launch?_eq_none (h : s.launch? source = none) (fuel : Nat) :
    (s.run fuel source).1.isRejected = true := by
  have ends : (s.read source).1 ≠ .exhausted := by
    unfold read
    dsimp only
    split
    · split <;> exact nofun
    · exact nofun
    · rename_i ran
      exact absurd ran (parse_ends _ _)
  unfold launch? at h
  unfold run
  split at h
  · rename_i program s₁ read
    rw [read]
    dsimp only
    split at h
    · cases h
    · rename_i faulty
      split
      · exact absurd ‹_› (faulty _)
      · rfl
  · rename_i other
    split
    · rfl
    · rename_i s₁ read
      exact absurd (congrArg Prod.fst read) ends
    · rename_i read
      exact absurd read (other _ _)

/-- What is launched is not rejected, however it ends. -/
theorem isRejected_of_launch? (h : s.launch? source = some l) (fuel : Nat) :
    (s.run fuel source).1.isRejected = false := by
  rw [run_of_launch? h]
  unfold interpret
  split
  · rfl
  · rename_i e s₁ _
    cases e <;> rfl

/-! ## Taking out what is rejected -/

/-- The replies are the same from sessions that are the same up to the numbers of nodes, when what is
rejected in the one is taken out in the other. -/
theorem Alike.replies_accepted (h : s.Alike .numbers s') (runs : List (Nat × String)) :
    s'.replies (s.accepted runs) = (s.replies runs).filter (fun r => !r.outcome.isRejected) ∧
      (s.runAll runs).2.Alike .numbers (s'.runAll (s.accepted runs)).2 := by
  induction runs generalizing s s' with
  | nil => exact ⟨rfl, h⟩
  | cons run runs ih =>
    obtain ⟨fuel, source⟩ := run
    cases launched : s.launch? source with
    | none =>
      have rejected := isRejected_of_launch?_eq_none launched fuel
      have prepared : (s.run fuel source).2.Alike .numbers s' :=
        h.prepare (prepares_of_launch?_eq_none launched) (.nextId_of (Nat.le_refl _) rfl)
      obtain ⟨same, after⟩ := ih prepared
      rw [accepted, if_pos rejected, replies,
        List.filter_cons_of_neg (by simp [reply, rejected])]
      exact ⟨same, after⟩
    | some l =>
      have ran := isRejected_of_launch? launched fuel
      obtain ⟨alike, outcome⟩ := h.run launched fuel
      obtain ⟨same, after⟩ := ih alike
      have first : s'.reply fuel source = s.reply fuel source := by
        unfold reply printedSince
        rw [outcome, alike.printed, h.printed]
      rw [accepted, if_neg (by simp [ran]), replies, replies, same, first,
        List.filter_cons_of_pos (by simp [reply, ran])]
      exact ⟨rfl, after⟩

end Session

/-- With the rejected sources taken out, all others get the replies that they got, and the state in
the end is the same up to the numbers of nodes. -/
theorem rejected_traceless (host : Host) (natives : List Native) (runs : List (Nat × String)) :
    let s := Session.start host natives
    s.replies (s.accepted runs) = (s.replies runs).filter (fun r => !r.outcome.isRejected) ∧
      (s.runAll (s.accepted runs)).2.state.unnumbered = (s.runAll runs).2.state.unnumbered := by
  intro s
  obtain ⟨same, after⟩ :=
    (Session.Alike.start Guise.numbers host natives).replies_accepted runs
  exact ⟨same, after.unnumbered⟩

end ClassScript
