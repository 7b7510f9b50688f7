import ClassScript.Proofs.Grammar.Joining
import ClassScript.Proofs.Likeness.Erasure
import ClassScript.Proofs.Likeness.Sessions
import ClassScript.Proofs.Likeness.Walk

set_option autoImplicit false

/-!
# Reading a source again

What a source launches is a matter of its text.  Read in another session, or on other lines, it
launches a program with the same text, whose nodes have other numbers.  The two programs run alike in
sessions that are alike, so that in the end the states are the same up to the numbers of nodes.
-/

namespace ClassScript

/-! ## Guises that change no name -/

namespace Guise

/-- Names are as they are, and tokens may be on other lines. -/
def onLines (line : Nat → Nat → Prop) (same : ∀ n, line n n) : Guise where
  word := id
  allows _ _ := True
  line := line
  link _ _ _ := False
  injective := Function.injective_id
  this := rfl
  noLine := same 0

/-- Nothing is different but the numbers of nodes. -/
def numbers : Guise := onLines (fun n n' => n' = n) fun _ => rfl

/-- Nothing has to be the same but names, kinds and literals. -/
def words : Guise := { onLines (fun _ _ => True) (fun _ => trivial) with link := fun _ _ _ => True }

theorem lenient_numbers : numbers.Lenient := ⟨fun _ => trivial, fun _ => rfl⟩

theorem forgets_numbers (s s' : Session) : (numbers.across s s').Forgets id where
  word _ := rfl
  token t t' same := by
    obtain ⟨kind, lexeme, literal, line⟩ := t
    obtain ⟨kind', lexeme', literal', line'⟩ := t'
    obtain rfl : kind' = kind := same.kind
    obtain rfl : lexeme' = lexeme := same.lexeme
    obtain rfl : literal' = literal := same.literal
    obtain rfl : line' = line := same.line
    rfl

theorem clear_words : words.Clear where
  apart {mark mark' _ _} _ _ same := by cases mark <;> cases mark' <;> exact same
  this := trivial
  super := trivial

end Guise

/-- Where names are as they are, the faults are the same. -/
theorem RuntimeError.Alike.fault_eq {K : Guise} {e e' : RuntimeError} (h : e.Alike K e')
    (word : ∀ name, K.word name = name) : e'.fault = e.fault := by
  rcases h.fault with same | ⟨name, -, here, there⟩
  · exact same
  · rw [here, there, word]

/-- Outcomes that are alike where nothing but numbers is different. -/
theorem Outcome.Alike.eq {o o' : Outcome} (h : o.Alike .numbers o') : o' = o := by
  cases h with
  | @failed e e' same =>
    obtain ⟨fault, line⟩ := e
    obtain ⟨fault', line'⟩ := e'
    obtain rfl : line' = line := same.line
    obtain rfl : fault' = fault := same.fault_eq fun _ => rfl
    rfl
  | finished | outOfFuel | malformed => rfl

/-- The states of sessions that are alike are the same up to the numbers of nodes. -/
theorem Session.Alike.unnumbered {s s' : Session} (h : s.Alike .numbers s') :
    s'.state.unnumbered = s.state.unnumbered := by
  obtain ⟨_, m⟩ := h.matched
  exact m.erased (Guise.forgets_numbers s s').erases_unnumbered

theorem Session.Alike.printed {K : Guise} {s s' : Session} (h : s.Alike K s') :
    s'.state.printed = s.state.printed := by
  obtain ⟨_, m⟩ := h.matched
  exact m.effects.printed

/-! ## Faults and text -/

/-- The token is exchanged for one with the same word, of the same kind and value. -/
structure Token.Retold (f : Token → Token) : Prop where
  kind : ∀ t, (f t).kind = t.kind
  lexeme : ∀ t, (f t).lexeme = t.lexeme
  literal : ∀ t, (f t).literal = t.literal

theorem Token.retold_id : Token.Retold id := ⟨fun _ => rfl, fun _ => rfl, fun _ => rfl⟩

theorem Token.retold_down (k : Nat) : Token.Retold (Token.down k) :=
  ⟨fun _ => rfl, fun _ => rfl, fun _ => rfl⟩

section Faults

variable {f : Token → Token} {program program' : List Stmt}

/-- Whether a program has a binding fault is a matter of its text. -/
theorem resolve_silent_iff (retold : Token.Retold f)
    (text : Stmt.unnumberedAll program' = Stmt.mapTokensAll f (Stmt.unnumberedAll program))
    (distances distances' : Distances) :
    (resolve program' distances').2 = [] ↔ (resolve program distances).2 = [] := by
  have retells : Guise.words.Retells f (fun _ _ => True) fun _ _ => True :=
    { token := fun t => ⟨retold.kind t, retold.lexeme t, retold.literal t, trivial⟩
      whole := fun _ => trivial
      link := fun _ _ _ _ _ => trivial }
  have alike : Stmt.AlikeAll .words [] [] program program' :=
    .of_text retells (List.forall_mem_nil _) text
      (fun v (_ : v ∈ Stmt.visitsAll [] [] program) => trivial)
      fun v (_ : v ∈ Stmt.visitsAll [] [] program') => trivial
  refine (alike.resolve Guise.clear_words fun keeps => ?_).1
  -- Under this guise numbers are not kept, so nothing is asked of the tables.
  cases keeps 0 1 none trivial

end Faults

/-! ## Reading -/

namespace Session

variable {s s' : Session} {source source' : String} {tree program : List Stmt} {l : Launch}
  {f : Token → Token} {fuel : Nat}

/-- What a session reads as a program has no lexical fault, and its tokens form the program. -/
theorem reads_of_read (h : (s.read source).1 = .program program) :
    Reads source (Stmt.unnumberedAll program) := by
  unfold read at h
  dsimp only at h
  split at h
  · rename_i statements returned
    split at h
    · rename_i clean
      cases h
      exact .of_parse (List.isEmpty_iff.1 clean) returned
    · cases h
  · cases h
  · cases h

theorem reads_of_launch? (launched : s.launch? source = some l) :
    Reads source (Stmt.unnumberedAll l.program) :=
  reads_of_read (launch?_eq_some launched).1

/-- Every session reads it as a program with that text. -/
theorem read_of_reads (h : Reads source tree) (s : Session) :
    ∃ program, (s.read source).1 = .program program ∧ Stmt.unnumberedAll program = tree := by
  obtain ⟨program, parsed, text⟩ := h.parse s.nextId
  refine ⟨program, ?_, text⟩
  unfold read
  dsimp only
  rw [parsed, h.clean]
  rfl

/-- A source with the text of a program that has no fault is launched. -/
theorem launch?_of_reads (reads : Reads source tree) (s : Session)
    (silent : ∀ program, Stmt.unnumberedAll program = tree →
      ∀ distances, (ClassScript.resolve program distances).2 = []) :
    ∃ l, s.launch? source = some l ∧ Stmt.unnumberedAll l.program = tree := by
  obtain ⟨program, read, text⟩ := read_of_reads reads s
  exact ⟨_, launch?_of_read read (silent program text _), text⟩

/-- What is launched has no fault, however its nodes are numbered and whatever is recorded. -/
theorem silent_of_launch? (launched : s.launch? source = some l) (retold : Token.Retold f)
    (text : Stmt.unnumberedAll program = Stmt.mapTokensAll f (Stmt.unnumberedAll l.program))
    (distances : Distances) : (ClassScript.resolve program distances).2 = [] :=
  (resolve_silent_iff retold text _ distances).2 (launch?_eq_some launched).2.1

/-- What is launched in one session is launched in every other, on whatever lines it is. -/
theorem launch?_again (launched : s.launch? source = some l) (retold : Token.Retold f)
    (reads : Reads source' (Stmt.mapTokensAll f (Stmt.unnumberedAll l.program))) (s' : Session) :
    ∃ l', s'.launch? source' = some l' ∧
      Stmt.unnumberedAll l'.program = Stmt.mapTokensAll f (Stmt.unnumberedAll l.program) :=
  launch?_of_reads reads s' fun _ text => silent_of_launch? launched retold text

/-- In sessions that are alike, it is launched into sessions that are alike, as programs that are. -/
theorem Alike.launch {K : Guise} {l' : Launch} (h : s.Alike K s')
    (whole : ∀ name, K.allows false name) (token : ∀ t, K.SameToken t (f t))
    (launched : s.launch? source = some l) (launched' : s'.launch? source' = some l')
    (text : Stmt.unnumberedAll l'.program = Stmt.mapTokensAll f (Stmt.unnumberedAll l.program)) :
    l.session.Alike K l'.session ∧
      Stmt.AlikeAll (K.across l.session l'.session) [] [] l.program l'.program := by
  have binds := binds_of_launch? h.bounded launched
  have binds' := binds_of_launch? h.bounded' launched'
  exact ⟨h.prepare binds.prepares binds'.prepares, .of_text (Guise.retells_across whole token)
    (List.forall_mem_nil _) text binds.placed binds'.placed⟩

/-- The same source runs in the same way in sessions that differ in numbers alone. -/
theorem Alike.run (h : s.Alike .numbers s') (launched : s.launch? source = some l) (fuel : Nat) :
    (s.run fuel source).2.Alike .numbers (s'.run fuel source).2 ∧
      (s'.run fuel source).1 = (s.run fuel source).1 := by
  have text := (Stmt.mapTokensAll_id (Stmt.unnumberedAll l.program)).symm
  have reads := reads_of_launch? launched
  rw [text] at reads
  obtain ⟨l', launched', text'⟩ := launch?_again launched Token.retold_id reads s'
  obtain ⟨alike, programs⟩ := h.launch Guise.lenient_numbers.whole (f := id)
    (fun t => ⟨rfl, rfl, rfl, rfl⟩) launched launched' text'
  rw [run_of_launch? launched, run_of_launch? launched']
  obtain ⟨after, outcome⟩ := alike.interpret programs fuel
  exact ⟨after, outcome.eq⟩

end Session

end ClassScript
