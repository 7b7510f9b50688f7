import ClassScript.Proofs.Lexical.Following

set_option autoImplicit false

/-!
# Single actions that follow each other

What the two interpreters do with names is where they differ: the one counts scopes, the other reads
its map.  The rest they do alike, to their own state or memory.
-/

namespace ClassScript

open Lexical (Environment Memory Run)

/-! ## References -/

/-- The frames are the same, but for what the innermost one says about one name. -/
inductive AlikeBut (name : String) : List Frame → List Frame → Prop where
  | outside : AlikeBut name [] []
  | inside {frame frame' : Frame} {outer : List Frame}
      (others : ∀ other, other ≠ name → frame'.lookup other = frame.lookup other) :
      AlikeBut name (frame :: outer) (frame' :: outer)

theorem AlikeBut.refl (name : String) (frames : List Frame) : AlikeBut name frames frames := by
  cases frames with
  | nil => exact .outside
  | cons frame outer => exact .inside fun _ _ => rfl

theorem AlikeBut.trans {name : String} {frames frames' frames'' : List Frame}
    (h : AlikeBut name frames frames') (k : AlikeBut name frames' frames'') :
    AlikeBut name frames frames'' := by
  cases h with
  | outside => exact k
  | inside others =>
    cases k with
    | inside others' =>
      exact .inside fun other different => (others' other different).trans (others other different)

/-- Any other name is equally far. -/
theorem AlikeBut.distance? {name other : String} {frames frames' : List Frame}
    (h : AlikeBut name frames frames') (different : other ≠ name) :
    distance? other frames' = distance? other frames := by
  cases h with
  | outside => rfl
  | inside others => rw [ClassScript.distance?, ClassScript.distance?, others other different]

theorem alikeBut_putName (name : String) (stage : Stage) (frames : List Frame) :
    AlikeBut name frames (putName name stage frames) := by
  cases frames with
  | nil => exact .outside
  | cons frame outer =>
    refine .inside fun other different => ?_
    rw [List.lookup_cons, beq_eq_false_iff_ne.2 different]

theorem alikeBut_declareName (name : String) (frames : List Frame) :
    AlikeBut name frames (declareName name frames) := by
  unfold declareName
  split
  · exact .refl name frames
  · exact alikeBut_putName name .declared frames

theorem alikeBut_bindName (name : String) (frames : List Frame) :
    AlikeBut name frames (bindName name frames) :=
  (alikeBut_declareName name frames).trans (alikeBut_putName name .defined _)

/-- The walk meets the reference with frames that are those at hand, except for a name that is just
being declared.  The reference may assign that name, but it does not read it. -/
def Refers (V : View) (sites : List Site) (frames : List Frame) (f : Nat) (r : Reference) : Prop :=
  ∃ seen, V.visited ⟨r, sites, seen⟩ ∧
    (∃ unborn, IsName unborn ∧ AlikeBut unborn frames seen) ∧
    ((stageIn seen r.token.lexeme ≠ some .declared ∧
        distance? r.token.lexeme seen = distance? r.token.lexeme frames) ∨
      (stageIn seen r.token.lexeme = some .declared ∧ IsName r.token.lexeme ∧
        V.scopes.local? f r.token.lexeme = none))

/-- A name under declaration is in the innermost frame. -/
theorem distance?_of_stageIn {name : String} {frames : List Frame} {stage : Stage}
    (h : stageIn frames name = some stage) : distance? name frames = some 0 := by
  cases frames with
  | nil => cases h
  | cons frame frames =>
    change frame.lookup name = some stage at h
    simp [distance?, h]

namespace Twin.Matched

variable {W : World} {c : Twin} {sites : List Site} {frames : List Frame} {r : Reference}

/-- A reference that reads has the distance at which the frames have its name. -/
theorem distance_of_reads (m : c.Matched W)
    (h : Refers (c.view W) sites frames c.state.current r) (reads : r.kind ≠ .assign) :
    c.state.distances.get? r.id = distance? r.token.lexeme frames := by
  obtain ⟨seen, visited, -, regular | ⟨unborn, named, -⟩⟩ := h
  · obtain ⟨-, -, recorded⟩ := m.settled _ visited
    exact recorded.trans regular.2
  · obtain ⟨legal, spelled, -⟩ := m.settled _ visited
    obtain ⟨kind, id, token⟩ := r
    cases kind with
    | name => exact absurd unborn legal
    | assign => exact absurd rfl reads
    | this => exact absurd spelled named.1
    | super => exact absurd spelled named.2

/-- A reference to the superclass has the receiver one scope nearer. -/
theorem distance_of_super (m : c.Matched W)
    (h : Refers (c.view W) sites frames c.state.current r) (super : r.kind = .super) :
    ∃ d, distance? "this" frames = some d ∧ distance? "super" frames = some (d + 1) ∧
      c.state.distances.get? r.id = some (d + 1) ∧ r.token.lexeme = "super" := by
  obtain ⟨seen, visited, ⟨unborn, named, alike⟩, -⟩ := id h
  obtain ⟨legal, spelled, -⟩ := m.settled _ visited
  have reads : r.kind ≠ .assign := by rw [super]; decide
  have recorded := m.distance_of_reads h reads
  have word : r.token.lexeme = "super" := by
    simpa [Reference.Spelled, super] using spelled
  have found : ∃ d, distance? "this" seen = some d ∧ distance? "super" seen = some (d + 1) := by
    simpa [Visit.Legal, super] using legal
  obtain ⟨d, this, above⟩ := found
  rw [alike.distance? named.1.symm] at this
  rw [alike.distance? named.2.symm] at above
  exact ⟨d, this, above, by rw [recorded, word, above], word⟩

end Twin.Matched

/-- What an operator makes of numbers is the same for both. -/
theorem SameValue.arithmetic {V : View} {kind : TokenKind} {x y : Float} {value : Value}
    (h : Eval.arithmetic kind x y = some value) : SameValue V value value := by
  unfold Eval.arithmetic at h
  split at h
  · cases h
    exact .number _
  · cases h
    exact .number _
  · cases h
    exact .number _
  · cases h
    exact .bool _
  · cases h
    exact .bool _
  · cases h
    exact .bool _
  · cases h
    exact .bool _
  · cases h

namespace Follows

variable {W : World} {c : Twin} {sites : List Site} {frames : List Frame} {env : Environment}

/-! ## Operators -/

theorem applyUnary {v w : Value} (m : c.Matched W) (same : SameValue (c.view W) v w)
    (operator : Token) :
    Follows W none c (SameResult W) (Eval.applyUnary operator v) (Eval.applyUnary operator w) := by
  unfold Eval.applyUnary
  split
  · cases same with
    | number x => exact .pure m (.number _)
    | nil | bool | text | native | function | bound | ofClass | object => exact .fail m _ _
  · rw [same.isTruthy]
    exact .pure m (.bool _)
  · exact .malformed m

theorem applyBinary {v w v' w' : Value} (m : c.Matched W) (same : SameValue (c.view W) v w)
    (same' : SameValue (c.view W) v' w') (operator : Token) :
    Follows W none c (SameResult W) (Eval.applyBinary operator v v')
      (Eval.applyBinary operator w w') := by
  unfold Eval.applyBinary
  split
  · rw [same.equals same']
    exact .pure m (.bool _)
  · rw [same.equals same']
    exact .pure m (.bool _)
  · cases same with
    | number x =>
      cases same' with
      | number y => exact .pure m (.number _)
      | nil | bool | text | native | function | bound | ofClass | object => exact .fail m _ _
    | text s =>
      cases same' with
      | text s' => exact .pure m (.text _)
      | nil | bool | number | native | function | bound | ofClass | object => exact .fail m _ _
    | nil | bool | native | function | bound | ofClass | object => exact .fail m _ _
  · cases same with
    | number x =>
      cases same' with
      | number y =>
        dsimp only
        cases h : Eval.arithmetic operator.kind x y with
        | none => exact .malformed m
        | some value => exact .pure m (.arithmetic h)
      | nil | bool | text | native | function | bound | ofClass | object => exact .fail m _ _
    | nil | bool | text | native | function | bound | ofClass | object => exact .fail m _ _

/-! ## Effects -/

theorem print (m : c.Matched W) (text : String) (line : Nat) :
    Follows W none c (fun _ _ _ => True) (Eval.print text line) (Lexical.print text line) := by
  have accepts : c.memory.host.accepts c.memory.printed.size =
      c.state.host.accepts c.state.printed.size := by
    rw [m.effects.host, m.effects.printed]
  cases room : c.state.host.accepts c.state.printed.size with
  | false =>
    rw [room] at accepts
    refine stopped (.error ⟨.outputFull, line⟩) ?_ ?_ m
    · simp [Eval.print, room]
    · simp [Lexical.print, accepts]
  | true =>
    rw [room] at accepts
    refine done () () ?_ ?_ (m.print text) (Twin.grown_quiet rfl rfl rfl) trivial
    · simp [Eval.print, room, Twin.print]
    · simp [Lexical.print, accepts, Twin.print]

theorem readClock (m : c.Matched W) :
    Follows W none c (fun x y _ => y = x) Eval.readClock Lexical.readClock := by
  refine done _ _ (by rfl) (by rfl) m.readClock (Twin.grown_quiet rfl rfl rfl) ?_
  rw [m.effects.host, m.effects.clockReads]

theorem freshSerial (m : c.Matched W) :
    Follows W none c (fun a b _ => b = a) Eval.freshSerial Lexical.freshSerial := by
  exact done _ _ (by rfl) (by rfl) m.freshSerial (Twin.grown_quiet rfl rfl rfl)
    m.effects.nextSerial

theorem checkArity {values values' : List Value} (m : c.Matched W)
    (same : List.Forall₂ (SameValue (c.view W)) values values') (expected line : Nat) :
    Follows W none c (fun _ _ c' => c' = c ∧ values.length = expected)
      (Eval.checkArity expected values line) (Eval.checkArity expected values' line) := by
  unfold Eval.checkArity
  rw [same.length_eq]
  split
  · rename_i h
    exact .pure m ⟨rfl, h⟩
  · exact .fail m _ _

end Follows

end ClassScript
