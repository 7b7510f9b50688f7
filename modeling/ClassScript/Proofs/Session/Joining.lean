import ClassScript.Proofs.Session.Rereading

set_option autoImplicit false

/-!
# Running a source in pieces

Two sources that have no static fault can be put on the lines of one source, which has none either.
Running that is like running the one and then, unless it failed, the other: the same is printed, the
outcome is the same, and in the end the states are the same up to the numbers of nodes, but that
whatever stands in the second source is so many lines further down.
-/

namespace ClassScript

/-! ## Programs one after the other -/

section Append

variable {first second : List Stmt}

/-- Outside of all scopes a statement leaves no name. -/
theorem Stmt.after_nil (s : Stmt) : s.after [] = [] := by
  match s with
  | .expression _ | .print _ | .varDecl .. | .block _ | .funDecl _ | .returnStmt .. | .classDecl .. =>
    rfl
  | .ifThen _ inner | .whileLoop _ inner => exact Stmt.after_nil inner
  | .ifElse _ inner other => rw [Stmt.after, Stmt.after_nil inner, Stmt.after_nil other]

theorem Stmt.afterAll_nil (ss : List Stmt) : Stmt.afterAll ss [] = [] := by
  induction ss with
  | nil => rfl
  | cons s ss ih =>
    rw [Stmt.afterAll, List.foldl_cons, Stmt.after_nil]
    exact ih

/-- The references of the second program are visited as if it stood alone. -/
theorem programVisits_append (first second : List Stmt) :
    programVisits (first ++ second) = programVisits first ++ programVisits second := by
  unfold programVisits
  induction first with
  | nil => rfl
  | cons s ss ih =>
    rw [List.cons_append, Stmt.visitsAll, Stmt.visitsAll, Stmt.after_nil, ih, List.append_assoc]

theorem Stmt.resolveAll_append (position : Position) (first second : List Stmt) (r : Resolution) :
    Stmt.resolveAll position (first ++ second) r =
      Stmt.resolveAll position second (Stmt.resolveAll position first r) := by
  induction first generalizing r with
  | nil => rfl
  | cons s ss ih => exact ih (s.resolve position r)

/-- Two programs without binding faults have none together. -/
theorem resolve_append (silent : ∀ distances, (resolve first distances).2 = [])
    (silent' : ∀ distances, (resolve second distances).2 = []) (distances : Distances) :
    (resolve (first ++ second) distances).2 = [] := by
  have one := silent distances
  unfold resolve at one silent' ⊢
  dsimp only at one silent' ⊢
  rw [Stmt.resolveAll_append]
  have scopes := Stmt.scopes_resolveAll Position.top first ⟨[], distances, #[]⟩
  rw [Stmt.afterAll_nil] at scopes
  generalize Stmt.resolveAll Position.top first ⟨[], distances, #[]⟩ = r at one scopes
  obtain ⟨inner, found, faults⟩ := r
  obtain rfl : inner = [] := scopes
  obtain rfl : faults = #[] := Array.toList_eq_nil_iff.1 one
  exact silent' found

/-- A program that is two texts one after the other. -/
theorem Stmt.unnumberedAll_eq_append {program : List Stmt} {ss ts : List Stmt}
    (h : Stmt.unnumberedAll program = ss ++ ts) :
    ∃ first second, program = first ++ second ∧ Stmt.unnumberedAll first = ss ∧
      Stmt.unnumberedAll second = ts := by
  induction ss generalizing program with
  | nil => exact ⟨[], program, rfl, rfl, h⟩
  | cons s ss ih =>
    cases program with
    | nil => cases h
    | cons p program =>
      obtain ⟨rfl, rest⟩ := List.cons.inj h
      obtain ⟨first, second, rfl, rfl, rfl⟩ := ih rest
      exact ⟨p :: first, second, rfl, rfl, rfl⟩

theorem run_interpret_append (fuel : Nat) (first second : List Stmt) (σ : State) :
    Eval.interpret fuel (first ++ second) σ =
      (Eval.interpret fuel first >>= fun _ => Eval.interpret fuel second) σ := by
  induction first generalizing σ with
  | nil => rfl
  | cons s ss ih =>
    rw [List.cons_append, Eval.interpret, Eval.interpret, run_bind, run_bind, run_bind]
    cases Eval.execute fuel s σ with
    | error i σ₁ => rfl
    | ok flow σ₁ =>
      dsimp only
      rw [ih, run_bind]

end Append

namespace Session

variable {s : Session} {fuel : Nat} {first second : List Stmt}

/-- The second program runs where the first one has finished. -/
theorem interpret_append (finished : (s.interpret fuel first).1 = .finished) :
    s.interpret fuel (first ++ second) = (s.interpret fuel first).2.interpret fuel second := by
  have both := run_interpret_append fuel first second s.state
  rw [run_bind] at both
  cases ran : Eval.interpret fuel first s.state with
  | ok u σ =>
    rw [ran] at both
    rw [interpret_eq_ok ran]
    unfold interpret perform
    rw [both]
  | error i σ =>
    rw [interpret_eq_error ran] at finished
    cases i <;> cases finished

/-- It does not run if the first one stops. -/
theorem interpret_append_stopped (stopped : (s.interpret fuel first).1 ≠ .finished) :
    s.interpret fuel (first ++ second) = s.interpret fuel first := by
  have both := run_interpret_append fuel first second s.state
  rw [run_bind] at both
  cases ran : Eval.interpret fuel first s.state with
  | ok u σ => exact absurd (congrArg Prod.fst (interpret_eq_ok ran)) stopped
  | error i σ =>
    rw [ran] at both
    rw [interpret_eq_error ran, interpret_eq_error both]

/-- What is known before a program is known after it. -/
theorem Knows.interpret {id : Nat} {d : Option Nat} (h : s.Knows id d) (fuel : Nat)
    (program : List Stmt) : (s.interpret fuel program).2.Knows id d := by
  have onward := proceeds_interpret fuel program
  cases ran : Eval.interpret fuel program s.state with
  | ok u σ =>
    rw [interpret_eq_ok ran]
    exact ⟨h.1, (congrArg (·.get? id) (onward.of_ok ran).distances).trans h.2⟩
  | error i σ =>
    rw [interpret_eq_error ran]
    exact ⟨h.1, (congrArg (·.get? id) (onward.of_error ran).distances).trans h.2⟩

end Session

/-! ## Tokens further down -/

/-- Tokens are where they were, or so many lines further down. -/
def Guise.below (k : Nat) : Guise :=
  onLines (fun n n' => n' = n ∨ n' = n + k) fun _ => .inl rfl

theorem Guise.forgets_below (k : Nat) (s s' : Session) :
    ((Guise.below k).across s s').Forgets Token.unplaced where
  word _ := rfl
  token t t' same := by
    obtain ⟨kind, lexeme, literal, line⟩ := t
    obtain ⟨kind', lexeme', literal', line'⟩ := t'
    obtain rfl : kind' = kind := same.kind
    obtain rfl : lexeme' = lexeme := same.lexeme
    obtain rfl : literal' = literal := same.literal
    rfl

/-- The outcomes are the same, but that an error may be so many lines further down. -/
def Outcome.Below (k : Nat) (o o' : Outcome) : Prop :=
  o' = o ∨ ∃ fault line, o = .failed ⟨fault, line⟩ ∧ o' = .failed ⟨fault, line + k⟩

theorem Outcome.Alike.below {k : Nat} {o o' : Outcome} (h : o.Alike (.below k) o') :
    o.Below k o' := by
  cases h with
  | @failed e e' same =>
    obtain ⟨fault, line⟩ := e
    obtain ⟨fault', line'⟩ := e'
    obtain rfl : fault' = fault := same.fault_eq fun _ => rfl
    rcases same.line with here | down
    · obtain rfl : line' = line := here
      exact .inl rfl
    · obtain rfl : line' = line + k := down
      exact .inr ⟨_, _, rfl, rfl⟩
  | finished | outOfFuel | malformed => exact .inl rfl

namespace Session.Alike

variable {s s' : Session} {K K' : Guise} {source : String} {l : Launch} {f : Token → Token}
  {program : List Stmt}

theorem unplaced {k : Nat} (h : s.Alike (.below k) s') :
    s'.state.unplaced = s.state.unplaced := by
  obtain ⟨_, m⟩ := h.matched
  exact m.erased (Guise.forgets_below k s s').erases

/-- Sessions that are alike are so under a looser guise. -/
theorem loosen (h : s.Alike K s') (looser : (K.across s s').Looser (K'.across s s')) :
    s.Alike K' s' where
  matched := by
    obtain ⟨marked, m⟩ := h.matched
    exact ⟨marked, m.loosen looser s.state.distances s'.state.distances
      fun _ _ _ linked => ⟨linked.1.2, linked.2.2⟩⟩
  current := h.current
  bounded := h.bounded
  bounded' := h.bounded'

theorem below (h : s.Alike .numbers s') (k : Nat) : s.Alike (.below k) s' :=
  h.loosen ⟨rfl, fun _ _ _ => trivial, fun _ _ same => .inl same, fun _ _ _ linked => linked⟩

/-- A source that runs in one session, and a program with its text that is bound in the other. -/
theorem run_program (h : s.Alike K s') (whole : ∀ name, K.allows false name)
    (token : ∀ t, K.SameToken t (f t)) (launched : s.launch? source = some l)
    (text : Stmt.unnumberedAll program = Stmt.mapTokensAll f (Stmt.unnumberedAll l.program))
    (placed : ∀ v ∈ programVisits program, v.Placed s'.Knows) (fuel : Nat) :
    (s.run fuel source).2.Alike K (s'.interpret fuel program).2 ∧
      (s.run fuel source).1.Alike K (s'.interpret fuel program).1 := by
  have binds := binds_of_launch? h.bounded launched
  have programs : Stmt.AlikeAll (K.across l.session s') [] [] l.program program :=
    .of_text (Guise.retells_across whole token) (List.forall_mem_nil _) text binds.placed placed
  rw [run_of_launch? launched]
  exact (h.prepare binds.prepares (.nextId_of (Nat.le_refl _) rfl)).interpret programs fuel

end Session.Alike

/-! ## Joined sources -/

/-- A source further down has the tokens of the source, so many lines further down. -/
theorem tokensOf_lowered (k : Nat) (t : String) :
    tokensOf (scan (lowered k t)) = (tokensOf (scan t)).map (Token.down k) := by
  have lines : linesOf (lowered k t) = linesOf t + k := by
    unfold linesOf lineEnds
    rw [toList_lowered, List.count_append, List.count_replicate_self]
    omega
  rw [tokensOf_scan, tokensOf_scan, bodyOf_lowered, lines, List.map_append]
  rfl

/-- The joined source is launched, as the program of the first and then that of the second. -/
theorem Session.launch?_joined {session : Session} {s t : String} {ls lt : Launch}
    (launches : session.launch? s = some ls) (launches' : session.launch? t = some lt) :
    ∃ first second after, session.launch? (joined s t) = some ⟨first ++ second, after⟩ ∧
      Stmt.unnumberedAll first = Stmt.unnumberedAll ls.program ∧
      Stmt.unnumberedAll second =
        Stmt.mapTokensAll (Token.down (linesOf s)) (Stmt.unnumberedAll lt.program) := by
  have reads := (reads_of_launch? launches).joined (reads_of_launch? launches')
  have silent : ∀ program, Stmt.unnumberedAll program = Stmt.unnumberedAll ls.program ++
      Stmt.mapTokensAll (Token.down (linesOf s)) (Stmt.unnumberedAll lt.program) →
      ∀ distances, (ClassScript.resolve program distances).2 = [] := by
    intro program text
    obtain ⟨first, second, rfl, text, text'⟩ := Stmt.unnumberedAll_eq_append text
    refine resolve_append (silent_of_launch? launches Token.retold_id ?_)
      (silent_of_launch? launches' (Token.retold_down (linesOf s)) text')
    rw [Stmt.mapTokensAll_id, text]
  obtain ⟨⟨program, after⟩, launched, text⟩ := launch?_of_reads reads session silent
  obtain ⟨first, second, rfl, text, text'⟩ := Stmt.unnumberedAll_eq_append text
  exact ⟨first, second, after, launched, text, text'⟩

/-- Two sources without static faults have none when they are joined.  Running the joined source is
running the first and, if that has finished, the second: with its tokens on the lines where they now
are, the outcome and the state are the same, and so is what is printed.  On its own lines, the second
differs in lines alone. -/
theorem run_joined (host : Host) (natives : List Native) (runs : List (Nat × String))
    (s t : String) (clean : (((Session.start host natives).runAll runs).2.launch? s).isSome)
    (clean' : (((Session.start host natives).runAll runs).2.launch? t).isSome) :
    let session := ((Session.start host natives).runAll runs).2
    let k := linesOf s
    (session.launch? (joined s t)).isSome ∧
      tokensOf (scan (lowered k t)) = (tokensOf (scan t)).map (Token.down k) ∧
      ∀ fuel,
        let first := session.run fuel s
        let whole := session.run fuel (joined s t)
        (first.1 ≠ .finished →
          whole.1 = first.1 ∧ whole.2.state.unnumbered = first.2.state.unnumbered) ∧
        (first.1 = .finished →
          let second := first.2.run fuel t
          let lower := first.2.run fuel (lowered k t)
          (whole.1 = lower.1 ∧ whole.2.state.unnumbered = lower.2.state.unnumbered) ∧
            second.1.Below k whole.1 ∧ whole.2.state.printed = second.2.state.printed ∧
            whole.2.state.unplaced = second.2.state.unplaced) := by
  intro session k
  obtain ⟨ls, launches⟩ := Option.isSome_iff_exists.1 clean
  obtain ⟨lt, launches'⟩ := Option.isSome_iff_exists.1 clean'
  have here : session.Alike .numbers session :=
    Session.alike_runAll Guise.lenient_numbers host natives runs
  obtain ⟨first, second, after, launched, text, text'⟩ := Session.launch?_joined launches launches'
  refine ⟨Option.isSome_iff_exists.2 ⟨_, launched⟩, tokensOf_lowered k t, fun fuel => ?_⟩
  -- The joined program is bound as a whole, so both of its parts are.
  have binds := Session.binds_of_launch? here.bounded launched
  have placed := binds.placed
  rw [programVisits_append, List.forall_mem_append] at placed
  have prepared : session.Alike .numbers after :=
    here.prepare (.nextId_of (Nat.le_refl _) rfl) binds.prepares
  have same : ∀ t, Guise.numbers.SameToken t (id t) := fun _ => ⟨rfl, rfl, rfl, rfl⟩
  obtain ⟨between, outcome⟩ := prepared.run_program Guise.lenient_numbers.whole same launches
    (text.trans (Stmt.mapTokensAll_id _).symm) placed.1 fuel
  have placed' : ∀ v ∈ programVisits second, v.Placed (after.interpret fuel first).2.Knows :=
    fun v hv => (placed.2 v hv).interpret fuel first
  intro one whole
  have joint : whole = after.interpret fuel (first ++ second) := Session.run_of_launch? launched
  refine ⟨fun stopped => ?_, fun finished => ?_⟩
  · rw [joint, Session.interpret_append_stopped (outcome.eq ▸ stopped)]
    exact ⟨outcome.eq, between.unnumbered⟩
  rw [joint, Session.interpret_append (outcome.eq.trans finished)]
  have reads := Session.reads_of_launch? launches'
  constructor
  · obtain ⟨lower, launchesLower, textLower⟩ :=
      Session.launch?_again launches' (Token.retold_down k) (reads.lowered k) one.2
    have exact_text : Stmt.unnumberedAll second =
        Stmt.mapTokensAll id (Stmt.unnumberedAll lower.program) := by
      rw [Stmt.mapTokensAll_id, textLower, text']
    obtain ⟨final, outcome'⟩ := between.run_program Guise.lenient_numbers.whole same launchesLower
      exact_text placed' fuel
    exact ⟨outcome'.eq, final.unnumbered⟩
  · rw [← Stmt.mapTokensAll_id (Stmt.unnumberedAll lt.program)] at reads
    obtain ⟨other, launchesOther, textOther⟩ :=
      Session.launch?_again launches' Token.retold_id reads one.2
    rw [Stmt.mapTokensAll_id] at textOther
    rw [← textOther] at text'
    have down : ∀ t, (Guise.below k).SameToken t (t.down k) := fun _ => ⟨rfl, rfl, rfl, .inr rfl⟩
    obtain ⟨final, outcome'⟩ := (between.below k).run_program (fun _ => trivial) down
      launchesOther text' placed' fuel
    exact ⟨outcome'.below, final.printed, final.unplaced⟩

/-- A function, on two lines. -/
def twice : String := "fun twice(a) \x7b\n return a + a; \x7d"

/-- A call of it, and then an error. -/
def useOfTwice : String := "print twice(2); print missing;"

theorem run_joined_twice :
    ((Session.start .still []).launch? (joined twice useOfTwice)).isSome ∧
      ((Session.start .still []).run 20 (joined twice useOfTwice)).2.state.printed = #["4"] ∧
      ((Session.start .still []).run 20 (joined twice useOfTwice)).1.summary =
        "Undefined variable 'missing'." := by
  have finished : ((Session.start .still []).run 20 twice).1 = .finished := by cbv
  obtain ⟨launches, -, parts⟩ := run_joined .still [] [] twice useOfTwice (by decide +kernel)
    (by decide +kernel)
  obtain ⟨⟨outcome, -⟩, -, printed, -⟩ := (parts 20).2 finished
  exact ⟨launches, printed.trans (by decide +kernel),
    (congrArg Outcome.summary outcome).trans (by decide +kernel)⟩

end ClassScript
