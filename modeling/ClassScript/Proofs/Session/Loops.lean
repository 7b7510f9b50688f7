import ClassScript.Proofs.Grammar.Soundness
import ClassScript.Proofs.Lexical.Loops
import ClassScript.Proofs.Session.History
import ClassScript.Proofs.Tree.Numbering

set_option autoImplicit false

/-!
# `for` loops in a session

Wherever a session executes what the parser makes of a `for` statement, the distances that the walk
has recorded lead the condition, the body and the increment to the bindings that the loop means.
-/

namespace ClassScript

/-! ## What the parser makes -/

/-- From tokens that begin with `for` the parser makes a `for` statement, whose body declares nothing.
If they are read without a fault, it is the one that they write. -/
theorem Parser.statement_for {fuel : Nat} {c c' : Cursor} {s : Stmt} {keyword : Token}
    {rest : List Token} (begins : c.rest = keyword :: rest) (kind : keyword.kind = .kwFor)
    (read : statement fuel c = .ok s c') :
    ∃ l : ForLoop, s = l.statement ∧ l.body.declares? = none ∧
      (c.closing.kind = .endOfSource → c'.faults = c.faults →
        ∃ ts o, c.rest = ts ++ c'.rest ∧ l.Written .settled o ts) := by
  cases fuel with
  | zero => cases read
  | succ fuel =>
    have taken : accept .kwFor c = .ok true { c with rest } := by
      have some := acceptAny?_of_mem begins (by simp [kind] : keyword.kind ∈ [TokenKind.kwFor])
      exact bind_eq_ok.2 ⟨_, _, some, rfl⟩
    rw [statement] at read
    obtain ⟨b, c₁, accepted, tail⟩ := bind_eq_ok.1 read
    cases taken.symm.trans accepted
    rw [if_pos rfl, ← map_forLoop, map_eq_pure_bind] at tail
    obtain ⟨l, c₂, looped, done⟩ := bind_eq_ok.1 tail
    cases done
    have g := Token.grounds_any
    have made := ((forLoop_made g (statementsMade g fuel)).ok (fun _ _ => trivial) looped).2
    refine ⟨l, rfl, made.2.2.2, fun eof silent => ?_⟩
    obtain ⟨ts, ds, reads, written⟩ :=
      (forLoop_sound (statementsSound .settled fuel) kind).ok (c := { c with rest }) eof looped
    have none : ds = [] := by
      have reported := reads.faults
      rw [silent] at reported
      exact List.self_eq_append_right.1 reported
    subst none
    obtain ⟨o, written, -⟩ := written fun _ listed => absurd listed List.not_mem_nil
    exact ⟨keyword :: ts, o, by rw [begins, List.cons_append, ← reads.rest], written⟩

/-! ## The distances of a loop -/

namespace ForLoop

/-- The scopes of the walk where the condition of a loop is, within those around the loop. -/
def frames (l : ForLoop) (around : List Frame) : List Frame :=
  match l.initializer with
  | some first => first.after ([] :: around)
  | none => around

variable {l : ForLoop} {V : View} {sites : List Site} {around : List Frame}

theorem known_loop (known : l.statement.Known V sites around) :
    ∃ inner, l.loop.Known V inner (l.frames around) := by
  rw [statement_eq] at known
  unfold ForLoop.frames
  cases first : l.initializer with
  | none =>
    simp only [first] at known
    exact ⟨sites, known⟩
  | some s =>
    simp only [first] at known
    exact ⟨_, known.block.tail.head⟩

/-- The walk meets the condition in the scope of the loop. -/
theorem visited_condition (known : l.statement.Known V sites around) {e : Expr}
    (given : l.condition = some e) :
    ∃ inner, ∀ v ∈ visitsAt inner (l.frames around) e.references, V.visited v := by
  obtain ⟨inner, known⟩ := known_loop known
  have visits := known.loop.1
  rw [given] at visits
  exact ⟨inner, visits⟩

/-- The walk meets the increment in a scope within that of the loop, which has no names. -/
theorem visited_increment (known : l.statement.Known V sites around)
    (plain : l.body.declares? = none) {e : Expr} (given : l.increment = some e) :
    ∃ inner, ∀ v ∈ visitsAt inner ([] :: l.frames around) e.references, V.visited v := by
  obtain ⟨inner, loop⟩ := known_loop known
  have round := loop.loop.2.1
  unfold ForLoop.round at round
  simp only [given] at round
  have step := round.block.tail.head
  rw [Stmt.after_eq (body_wellFormed known.formed) plain] at step
  exact ⟨_, step.visits⟩

end ForLoop

/-- What is recorded for references that the walk has met in one place. -/
theorem Twin.Matched.distances {W : World} {c : Twin} (m : c.Matched W) {sites : List Site}
    {frames : List Frame} {rs : List Reference}
    (visits : ∀ v ∈ visitsAt sites frames rs, W.visited v) :
    ∀ r ∈ rs, c.state.distances.get? r.id = distance? r.token.lexeme frames := fun _ hr =>
  (m.settled _ (visits _ (mem_visitsAt_of_mem hr))).2.2

/-- What is recorded for the references of the condition and of the increment of a loop, where the
walk has come to it with the given scopes. -/
structure ForLoop.Recorded (l : ForLoop) (around : List Frame) (distances : Distances) : Prop where
  condition : ∀ e ∈ l.condition, ∀ r ∈ e.references,
    distances.get? r.id = distance? r.token.lexeme (l.frames around)
  increment : ∀ e ∈ l.increment, ∀ r ∈ e.references,
    distances.get? r.id = (distance? r.token.lexeme (l.frames around)).map (· + 1)

theorem Twin.Matched.recorded {W : World} {c : Twin} (m : c.Matched W) {l : ForLoop}
    {sites : List Site} {around : List Frame}
    (known : l.statement.Known (c.view W) sites around) (plain : l.body.declares? = none) :
    l.Recorded around c.state.distances where
  condition e given := by
    obtain ⟨inner, visits⟩ := ForLoop.visited_condition known given
    exact m.distances visits
  increment e given r hr := by
    obtain ⟨inner, visits⟩ := ForLoop.visited_increment known plain given
    rw [m.distances visits r hr, distance?]
    rfl

/-! ## The meaning of a loop -/

/-- The parser makes of every `for` statement the tree of a loop.  Read without a fault, this is the
loop whose clauses and body the tokens write.  The tree is executed, from every state and with every
end, as the loop means: the initializer once in a scope of its own, and then the condition, the body
and, if the body has ended normally, the increment, until the condition fails or the body returns.
Where a session does so, the same becomes of it as of the loop by the book, in which the rounds share
one map, what the body declares is in none of them, and the map after the loop is the one before it;
only a name that is assigned within its own initializer makes the two part.  The distances that were
recorded for the increment are by one higher than in the condition, and from the scope of a round,
which has no names, they lead to the same bindings.  No round gives a scope that was there a name, and
neither does the loop. -/
theorem for_loops (host : Host) (natives : List Native) (runs : List (Nat × String)) :
    (∀ k c c' s keyword rest, c.rest = keyword :: rest → keyword.kind = .kwFor →
      Parser.statement k c = .ok s c' →
      ∃ loop : ForLoop, s = loop.statement ∧ loop.body.declares? = none ∧
        (c.closing.kind = .endOfSource → c'.faults = c.faults →
          ∃ ts o, c.rest = ts ++ c'.rest ∧ loop.Written .settled o ts)) ∧
    (∀ (loop : ForLoop) n σ, Eval.execute n loop.statement σ = Eval.executeFor loop n σ) ∧
    ∀ (loop : ForLoop) fuel l n σ, loop.body.declares? = none →
      (fuel, l) ∈ (Session.start host natives).launches runs →
      l.Reaches fuel ⟨n, .execute loop.statement, σ⟩ →
      (∃ before, (∀ l' ∈ before ++ [(fuel, l)], l' ∈ (Session.start host natives).launches runs) ∧
        let W := World.ofLaunches (before ++ [(fuel, l)])
        ∃ (c : Twin) (sites : List Site) (around : List Frame) (env : Lexical.Environment),
          c.state = σ ∧ c.Matched W ∧ c.Stands W sites around env ∧
          loop.Recorded around σ.distances ∧
          Follows W (some σ.current) c
            (fun flow ended c' => SameFlow W flow ended.1 c' ∧ ended.2 = env ∧
              c'.Stands W sites around env)
            (Eval.execute n loop.statement) (Lexical.executeFor n env loop)) ∧
      (∀ m scope flow τ τ₁ τ₂, Eval.openScope [] τ.current τ = .ok scope τ₁ →
        Eval.execute m loop.body { τ₁ with current := scope } = .ok flow τ₂ →
        τ₂.current = scope ∧ τ₂.names scope = ∅ ∧
          ∀ d name, τ₂.scopes.getAt? scope (d + 1) name = τ₂.scopes.getAt? τ.current d name ∧
            τ₂.scopes.ownerAt? scope (d + 1) name = τ₂.scopes.ownerAt? τ.current d name) ∧
      (∀ m (τ : State), τ.Retains False ((Eval.roundsFor loop m).leaves τ)) ∧
      σ.Retains False ((Eval.execute n loop.statement).leaves σ) := by
  refine ⟨fun _ _ _ _ _ _ begins kind read => Parser.statement_for begins kind read,
    fun loop n σ => congrFun (Eval.execute_for loop n) σ, ?_⟩
  intro loop fuel l n σ plain launched reached
  obtain ⟨before, sub, prepared⟩ := (Tracks.start host natives).prepared launched
  obtain ⟨c, rfl, m, sites, around, env, stands, known⟩ := prepared _ reached
  have bare : loop.body.Bare := ⟨ForLoop.body_wellFormed known.formed, plain⟩
  have whole : loop.statement.Bare := ⟨known.formed, loop.declares?_statement⟩
  refine ⟨⟨before, sub, c, sites, around, env, rfl, m, stands, m.recorded known plain, ?_⟩, ?_,
    fun m τ => ForLoop.retains_roundsFor known.formed m τ, ?_⟩
  · have here : (World.ofLaunches (before ++ [(fuel, l)])).reached
        ⟨n, .execute loop.statement, c.state⟩ :=
      ⟨(fuel, l), List.mem_append_right _ (List.mem_singleton_self _), reached⟩
    have follows := (simulates _ n).branch m stands known (Stmt.after_eq whole.1 whole.2 _) here
    rw [← Lexical.execute_for env n bare]
    refine ⟨fun flow τ ran => ?_, follows.error⟩
    obtain ⟨c', ended, same, ran', m', grown, flows, stands'⟩ := follows.ok flow τ ran
    refine ⟨c', ended, same, ran', m', grown, flows, ?_, stands'⟩
    rw [Lexical.execute_bare env n whole] at ran'
    obtain ⟨_, _, -, done⟩ := run_bind_eq_ok ran'
    cases done
    rfl
  · intro m scope flow τ τ₁ τ₂ opened ran
    obtain ⟨current, names, encloses⟩ := Eval.scope_of_round bare opened ran
    exact ⟨current, names, fun d name =>
      ⟨Scopes.getAt?_succ encloses, Scopes.ownerAt?_succ encloses⟩⟩
  · exact ((allRetain n).execute loop.statement).mono (fun not => not whole) c.state

/-- A loop over one flag, which the condition sees nearer than the increment does. -/
def flagLoop : ForLoop where
  initializer := some (.varDecl ⟨.identifier, "go", none, 1⟩ (some (.constant .true)))
  condition := some (.name 0 ⟨.identifier, "go", none, 1⟩)
  increment := some (.assign 2 ⟨.identifier, "go", none, 1⟩ (.constant .false))
  body := .print (.name 3 ⟨.identifier, "go", none, 1⟩)

/-- What is launched by the loop alone. -/
def flagLaunch : Launch where
  program := [flagLoop.statement]
  session :=
    { state := { State.start .still [] with
        distances := ((Distances.empty.insert 0 0).insert 3 1).insert 2 1 }
      nextId := 4 }

theorem launches_flagLoop : (Session.start .still []).launches
    [(20, "for (var go = true; go; go = false) print go;")] = [(20, flagLaunch)] := by
  cbv

theorem for_loops_flag :
    flagLaunch.session.state.distances.get? 0 = some 0 ∧
      flagLaunch.session.state.distances.get? 2 = some 1 := by
  have launched : (20, flagLaunch) ∈ (Session.start .still []).launches
      [(20, "for (var go = true; go; go = false) print go;")] := by
    rw [launches_flagLoop]
    exact List.mem_singleton_self _
  have reached :
      flagLaunch.Reaches 20 ⟨20, .execute flagLoop.statement, flagLaunch.session.state⟩ :=
    .start (.here _ [] _)
  obtain ⟨-, -, means⟩ :=
    for_loops .still [] [(20, "for (var go = true; go; go = false) print go;")]
  obtain ⟨⟨before, -, c, sites, around, env, -, -, -, recorded, -⟩, -⟩ :=
    means flagLoop 20 flagLaunch 20 _ rfl launched reached
  have read := recorded.condition _ rfl _ (List.mem_singleton_self _)
  have assigned := recorded.increment _ rfl _ List.mem_cons_self
  exact ⟨read, assigned⟩

end ClassScript
