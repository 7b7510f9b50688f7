import ClassScript.Proofs.Likeness.Renaming
import ClassScript.Proofs.Likeness.Sessions
import ClassScript.Proofs.Likeness.Walk

set_option autoImplicit false

/-!
# Renaming a local variable changes nothing

A program with a local variable renamed has the same bindings as before, and it runs as before.  The
one trace that the name leaves is in the message that a variable is not there, which is possible even
for a local variable: it is not there before its declaration is complete.
-/

namespace ClassScript

/-! ## Guises of a renaming -/

namespace Renaming

/-- The names are names of variables. -/
structure Proper (ρ : Renaming) : Prop where
  old : IsName ρ.old
  new : IsName ρ.new

variable {ρ : Renaming}

/-- The two names are exchanged, and in scopes where that is done the new name is not there. -/
def guise (ρ : Renaming) (proper : ρ.Proper) : Guise where
  word := Equiv.swap ρ.old ρ.new
  allows mark name := mark = true → name ≠ ρ.new
  line n n' := n' = n
  link _ _ _ := False
  injective := (Equiv.swap ρ.old ρ.new).injective
  this := Equiv.swap_apply_of_ne_of_ne proper.old.1.symm proper.new.1.symm
  noLine := rfl

theorem lenient_guise (proper : ρ.Proper) : (ρ.guise proper).Lenient where
  whole _ none := by cases none
  line _ := rfl

/-- The guise of programs, from which the new name is absent altogether and where every reference
has the number that it had. -/
def programGuise (ρ : Renaming) (proper : ρ.Proper) : Guise :=
  { ρ.guise proper with
    allows := fun _ name => name ≠ ρ.new
    link := fun id id' _ => id' = id }

theorem clear_programGuise (proper : ρ.Proper) : (ρ.programGuise proper).Clear where
  apart {mark mark' name other} allowed allowed' same := by
    have mixed : ∀ {n m : String}, n ≠ ρ.new → m ≠ ρ.new → Equiv.swap ρ.old ρ.new n = m →
        n = m := by
      intro n m hn hm exchanged
      by_cases old : n = ρ.old
      · rw [old, Equiv.swap_apply_left] at exchanged
        exact absurd exchanged.symm hm
      · rwa [Equiv.swap_apply_of_ne_of_ne old hn] at exchanged
    cases mark <;> cases mark'
    · exact same
    · exact (mixed allowed' allowed same.symm).symm
    · exact mixed allowed allowed' same
    · exact Equiv.injective _ same
  this := proper.new.1.symm
  super := proper.new.2.symm

end Renaming

/-- The outcomes are the same, but that a variable which is not there may be called by its new
name. -/
def Outcome.Renamed (ρ : Renaming) (o o' : Outcome) : Prop :=
  o' = o ∨ ∃ line, o = .failed ⟨.undefinedVariable ρ.old, line⟩ ∧
    o' = .failed ⟨.undefinedVariable ρ.new, line⟩

section Outcomes

variable {ρ : Renaming} {proper : ρ.Proper}

theorem RuntimeError.Alike.renamed {e e' : RuntimeError} (h : e.Alike (ρ.guise proper) e') :
    e' = e ∨ ∃ line, e = ⟨.undefinedVariable ρ.old, line⟩ ∧
      e' = ⟨.undefinedVariable ρ.new, line⟩ := by
  obtain ⟨fault, n⟩ := e
  obtain ⟨fault', n'⟩ := e'
  obtain rfl : n' = n := h.line
  rcases h.fault with same | ⟨name, fresh, here, there⟩
  · obtain rfl : fault' = fault := same
    exact .inl rfl
  · obtain rfl : fault = .undefinedVariable name := here
    obtain rfl : fault' = .undefinedVariable (Equiv.swap ρ.old ρ.new name) := there
    by_cases old : name = ρ.old
    · subst old
      rw [Equiv.swap_apply_left]
      exact .inr ⟨_, rfl, rfl⟩
    · rw [Equiv.swap_apply_of_ne_of_ne old (fresh rfl)]
      exact .inl rfl

theorem Outcome.Alike.renamed {o o' : Outcome} (h : o.Alike (ρ.guise proper) o') :
    o.Renamed ρ o' := by
  cases h with
  | failed same =>
    rcases same.renamed with rfl | ⟨line, rfl, rfl⟩
    · exact .inl rfl
    · exact .inr ⟨line, rfl, rfl⟩
  | finished | outOfFuel | malformed => exact .inl rfl

end Outcomes

/-! ## Programs that were read -/

namespace Session

variable {s s₁ : Session} {program : List Stmt} {ρ : Renaming}

/-- What was read can be renamed, if the new name is not in it. -/
theorem Binds.renamable (binds : s.Binds s₁ program) (proper : ρ.Proper)
    (fresh : ρ.new ∉ wordsOf program) : Renamable ρ s₁.Knows (programVisits program) := by
  intro v hv
  refine ⟨?_, ?_, binds.placed v hv⟩
  · intro same
    have mem := List.mem_map_of_mem (f := Reference.token) (mem_references_of_visit hv)
    apply fresh
    rw [← same]
    exact List.mem_map_of_mem (List.mem_append_right _ mem)
  · have spelled := (binds.settled v hv).2.1
    unfold Reference.Spelled at spelled
    rintro (this | super) same
    · rw [this] at spelled
      exact proper.old.1 (same.symm.trans spelled)
    · rw [super] at spelled
      exact proper.old.2 (same.symm.trans spelled)

theorem ne_of_fresh (fresh : ρ.new ∉ wordsOf program) :
    ∀ t ∈ Stmt.declarationsAll program, t.lexeme ≠ ρ.new := by
  intro t ht same
  apply fresh
  rw [← same]
  exact List.mem_map_of_mem (List.mem_append_left _ ht)

/-- How a program is bound is a matter of the state. -/
theorem resolve_congr {s' : Session} (state : s'.state = s.state) (program : List Stmt) :
    (s'.resolve program).1 = (s.resolve program).1 ∧
      (s'.resolve program).2.state = (s.resolve program).2.state := by
  unfold Session.resolve
  rw [state]
  exact ⟨rfl, rfl⟩

theorem state_read (source : String) (s : Session) : (s.read source).2.state = s.state := rfl

/-- The renamed program is alike under every guise that renames, within the tables of any session
that knows its references. -/
theorem Binds.alike_rename {K : Guise} {A : Nat → Option Nat → Prop} (binds : s.Binds s₁ program)
    (proper : ρ.Proper) (fresh : ρ.new ∉ wordsOf program) (renames : K.Renames ρ A)
    (route : Route) (known : ∀ id d, s₁.Knows id d → A id d) :
    Stmt.AlikeAll K [] [] program (Stmt.renameAll ρ route [] [] program) :=
  Stmt.alike_renameAll renames route [] program binds.formed (ne_of_fresh fresh)
    (fun outside => nomatch outside) fun v hv =>
      have fits := binds.renamable proper fresh v hv
      ⟨fits.fresh, fits.keyword, known _ _ fits.placed⟩

/-- The renamed program has no fault if the program has none, and the same table of distances. -/
theorem Binds.resolve_rename (binds : s.Binds s₁ program) (proper : ρ.Proper)
    (fresh : ρ.new ∉ wordsOf program) (route : Route) (distances : Distances)
    (silent : (ClassScript.resolve program distances).2 = []) :
    ClassScript.resolve (Stmt.renameAll ρ route [] [] program) distances =
      ClassScript.resolve program distances := by
  have renames : (ρ.programGuise proper).Renames ρ s₁.Knows :=
    { old := Equiv.swap_apply_left ..
      other := fun _ old new => Equiv.swap_apply_of_ne_of_ne old new
      allows := fun _ _ fresh => fresh
      line := fun _ => rfl
      link := fun _ _ _ => rfl }
  have alike := binds.alike_rename proper fresh renames route fun _ _ known => known
  have resolved := alike.resolve (Renaming.clear_programGuise proper) (fun _ => Eq.refl distances)
  exact Prod.ext (resolved.2 fun _ _ _ same => same) ((resolved.1.2 silent).trans silent.symm)

end Session

/-! ## Running the renamed program -/

/-- A program that runs in a session can have a local variable renamed: it is bound as before, it
prints the same, and it ends in the same way. -/
theorem rename_local (host : Host) (natives : List Native) (runs : List (Nat × String))
    (source : String) (l : Launch) (ρ : Renaming) (route : Route)
    (launched : ((Session.start host natives).runAll runs).2.launch? source = some l)
    (proper : ρ.Proper) (fresh : ρ.new ∉ wordsOf l.program) :
    let s := ((Session.start host natives).runAll runs).2
    let renamed := Stmt.renameAll ρ route [] [] l.program
    (s.read source).2.resolve renamed = ([], l.session) ∧
      (∀ fuel, let ran := s.run fuel source
        let ran' := l.session.interpret fuel renamed
        ran'.2.state.printed = ran.2.state.printed ∧ ran.1.Renamed ρ ran'.1) ∧
      ∀ source', (s.read source').1 = .program renamed → ∀ fuel,
        let ran := s.run fuel source
        let ran' := s.run fuel source'
        ran'.2.state.printed = ran.2.state.printed ∧ ran.1.Renamed ρ ran'.1 := by
  intro s renamed
  have alike : s.Alike (ρ.guise proper) s :=
    Session.alike_runAll (Renaming.lenient_guise proper) host natives runs
  have binds := Session.binds_of_launch? alike.bounded launched
  obtain ⟨-, silent, same⟩ := Session.launch?_eq_some launched
  have resolved : (s.read source).2.resolve renamed = (s.read source).2.resolve l.program := by
    unfold Session.resolve
    rw [binds.resolve_rename proper fresh route _ silent]
  have bound : (s.read source).2.resolve l.program = ([], l.session) := by
    refine Prod.ext silent ?_
    exact (congrArg Launch.session same).symm
  have renames : ((ρ.guise proper).across l.session l.session).Renames ρ l.session.Knows :=
    { old := Equiv.swap_apply_left ..
      other := fun _ old new => Equiv.swap_apply_of_ne_of_ne old new
      allows := fun _ _ fresh _ => fresh
      line := fun _ => rfl
      link := fun _ _ known => ⟨known, known⟩ }
  have programs := binds.alike_rename proper fresh renames route fun _ _ known => known
  have runs' : ∀ fuel, (l.session.interpret fuel renamed).2.state.printed =
      (s.run fuel source).2.state.printed ∧
      (s.run fuel source).1.Renamed ρ (l.session.interpret fuel renamed).1 := by
    intro fuel
    obtain ⟨⟨⟨_, m⟩, -⟩, outcomes⟩ :=
      (alike.prepare binds.prepares binds.prepares).interpret programs fuel
    rw [Session.run_of_launch? launched]
    exact ⟨m.effects.printed, outcomes.renamed⟩
  refine ⟨resolved.trans bound, runs', fun source' read fuel => ?_⟩
  -- Reading the other source may use up more numbers, which the run does not see.
  have unread : (s.read source').2.state = (s.read source).2.state := by
    rw [Session.state_read, Session.state_read]
  obtain ⟨faults, state⟩ := Session.resolve_congr unread renamed
  rw [resolved.trans bound] at faults state
  have again := Session.interpret_congr state fuel renamed
  have whole := runs' fuel
  intro ran ran'
  rw [← again.1, ← again.2, ← Session.run_of_launch? (Session.launch?_of_read read faults)] at whole
  exact whole

/-- A variable that a function outside of its scope goes on to change, and another of that name. -/
def tally : String :=
  "\x7b var x = 1; fun f(a) \x7b x = x + a; return x; \x7d " ++
  "\x7b var x = 5; print x; \x7d print f(2); print x; \x7d"

theorem launches_tally : ((Session.start .still []).launch? tally).isSome := by
  decide +kernel

/-- What is launched by the source in which a variable is hidden by another. -/
def tallyLaunch : Launch :=
  ((Session.start .still []).launch? tally).get launches_tally

/-- The outer one of the two variables is called `y` from now on. -/
def renamedTally : List Stmt :=
  Stmt.renameAll ⟨"x", "y"⟩ (some [0]) [] [] tallyLaunch.program

theorem rename_local_tally :
    wordsOf renamedTally = ["y", "f", "a", "x", "y", "y", "a", "y", "x", "f", "y"] ∧
      (tallyLaunch.session.interpret 20 renamedTally).2.state.printed = #["5", "3", "3"] := by
  have proper : Renaming.Proper ⟨"x", "y"⟩ := by
    constructor <;> exact ⟨by decide, by decide⟩
  have fresh : "y" ∉ wordsOf tallyLaunch.program := by decide +kernel
  have launched : (Session.start .still []).launch? tally = some tallyLaunch :=
    (Option.some_get launches_tally).symm
  have same := (rename_local .still [] [] tally tallyLaunch ⟨"x", "y"⟩ (some [0]) launched proper
    fresh).2.1 20
  have printed : ((Session.start .still []).run 20 tally).2.state.printed = #["5", "3", "3"] := by
    decide +kernel
  exact ⟨by decide +kernel, same.1.trans printed⟩

end ClassScript
