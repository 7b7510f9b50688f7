import ClassScript.Proofs.Lexical.Programs
import ClassScript.Proofs.Session.Launch

set_option autoImplicit false

/-!
# Sessions as a whole

A session is a sequence of sources.  What it launches makes up a world, and after every source there
is a memory of the lexical interpreter that matches the session.  Each source either leaves the
memory alone, or its program runs in it as well.
-/

namespace ClassScript

open Lexical (Environment Memory)

/-! ## Histories -/

/-- The points of the execution of a program that was launched. -/
inductive Launch.Reaches (fuel : Nat) (l : Launch) : Point → Prop where
  | start {p : Point} (starts : Starts fuel l.program l.session.state p) : Reaches fuel l p
  | call {p q : Point} (reached : Reaches fuel l p) (calls : Calls p q) : Reaches fuel l q

namespace Session

/-- Run sources one after the other, each with its fuel. -/
def runAll : List (Nat × String) → Session → List Outcome × Session
  | [], s => ([], s)
  | (fuel, source) :: rest, s =>
    let (outcome, s) := s.run fuel source
    let (others, s) := runAll rest s
    (outcome :: others, s)

/-- What sources launch that run one after the other, with the fuel of each. -/
def launches : List (Nat × String) → Session → List (Nat × Launch)
  | [], _ => []
  | (fuel, source) :: rest, s =>
    ((s.launch? source).map fun l => (fuel, l)).toList ++ launches rest (s.run fuel source).2

/-- No source that runs has a static fault. -/
def Clean : List (Nat × String) → Session → Prop
  | [], _ => True
  | (fuel, source) :: rest, s =>
    (s.launch? source).isSome ∧ Clean rest (s.run fuel source).2

end Session

/-- A host whose clock stands still and that takes any output. -/
def Host.still : Host := { clock := fun _ => 0, capacity := none }

namespace Lexical

/-- Run a program outside of every scope. -/
def run (fuel : Nat) (program : List Stmt) (m : Memory) : Outcome × Memory :=
  match interpret fuel .top program m with
  | .ok _ m => (.finished, m)
  | .error i m => (.ofInterrupt i, m)

/-- Run programs one after the other, each with its fuel. -/
def runAll : List (Nat × List Stmt) → Memory → List Outcome × Memory
  | [], m => ([], m)
  | (fuel, program) :: rest, m =>
    let (outcome, m) := run fuel program m
    let (others, m) := runAll rest m
    (outcome :: others, m)

end Lexical

/-- The world of what was launched. -/
def World.ofLaunches (ls : List (Nat × Launch)) : World where
  visited v := ∃ l ∈ ls, v ∈ programVisits l.2.program
  reached p := ∃ l ∈ ls, l.2.Reaches l.1 p
  opened f site := ∃ p, (∃ l ∈ ls, l.2.Reaches l.1 p) ∧ Opens p f site
  calls := by
    rintro p q ⟨l, hl, reached⟩ calls
    exact ⟨l, hl, reached.call calls⟩
  opens reached opens := ⟨_, reached, opens⟩

/-- With one launch more, the visits of its program come to those that were there. -/
theorem World.visited_append {ls : List (Nat × Launch)} {fuel : Nat} {l : Launch} {v : Visit} :
    (World.ofLaunches (ls ++ [(fuel, l)])).visited v ↔
      (World.ofLaunches ls).visited v ∨ v ∈ programVisits l.program := by
  constructor
  · rintro ⟨l', hl', hv⟩
    rcases List.mem_append.1 hl' with old | new
    · exact .inl ⟨l', old, hv⟩
    · obtain rfl := List.mem_singleton.1 new
      exact .inr hv
  · rintro (⟨l', hl', hv⟩ | hv)
    · exact ⟨l', List.mem_append_left _ hl', hv⟩
    · exact ⟨_, List.mem_append_right _ (List.mem_singleton_self _), hv⟩

section Sublist

variable {ls ls' : List (Nat × Launch)} (sub : ∀ l ∈ ls, l ∈ ls')
include sub

/-- With more launches, there are more visits. -/
theorem World.visited_mono {v : Visit} (h : (World.ofLaunches ls).visited v) :
    (World.ofLaunches ls').visited v := by
  obtain ⟨l, hl, hv⟩ := h
  exact ⟨l, sub l hl, hv⟩

theorem World.opened_mono {f : Nat} {site : Site} (h : (World.ofLaunches ls).opened f site) :
    (World.ofLaunches ls').opened f site := by
  obtain ⟨p, ⟨l, hl, reached⟩, opens⟩ := h
  exact ⟨p, ⟨l, sub l hl, reached⟩, opens⟩

end Sublist

/-! ## The invariant -/

/-- A twin that keeps up with a session after the launches. -/
structure Tracks (ls : List (Nat × Launch)) (s : Session) (c : Twin) : Prop where
  state : c.state = s.state
  matched : c.Matched (.ofLaunches ls)
  current : s.state.current = globalScope
  bounded : s.Bounded
  within : ∀ v, (World.ofLaunches ls).visited v → v.id < s.nextId
  apart : ∀ v v', (World.ofLaunches ls).visited v → (World.ofLaunches ls).visited v' →
    v.id = v'.id → v = v'

namespace Tracks

variable {ls more : List (Nat × Launch)} {s s' : Session} {c : Twin} {l : Launch} {fuel : Nat}
  {source : String}

/-- A session that has launched nothing. -/
theorem start (host : Host) (natives : List Native) :
    Tracks [] (Session.start host natives) (Twin.start host natives) where
  state := rfl
  matched := Twin.matched_start host natives fun v hv => by
    obtain ⟨l, hl, -⟩ := hv
    cases hl
  current := rfl
  bounded _ _ := rfl
  within v hv := by
    obtain ⟨l, hl, -⟩ := hv
    cases hl
  apart v v' hv := by
    obtain ⟨l, hl, -⟩ := hv
    cases hl

/-- The distances of earlier visits stay what they were. -/
theorem settled_prepared (h : Tracks ls s c) (prepares : s.Prepares s') :
    Twin.Settled (.ofLaunches ls) s'.state.distances := by
  intro v hv
  obtain ⟨legal, spelled, recorded⟩ := h.matched.settled v hv
  rw [h.state] at recorded
  exact ⟨legal, spelled, (prepares.kept v.id (h.within v hv)).trans recorded⟩

/-- Reading and binding leave the twin matched, in the world with what is launched next as well. -/
theorem matched_prepared (h : Tracks ls s c) (prepares : s.Prepares s')
    (settled : Twin.Settled (.ofLaunches (ls ++ more)) s'.state.distances) :
    { c with state := s'.state : Twin }.Matched (.ofLaunches (ls ++ more)) := by
  obtain ⟨distances, same⟩ := prepares.state
  rw [← h.state] at same
  have scopes : s'.state.scopes = c.state.scopes := by rw [same]
  have fields : s'.state.fields = c.state.fields := by rw [same]
  have kept : (c.view (.ofLaunches ls)).Kept
      ({ c with state := s'.state : Twin }.view (.ofLaunches (ls ++ more))) := by
    refine ⟨?_, ?_, ?_, ?_, fun _ _ _ hl => hl, fun _ _ hi => hi⟩
    · exact fun v => World.visited_mono fun l hl => List.mem_append_left _ hl
    · exact fun f site => World.opened_mono fun l hl => List.mem_append_left _ hl
    · intro f g hg
      change s'.state.scopes.enclosing? f = some g
      rwa [scopes]
    · intro f name v hv
      refine ⟨v, ?_, fun fits => fits⟩
      change s'.state.scopes.local? f name = some v
      rwa [scopes]
  apply h.matched.mono kept scopes rfl rfl rfl fields rfl _ settled
  rw [same]
  exact { h.matched.effects with }

/-- Where nothing is launched, the memory stays as it is. -/
theorem prepare (h : Tracks ls s c) (prepares : s.Prepares s') :
    Tracks ls s' { c with state := s'.state } where
  state := rfl
  matched := by
    have settled := h.settled_prepared prepares
    rw [← List.append_nil ls] at settled ⊢
    exact h.matched_prepared prepares settled
  current := by
    obtain ⟨distances, same⟩ := prepares.state
    rw [same]
    exact h.current
  bounded := prepares.bounded h.bounded
  within v hv := Nat.lt_of_lt_of_le (h.within v hv) prepares.nextId
  apart := h.apart

/-- The session after a program, and a twin there. -/
theorem interpreted {program : List Stmt} {c' : Twin} (h : Tracks ls s c)
    (m : c'.Matched (.ofLaunches ls)) (current : c'.state.current = c.state.current)
    (distances : c'.state.distances = c.state.distances)
    (state : (s.interpret fuel program).2 = { s with state := c'.state }) :
    Tracks ls (s.interpret fuel program).2 c' := by
  rw [state]
  refine ⟨rfl, m, ?_, fun id hid => ?_, h.within, h.apart⟩
  · exact current.trans (h.state ▸ h.current)
  · change c'.state.distances.get? id = none
    rw [distances, h.state]
    exact h.bounded id hid

/-- A twin at the start of a program that was launched. -/
structure Launching (ls : List (Nat × Launch)) (fuel : Nat) (l : Launch) (c : Twin) : Prop where
  tracks : Tracks (ls ++ [(fuel, l)]) l.session c
  stands : c.Stands (.ofLaunches (ls ++ [(fuel, l)])) [] [] .top
  known : Stmt.KnownAll (c.view (.ofLaunches (ls ++ [(fuel, l)]))) [] [] l.program

/-- A program that was launched is known, and nothing is open at its start. -/
theorem launching (h : Tracks ls s c) (fuel : Nat) (launched : s.launch? source = some l) :
    Launching ls fuel l { c with state := l.session.state } := by
  have binds := Session.binds_of_launch? h.bounded launched
  obtain ⟨distances, same⟩ := binds.prepares.state
  have here : l.session.state.current = globalScope := by
    rw [same]
    exact h.current
  have settled : Twin.Settled (.ofLaunches (ls ++ [(fuel, l)])) l.session.state.distances := by
    intro v hv
    rcases World.visited_append.1 hv with old | new
    · exact h.settled_prepared binds.prepares v old
    · exact binds.settled v new
  refine ⟨⟨rfl, h.matched_prepared binds.prepares settled, here,
    binds.prepares.bounded h.bounded, fun v hv => ?_, fun v v' hv hv' same => ?_⟩,
    Twin.stands_top here, fun v hv => World.visited_append.2 (.inr hv), binds.formed, binds.new,
    .outside, binds.returns⟩
  · rcases World.visited_append.1 hv with old | new
    · exact Nat.lt_of_lt_of_le (h.within v old) binds.prepares.nextId
    · exact (binds.within v new).2
  · rcases World.visited_append.1 hv with old | new <;>
      rcases World.visited_append.1 hv' with old' | new'
    · exact h.apart v v' old old' same
    · exact absurd (h.within v old) (Nat.not_lt.2 (same ▸ (binds.within v' new').1))
    · exact absurd (h.within v' old') (Nat.not_lt.2 (same ▸ (binds.within v new).1))
    · exact binds.apart v new v' new' same

namespace Launching

theorem reached {p : Point} (reaches : l.Reaches fuel p) :
    (World.ofLaunches (ls ++ [(fuel, l)])).reached p :=
  ⟨_, List.mem_append_right _ (List.mem_singleton_self _), reaches⟩

/-- Every point of the program is prepared. -/
theorem prepared {p : Point} (h : Launching ls fuel l c) (reaches : l.Reaches fuel p) :
    p.Prepared (.ofLaunches (ls ++ [(fuel, l)])) := by
  induction reaches with
  | start starts =>
    rw [← h.tracks.state] at starts
    refine .of_starts h.tracks.matched h.stands h.known (fun q hq => ?_) starts
    rw [h.tracks.state] at hq
    exact reached (.start hq)
  | call reaches calls ih => exact ih.calls (reached reaches) calls

/-- The lexical interpreter runs the program as well. -/
theorem follows (h : Launching ls fuel l c) :
    Follows (.ofLaunches (ls ++ [(fuel, l)])) (some c.state.current) c (fun _ _ _ => True)
      (Eval.interpret fuel l.program) (Lexical.interpret fuel .top l.program) := by
  apply Follows.interpret h.tracks.matched h.stands h.known
  intro p starts
  rw [h.tracks.state] at starts
  exact reached (.start starts)

/-- After the program, a twin keeps up with the session still. -/
theorem finished (h : Launching ls fuel l c) :
    ∃ c', Tracks (ls ++ [(fuel, l)]) (l.session.interpret fuel l.program).2 c' ∧
      ((∃ v, (World.ofLaunches (ls ++ [(fuel, l)])).visited v ∧ v.AssignsUnborn) ∨
        Lexical.run fuel l.program c.memory =
          ((l.session.interpret fuel l.program).1, c'.memory)) := by
  have state := h.tracks.state
  cases run : Eval.interpret fuel l.program c.state with
  | ok a σ =>
    obtain ⟨c', b, rfl, ran, m, grown, -⟩ := h.follows.ok a σ run
    rw [state] at run
    have interpret : l.session.interpret fuel l.program =
        (.finished, { l.session with state := c'.state }) :=
      Session.interpret_eq_ok run
    refine ⟨c', h.tracks.interpreted m grown.current grown.distances (by rw [interpret]), .inr ?_⟩
    simp [Lexical.run, ran, interpret]
  | error i σ =>
    obtain ⟨c', rfl, m, current, distances, stop⟩ := h.follows.error i σ run
    rw [state] at run
    have interpret : l.session.interpret fuel l.program =
        (.ofInterrupt i, { l.session with state := c'.state }) :=
      Session.interpret_eq_error run
    refine ⟨c', h.tracks.interpreted m current distances (by rw [interpret]),
      stop.imp id fun ran => ?_⟩
    simp [Lexical.run, ran, interpret]

end Launching

/-! ## Whole histories -/

/-- At every point of a session, the interpreter is prepared, in the world of what was launched up to
then. -/
theorem prepared {runs : List (Nat × String)} (h : Tracks ls s c)
    (launched : (fuel, l) ∈ s.launches runs) :
    ∃ before, (∀ l' ∈ before ++ [(fuel, l)], l' ∈ ls ++ s.launches runs) ∧
      ∀ p, l.Reaches fuel p → p.Prepared (.ofLaunches (before ++ [(fuel, l)])) := by
  induction runs generalizing ls s c with
  | nil => cases launched
  | cons run runs ih =>
    obtain ⟨fuel', source⟩ := run
    rw [Session.launches] at launched ⊢
    cases launches : s.launch? source with
    | none =>
      rw [launches] at launched
      exact ih (h.prepare (Session.prepares_of_launch?_eq_none launches)) launched
    | some l' =>
      have launching := h.launching fuel' launches
      rw [launches] at launched
      rcases List.mem_append.1 launched with here | later
      · obtain ⟨rfl, rfl⟩ : fuel = fuel' ∧ l = l' := by simpa using here
        refine ⟨ls, fun l' hl' => ?_, fun p reaches => launching.prepared reaches⟩
        rcases List.mem_append.1 hl' with old | new
        · exact List.mem_append_left _ old
        · exact List.mem_append_right _ (List.mem_append_left _ (by simpa using new))
      · obtain ⟨c', tracks, -⟩ := launching.finished
        rw [← Session.run_of_launch? launches] at tracks
        obtain ⟨before, within, prepared⟩ := ih tracks later
        exact ⟨before, by simpa using within, prepared⟩

/-- There is a twin after every session. -/
theorem exists_runAll (h : Tracks ls s c) (runs : List (Nat × String)) :
    ∃ c', Tracks (ls ++ s.launches runs) (s.runAll runs).2 c' := by
  induction runs generalizing ls s c with
  | nil =>
    rw [Session.launches, List.append_nil]
    exact ⟨c, h⟩
  | cons run runs ih =>
    obtain ⟨fuel, source⟩ := run
    cases launched : s.launch? source with
    | none =>
      obtain ⟨c', tracks⟩ := ih (h.prepare (Session.prepares_of_launch?_eq_none launched))
      exact ⟨c', by simpa [Session.launches, launched, Session.runAll] using tracks⟩
    | some l =>
      obtain ⟨c₁, first, -⟩ := (h.launching fuel launched).finished
      rw [← Session.run_of_launch? launched] at first
      obtain ⟨c', tracks⟩ := ih first
      exact ⟨c', by simpa [Session.launches, launched, Session.runAll] using tracks⟩

/-- The lexical interpreter runs a program that was launched with the same outcome, unless a name is
assigned within its own initializer. -/
theorem run (h : Tracks ls s c) (launched : s.launch? source = some l)
    (born : ∀ v, (World.ofLaunches (ls ++ [(fuel, l)])).visited v → ¬v.AssignsUnborn) :
    ∃ c', Tracks (ls ++ [(fuel, l)]) (s.run fuel source).2 c' ∧
      Lexical.run fuel l.program c.memory = ((s.run fuel source).1, c'.memory) := by
  obtain ⟨c', tracks, unborn | ran⟩ := (h.launching fuel launched).finished
  · obtain ⟨v, visited, unborn⟩ := unborn
    exact absurd unborn (born v visited)
  · rw [← Session.run_of_launch? launched] at tracks ran
    exact ⟨c', tracks, ran⟩

/-- So it does with the programs of a whole session without static faults. -/
theorem runAll {runs : List (Nat × String)} (h : Tracks ls s c) (clean : s.Clean runs)
    (born : ∀ v, (World.ofLaunches (ls ++ s.launches runs)).visited v → ¬v.AssignsUnborn) :
    ∃ c', Tracks (ls ++ s.launches runs) (s.runAll runs).2 c' ∧
      Lexical.runAll ((s.launches runs).map fun l => (l.1, l.2.program)) c.memory =
        ((s.runAll runs).1, c'.memory) := by
  induction runs generalizing ls s c with
  | nil =>
    rw [Session.launches, List.append_nil]
    exact ⟨c, h, rfl⟩
  | cons run runs ih =>
    obtain ⟨fuel, source⟩ := run
    obtain ⟨launches, clean⟩ := clean
    obtain ⟨l, launched⟩ := Option.isSome_iff_exists.1 launches
    have whole : ls ++ s.launches ((fuel, source) :: runs) =
        (ls ++ [(fuel, l)]) ++ (s.run fuel source).2.launches runs := by
      simp [Session.launches, launched]
    rw [whole] at born ⊢
    have first : ∀ v, (World.ofLaunches (ls ++ [(fuel, l)])).visited v → ¬v.AssignsUnborn := by
      intro v hv
      exact born v (World.visited_mono (fun l' hl' => List.mem_append_left _ hl') hv)
    obtain ⟨c₁, tracks, ran⟩ := h.run launched first
    obtain ⟨c', tracks', rest⟩ := ih tracks clean born
    refine ⟨c', tracks', ?_⟩
    simp [Session.launches, launched, Session.runAll, Lexical.runAll, ran, rest]

end Tracks

end ClassScript
