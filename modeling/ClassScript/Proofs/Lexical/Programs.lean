import ClassScript.Proofs.Lexical.Prepared

set_option autoImplicit false

/-!
# Whole programs

A program starts outside of every scope, with the globals that are there.  Its statements follow each
other, and so do those of the lexical interpreter.
-/

namespace ClassScript

open Lexical (Environment Memory)

variable {W : World} {fuel : Nat} {c : Twin} {sites : List Site} {frames : List Frame}
  {env : Environment}

/-- The statements of a program, one after the other. -/
theorem Follows.interpret {ss : List Stmt} (m : c.Matched W) (stands : c.Stands W sites frames env)
    (known : Stmt.KnownAll (c.view W) sites frames ss)
    (reached : ∀ p, Starts fuel ss c.state p → W.reached p) :
    Follows W (some c.state.current) c (fun _ _ _ => True) (Eval.interpret fuel ss)
      (Lexical.interpret fuel env ss) := by
  induction ss generalizing c frames env with
  | nil => exact .pure m trivial
  | cons s ss ih =>
    apply ((simulates W fuel).execute m stands known.head (reached _ (.here ..))).bind
    rintro flow ⟨flow', env'⟩ c₁ ran m₁ grown₁ ⟨-, stands₁⟩
    rw [← grown₁.current]
    exact ih m₁ stands₁ (known.tail.mono grown₁.kept) fun p hp => reached p (.later ran hp)

/-- Every statement of a program is prepared when it is executed. -/
theorem Point.Prepared.of_starts {ss : List Stmt} {p : Point} (m : c.Matched W)
    (stands : c.Stands W sites frames env) (known : Stmt.KnownAll (c.view W) sites frames ss)
    (reached : ∀ p, Starts fuel ss c.state p → W.reached p) (starts : Starts fuel ss c.state p) :
    p.Prepared W := by
  generalize same : c.state = σ at starts
  induction starts generalizing c frames env with
  | here s ss σ => exact ⟨c, same, m, sites, frames, env, stands, known.head⟩
  | later ran rest ih =>
    subst same
    obtain ⟨c₁, p', rfl, m₁, grown₁, -, stands₁⟩ :=
      ((simulates W fuel).execute m stands known.head (reached _ (.here ..))).reaches ran
    exact ih m₁ stands₁ (known.tail.mono grown₁.kept) (fun p hp => reached p (.later ran hp)) rfl

/-! ## The start -/

/-- Both interpreters before any program. -/
def Twin.start (host : Host) (natives : List Native) : Twin where
  state := State.start host natives
  memory := Memory.start host natives
  place := fun _ _ => none

/-- Before any program there is one scope, that of the globals. -/
theorem local?_start (host : Host) (natives : List Native) (f : Nat) (name : String) :
    (State.start host natives).scopes.local? f name =
      if f = globalScope then (Memory.start host natives).globals.get? name else none :=
  Scopes.local?_push Scopes.empty (Memory.start host natives).globals none f name

theorem Twin.matched_start (host : Host) (natives : List Native)
    (nothing : ∀ v, ¬W.visited v) : (Twin.start host natives).Matched W where
  globals name := by
    change Option.Rel _ ((State.start host natives).scopes.local? globalScope name) _
    rw [local?_start, if_pos rfl]
    have same : Bindings.Same (SameValue ((Twin.start host natives).view W))
        (Memory.start host natives).globals (Memory.start host natives).globals := by
      apply Bindings.Same.ofPairs
      rw [List.forall₂_map_left_iff, List.forall₂_map_right_iff, List.forall₂_same]
      exact fun f _ => ⟨rfl, .native f⟩
    exact same.get? name
  placed f name v inside hv := by
    change (State.start host natives).scopes.local? f name = some v at hv
    rw [local?_start, if_neg inside] at hv
    cases hv
  owned _ _ _ h := by cases h
  apart _ _ _ _ _ h _ := by cases h
  rooted := ⟨rfl, Nat.zero_lt_one⟩
  fields := .nil
  effects := ⟨rfl, rfl, rfl, rfl⟩
  settled v hv := absurd hv (nothing v)

/-- At the start of a program, no scope is open. -/
theorem Twin.stands_top (here : c.state.current = globalScope) :
    c.Stands W [] [] Environment.top := by
  refine ⟨?_, fun nonempty => absurd rfl nonempty⟩
  rw [here]
  exact .globals

end ClassScript
