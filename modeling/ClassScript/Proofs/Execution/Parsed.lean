import ClassScript.Proofs.Execution.Operators

set_option autoImplicit false

/-!
# Runs of programs that were read

What can never happen when a program runs that was read from tokens, be the lexemes of the tokens as
they may, and whatever distances are recorded for its references.
-/

namespace ClassScript

open Eval

/-! ## States and points -/

/-- The state of an interpreter that has run any number of programs which were read, with any
distances recorded for them. -/
inductive Interpreted (host : Host) (natives : List Native) : State → Prop where
  | start : Interpreted host natives (State.start host natives)
  | record {σ : State} (h : Interpreted host natives σ) (distances : Distances) :
      Interpreted host natives { σ with distances }
  | run {σ : State} {tokens : List Token} {firstId : Nat} {program : List Stmt}
      (h : Interpreted host natives σ)
      (read : (parse tokens firstId).outcome = .program program) (fuel : Nat) :
      Interpreted host natives ((interpret fuel program).leaves σ)

/-- A point that is reached while such a program runs. -/
inductive InRun (host : Host) (natives : List Native) : Point → Prop where
  | start {σ : State} {tokens : List Token} {firstId fuel : Nat} {program : List Stmt} {p : Point}
      (h : Interpreted host natives σ)
      (read : (parse tokens firstId).outcome = .program program)
      (starts : Starts fuel program σ p) : InRun host natives p
  | call {p q : Point} (h : InRun host natives p) (calls : Calls p q) : InRun host natives q

/-- The statements of a program that was read have nodes with operators of their sorts. -/
theorem Starts.operable {tokens : List Token} {firstId fuel : Nat} {program : List Stmt} {σ : State}
    {p : Point} (read : (parse tokens firstId).outcome = .program program)
    (starts : Starts fuel program σ p) : p.Operable := by
  have all := (parse_operable read).1
  clear read
  induction starts with
  | here s ss σ => exact all.subset (List.subset_append_left _ _)
  | later first rest ih => exact ih (all.subset (List.subset_append_right _ _))

variable {host : Host} {natives : List Native}

theorem Interpreted.operable {σ : State} (h : Interpreted host natives σ) : σ.Operable := by
  induction h with
  | start => exact .start host natives
  | record _ distances ih => exact ih.congr rfl rfl rfl
  | run _ read fuel ih =>
    exact (keeps_interpret .operable ih fun q starts => starts.operable read).leaves

theorem InRun.obeys {p : Point} (h : InRun host natives p) : p.Operable ∧ p.Obeys .operable := by
  induction h with
  | start interpreted read starts =>
    exact ⟨starts.operable read,
      .of_starts interpreted.operable (fun q starts => starts.operable read) starts⟩
  | call _ calls ih => exact ⟨ih.2.reaches ih.1 calls, ih.2.calls ih.1 calls⟩

/-- Every state that is come to holds only what can be run. -/
theorem InRun.operable {p : Point} (h : InRun host natives p) :
    p.state.Operable ∧ p.leaves.Operable :=
  ⟨h.obeys.2.state, h.obeys.2.leaves h.obeys.1⟩

/-! ## What cannot happen -/

/-- Every unary, binary and logical node of a program that is read has an operator of its sort, and
every superclass is given by name.  Hence no run of such programs stops for a node without meaning,
nor comes to one; a class declaration that has its superclass is carried out to the end; and whichever
class a state holds, a call calls or an expression yields, the initializer that is found in it is
marked as one, and so is the initializer that a call of a class runs. -/
theorem parsed_never_malformed :
    (∀ tokens firstId program, (parse tokens firstId).outcome = .program program →
      (∀ e ∈ Stmt.walkAll program, e.Operable) ∧ Stmt.FormedByAll (fun _ => True) program) ∧
    ∀ host natives,
      (∀ tokens firstId program σ fuel σ', (parse tokens firstId).outcome = .program program →
        Interpreted host natives σ → interpret fuel program σ ≠ .error .malformed σ') ∧
      (∀ fuel e σ σ', InRun host natives ⟨fuel, .evaluate e, σ⟩ →
        e.Operable ∧ evaluate fuel e σ ≠ .error .malformed σ') ∧
      (∀ fuel name superclass methods σ parent σ₁,
        InRun host natives ⟨fuel + 1, .execute (.classDecl name superclass methods), σ⟩ →
        (superclass = none ∧ parent = none ∧ σ₁ = σ ∨ ∃ e c, superclass = some e ∧
          parent = some c ∧ evaluate fuel e σ = .ok (.ofClass c) σ₁) →
        ∃ σ₂, declareClass name parent methods σ₁ = .ok ⟨⟩ σ₂) ∧
      (∀ σ v c method, (Interpreted host natives σ ∨
          ∃ p, InRun host natives p ∧ (σ = p.state ∨ σ = p.leaves)) →
        ((∃ f name, σ.scopes.local? f name = some v) ∨ ∃ o name, σ.field? o name = some v) →
        v.class? = some c → c.findMethod? initializerName = some method →
        method.isInitializer = true) ∧
      (∀ fuel e σ v σ' c method, InRun host natives ⟨fuel, .evaluate e, σ⟩ →
        evaluate fuel e σ = .ok v σ' → v.class? = some c →
        c.findMethod? initializerName = some method → method.isInitializer = true) ∧
      ∀ fuel c values line σ, InRun host natives ⟨fuel, .call (.ofClass c) values line, σ⟩ →
        (∀ method, c.findMethod? initializerName = some method → method.isInitializer = true) ∧
        ∀ n f us τ, Calls ⟨fuel, .call (.ofClass c) values line, σ⟩ ⟨n, .invoke f us, τ⟩ →
          f.isInitializer = true := by
  refine ⟨fun tokens firstId program read => parse_operable read, fun host natives => ?_⟩
  refine ⟨?_, ?_, ?_, ?_, ?_, ?_⟩
  · intro tokens firstId program σ fuel σ' read interpreted stopped
    have keeps := keeps_interpret .operable interpreted.operable
      fun q (starts : Starts fuel program σ q) => starts.operable read
    exact keeps.stops _ _ stopped rfl
  · intro fuel e σ σ' reached
    obtain ⟨operable, obeys⟩ := reached.obeys
    refine ⟨operable e e.mem_walk, fun stopped => ?_⟩
    exact ((allKeep .operable fuel).evaluate operable obeys.state).stops _ _ stopped rfl
  · intro fuel name superclass methods σ parent σ₁ reached clause
    obtain ⟨operable, obeys⟩ := reached.obeys
    rcases clause with ⟨rfl, rfl, rfl⟩ | ⟨e, c, rfl, rfl, first⟩
    · exact obeys.state.declareClass name none methods
    · have keeps := (allKeep .operable fuel).evaluate (obeys.reaches operable (.superclass ..))
        obeys.state
      exact (keeps.of_ok first).1.declareClass name (some c) methods
  · intro σ v c method comes held kind found
    have operable : σ.Operable := by
      rcases comes with interpreted | ⟨p, reached, rfl | rfl⟩
      · exact interpreted.operable
      · exact reached.operable.1
      · exact reached.operable.2
    have sound : v.Operable := by
      rcases held with ⟨f, name, held⟩ | ⟨o, name, held⟩
      · exact operable.holds.scopes held
      · exact operable.holds.fields held
    exact (sound.class kind).isInitializer found
  · intro fuel e σ v σ' c method reached yields kind found
    obtain ⟨operable, obeys⟩ := reached.obeys
    have sound := ((allKeep .operable fuel).evaluate operable obeys.state).of_ok yields |>.2
    exact (Value.Operable.class sound kind).isInitializer found
  · intro fuel c values line σ reached
    have callee : (Value.ofClass c).Operable := reached.obeys.2.task.1
    have sound : c.Operable := callee.class rfl
    refine ⟨fun method found => sound.isInitializer found, fun n f us τ calls => ?_⟩
    cases calls with
    | initializer _ _ found received =>
      have marked := sound.isInitializer found
      cases received
      exact marked

/-- The tokens of `-nil;`, with lexemes of other tokens. -/
def misspelledNegation : List Token :=
  [⟨.minus, "+", none, 1⟩, ⟨.kwNil, "7", none, 1⟩, ⟨.semicolon, "!", none, 1⟩, .closing 1]

theorem parsed_never_malformed_misspelled :
    (parse misspelledNegation 0).outcome = .program
        [.expression (.unary ⟨.minus, "+", none, 1⟩ (.constant .nil))] ∧
      ∀ host natives fuel σ',
        interpret fuel [.expression (.unary ⟨.minus, "+", none, 1⟩ (.constant .nil))]
          (State.start host natives) ≠ .error .malformed σ' := by
  have read : (parse misspelledNegation 0).outcome = .program
      [.expression (.unary ⟨.minus, "+", none, 1⟩ (.constant .nil))] := rfl
  refine ⟨read, fun host natives fuel σ' => ?_⟩
  exact (parsed_never_malformed.2 host natives).1 _ _ _ _ fuel σ' read .start

end ClassScript
