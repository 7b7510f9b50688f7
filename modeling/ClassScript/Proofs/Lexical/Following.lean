import ClassScript.Proofs.Execution.Running
import ClassScript.Proofs.Lexical.Updates

set_option autoImplicit false

/-!
# One interpreter follows the other

An action of the running program is followed by one of the lexical interpreter if from matched twins
they end alike and in matched twins.  The one exception is a program that assigns a name within its
own initializer: there the two may part, once and for all, since the running program fails.

There is one lemma for every way to put actions together, and one for every single action.
-/

namespace ClassScript

open Lexical (Environment Memory Run)

/-! ## Following -/

/-- Whatever becomes of the first action, the second comes to the same, and what they yield is
related. -/
structure Follows (W : World) (free : Option Nat) (c : Twin) {α β : Type}
    (Q : α → β → Twin → Prop) (x : Eval α) (y : Run β) : Prop where
  ok : ∀ a σ, x c.state = .ok a σ → ∃ (c' : Twin) (b : β), c'.state = σ ∧ y c.memory = .ok b c'.memory ∧
    c'.Matched W ∧ c.Grown W free c' ∧ Q a b c'
  error : ∀ i σ, x c.state = .error i σ → ∃ c' : Twin, c'.state = σ ∧ c'.Matched W ∧
    σ.current = c.state.current ∧ σ.distances = c.state.distances ∧
    ((∃ v, W.visited v ∧ v.AssignsUnborn) ∨ y c.memory = .error i c'.memory)

/-- What is yielded is the same value. -/
def SameResult (W : World) (v w : Value) (c : Twin) : Prop :=
  SameValue (c.view W) v w

namespace Follows

variable {W : World} {free : Option Nat} {c c₁ c' : Twin} {α β γ δ : Type}
  {Q : α → β → Twin → Prop} {R : γ → δ → Twin → Prop} {x : Eval α} {y : Run β}

/-! ## Putting actions together -/

theorem done (a : α) (b : β) (hx : x c.state = .ok a c'.state)
    (hy : y c.memory = .ok b c'.memory) (m : c'.Matched W) (grown : c.Grown W free c')
    (q : Q a b c') : Follows W free c Q x y := by
  refine ⟨fun a' σ h => ?_, fun i σ h => ?_⟩
  · rw [hx] at h
    cases h
    exact ⟨c', b, rfl, hy, m, grown, q⟩
  · rw [hx] at h
    cases h

theorem stopped (i : Interrupt) (hx : x c.state = .error i c.state)
    (hy : y c.memory = .error i c.memory) (m : c.Matched W) : Follows W free c Q x y := by
  refine ⟨fun a σ h => ?_, fun i' σ h => ?_⟩
  · rw [hx] at h
    cases h
  · rw [hx] at h
    cases h
    exact ⟨c, rfl, m, rfl, rfl, .inr hy⟩

protected theorem pure {a : α} {b : β} (m : c.Matched W) (q : Q a b c) :
    Follows W free c Q (pure a) (pure b) :=
  done a b rfl rfl m (.refl W free c) q

theorem fail (m : c.Matched W) (fault : RuntimeFault) (line : Nat) :
    Follows W free c Q (Eval.fail fault line) (Eval.fail fault line) :=
  stopped _ rfl rfl m

theorem malformed (m : c.Matched W) : Follows W free c Q (throw .malformed) (throw .malformed) :=
  stopped _ rfl rfl m

theorem spent (m : c.Matched W) : Follows W free c Q Eval.spent Eval.spent :=
  stopped _ rfl rfl m

theorem imp {Q' : α → β → Twin → Prop} (h : Follows W free c Q x y)
    (imp : ∀ a b c', c'.Matched W → c.Grown W free c' → Q a b c' → Q' a b c') :
    Follows W free c Q' x y := by
  refine ⟨fun a σ hx => ?_, h.error⟩
  obtain ⟨c', b, same, hy, m, grown, q⟩ := h.ok a σ hx
  exact ⟨c', b, same, hy, m, grown, imp a b c' m grown q⟩

theorem widen (h : Follows W none c Q x y) : Follows W free c Q x y := by
  refine ⟨fun a σ hx => ?_, h.error⟩
  obtain ⟨c', b, same, hy, m, grown, q⟩ := h.ok a σ hx
  exact ⟨c', b, same, hy, m, grown.widen, q⟩

/-- One action after another. -/
theorem bind {k : α → Eval γ} {l : β → Run δ} (h : Follows W free c Q x y)
    (next : ∀ a b c', x c.state = .ok a c'.state → c'.Matched W → c.Grown W free c' → Q a b c' →
      Follows W free c' R (k a) (l b)) : Follows W free c R (x >>= k) (y >>= l) := by
  have first := fun σ => run_bind σ x k
  have second := fun m => run_bind m y l
  cases hx : x c.state with
  | ok a σ =>
    obtain ⟨c₁, b, rfl, hy, m, grown, q⟩ := h.ok a σ hx
    have rest := next a b c₁ hx m grown q
    refine ⟨fun a' σ' run => ?_, fun i σ' run => ?_⟩
    · rw [first, hx] at run
      obtain ⟨c', b', same, hy', m', grown', q'⟩ := rest.ok a' σ' run
      exact ⟨c', b', same, by rw [second, hy]; exact hy', m', grown.trans grown', q'⟩
    · rw [first, hx] at run
      obtain ⟨c', same, m', current, distances, stop⟩ := rest.error i σ' run
      refine ⟨c', same, m', current.trans grown.current, distances.trans grown.distances, ?_⟩
      exact stop.imp id fun hy' => by rw [second, hy]; exact hy'
  | error i σ =>
    obtain ⟨c', rfl, m, current, distances, stop⟩ := h.error i σ hx
    refine ⟨fun a' σ' run => ?_, fun i' σ' run => ?_⟩
    · rw [first, hx] at run
      cases run
    · rw [first, hx] at run
      cases run
      exact ⟨c', rfl, m, current, distances, stop.imp id fun hy => by rw [second, hy]⟩

/-- An action that gives no scope a name, before one that may. -/
theorem first {k : α → Eval γ} {l : β → Run δ} (h : Follows W none c Q x y)
    (next : ∀ a b c', x c.state = .ok a c'.state → c'.Matched W → c.Grown W none c' →
      Q a b c' → Follows W free c' R (k a) (l b)) : Follows W free c R (x >>= k) (y >>= l) := by
  have kept : Follows W none c (fun a b c' => c.Grown W none c' ∧ Q a b c') x y :=
    h.imp fun _ _ _ _ grown q => ⟨grown, q⟩
  exact kept.widen.bind fun a b c' ran m _ both => next a b c' ran m both.1 both.2

/-- Where an action of the running program leads, there is a matched twin. -/
theorem reaches {a : α} {σ : State} (h : Follows W free c Q x y) (ran : x c.state = .ok a σ) :
    ∃ (c₁ : Twin) (b : β), c₁.state = σ ∧ c₁.Matched W ∧ c.Grown W free c₁ ∧ Q a b c₁ := by
  obtain ⟨c₁, b, same, -, m, grown, q⟩ := h.ok a σ ran
  exact ⟨c₁, b, same, m, grown, q⟩

/-- What the second action yields is put in another form. -/
theorem map_right {g : β → δ} (h : Follows W free c Q x y) :
    Follows W free c (fun a d c' => ∃ b, d = g b ∧ Q a b c') x (y >>= fun b => pure (g b)) := by
  refine ⟨fun a σ hx => ?_, fun i σ hx => ?_⟩
  · obtain ⟨c', b, same, hy, m, grown, q⟩ := h.ok a σ hx
    exact ⟨c', g b, same, by simp [hy], m, grown, b, rfl, q⟩
  · obtain ⟨c', same, m, current, distances, stop⟩ := h.error i σ hx
    exact ⟨c', same, m, current, distances, stop.imp id fun hy => by simp [hy]⟩

/-- The actions are what others do from a twin that was reached without stopping. -/
theorem after (c₁ : Twin) {x' : Eval α} {y' : Run β} (left : x c.state = x' c₁.state)
    (right : y c.memory = y' c₁.memory) (grown : c.Grown W free c₁)
    (h : Follows W free c₁ Q x' y') : Follows W free c Q x y := by
  refine ⟨fun a σ hx => ?_, fun i σ hx => ?_⟩
  · obtain ⟨c', b, same, hy, m, grown', q⟩ := h.ok a σ (left.symm.trans hx)
    exact ⟨c', b, same, right.trans hy, m, grown.trans grown', q⟩
  · obtain ⟨c', same, m, current, distances, stop⟩ := h.error i σ (left.symm.trans hx)
    exact ⟨c', same, m, current.trans grown.current, distances.trans grown.distances,
      stop.imp id right.trans⟩

/-- Actions that run alike. -/
theorem congr {x' : Eval α} {y' : Run β} (left : x c.state = x' c.state)
    (right : y c.memory = y' c.memory) (h : Follows W free c Q x' y') : Follows W free c Q x y :=
  after c left right (.refl ..) h

/-- An action within a scope that was opened since may give that scope names. -/
theorem inScope {x' : Eval α} {y' : Run β} {Q' : α → β → Twin → Prop} {f : Nat}
    (fresh : c.state.scopes.size ≤ f) (grown : c.Grown W none c₁)
    (left : x' c.state = Eval.inScope f x c₁.state) (right : y' c.memory = y c₁.memory)
    (h : Follows W (some f) (c₁.moveTo f) Q x y)
    (back : ∀ a b c', Q a b c' → Q' a b (c'.moveTo c.state.current)) :
    Follows W none c Q' x' y' := by
  have inside : { c₁.state with current := f } = (c₁.moveTo f).state := rfl
  refine ⟨fun a σ hx => ?_, fun i σ hx => ?_⟩
  · obtain ⟨σ', hx', rfl⟩ := inScope_eq_ok (left.symm.trans hx)
    rw [inside] at hx'
    obtain ⟨c', b, rfl, hy, m, grown', q⟩ := h.ok a σ' hx'
    have whole : c.Grown W (some f) (c'.moveTo c₁.state.current) :=
      grown.widen.trans ⟨grown'.kept, grown'.size, grown'.closed, rfl, grown'.distances⟩
    rw [grown.current] at whole
    refine ⟨c'.moveTo c.state.current, b, ?_, right.trans hy, m.moveTo _, whole.narrow fresh,
      back _ _ _ q⟩
    rw [grown.current]
    rfl
  · obtain ⟨σ', hx', rfl⟩ := inScope_eq_error (left.symm.trans hx)
    rw [inside] at hx'
    obtain ⟨c', rfl, m, current, distances, stop⟩ := h.error i σ' hx'
    refine ⟨c'.moveTo c.state.current, ?_, m.moveTo _, grown.current,
      distances.trans grown.distances, stop.imp id fun hy => right.trans hy⟩
    rw [grown.current]
    rfl

end Follows

end ClassScript
