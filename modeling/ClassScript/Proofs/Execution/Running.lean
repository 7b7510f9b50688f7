import ClassScript.Evaluation.Evaluate

set_option autoImplicit false

/-!
# Running actions

What running an action in a state comes to, by the way it is put together.
-/

namespace ClassScript

section Running

variable {σ α β : Type} (s : σ)

/-- Running one action after another. -/
@[simp] theorem run_bind (x : Action σ α) (k : α → Action σ β) :
    (x >>= k) s = match x s with
      | .ok a s' => k a s'
      | .error i s' => .error i s' := by
  change EStateM.bind x k s = _
  unfold EStateM.bind
  cases x s <;> rfl

@[simp] theorem run_map (f : α → β) (x : Action σ α) :
    (f <$> x) s = match x s with
      | .ok a s' => .ok (f a) s'
      | .error i s' => .error i s' := by
  change EStateM.map f x s = _
  unfold EStateM.map
  cases x s <;> rfl

@[simp] theorem run_pure (a : α) : (pure a : Action σ α) s = .ok a s := rfl

@[simp] theorem run_get : (get : Action σ σ) s = .ok s s := rfl

@[simp] theorem run_modify (f : σ → σ) : (modify f : Action σ PUnit) s = .ok ⟨⟩ (f s) := rfl

@[simp] theorem run_modifyGet (f : σ → α × σ) :
    (modifyGet f : Action σ α) s = .ok (f s).1 (f s).2 := rfl

@[simp] theorem run_fail (fault : RuntimeFault) (line : Nat) :
    (Eval.fail fault line : Action σ α) s = .error (.error ⟨fault, line⟩) s := rfl

/-- A sequence that ends well has come through its first action. -/
theorem run_bind_eq_ok {x : Action σ α} {k : α → Action σ β} {b : β} {s s' : σ}
    (ran : (x >>= k) s = .ok b s') : ∃ a s₁, x s = .ok a s₁ ∧ k a s₁ = .ok b s' := by
  rw [run_bind] at ran
  cases first : x s with
  | ok a s₁ =>
    rw [first] at ran
    exact ⟨a, s₁, rfl, ran⟩
  | error i s₁ =>
    rw [first] at ran
    cases ran

end Running

/-! ## Within another scope -/

section InScope

variable {α : Type} {x : Eval α} {scope : Nat} {σ σ' : State}

/-- What an action within a scope yields, it yields there; only the scope is left again. -/
theorem inScope_eq_ok {a : α} (h : Eval.inScope scope x σ = .ok a σ') :
    ∃ σ₁, x { σ with current := scope } = .ok a σ₁ ∧ σ' = { σ₁ with current := σ.current } := by
  unfold Eval.inScope at h
  cases ran : x { σ with current := scope } with
  | ok b σ₁ =>
    simp only [ran] at h
    cases h
    exact ⟨σ₁, rfl, rfl⟩
  | error i σ₁ =>
    simp only [ran] at h
    cases h

/-- So it is with the reason for which it stops. -/
theorem inScope_eq_error {i : Interrupt} (h : Eval.inScope scope x σ = .error i σ') :
    ∃ σ₁, x { σ with current := scope } = .error i σ₁ ∧ σ' = { σ₁ with current := σ.current } := by
  unfold Eval.inScope at h
  cases ran : x { σ with current := scope } with
  | ok a σ₁ =>
    simp only [ran] at h
    cases h
  | error j σ₁ =>
    simp only [ran] at h
    cases h
    exact ⟨σ₁, rfl, rfl⟩

end InScope

/-! ## Declaring a class -/

/-- Leaving the scope for `super` by hand leads back, so that a class is declared as if its methods
were only given the scope by number. -/
theorem declareClass_eq (name : Token) (superclass : Option Class) (methods : List FunctionDecl) :
    Eval.declareClass name superclass methods = (do
      Eval.define name.lexeme .nil
      let scope ← superclass.elim (return (← get).current) fun c => do
        Eval.openScope [("super", .ofClass c)] (← get).current
      let serial ← Eval.freshSerial
      let own := ⟨serial, name.lexeme, Eval.closeMethods scope methods⟩
      Eval.assignOutward name (.ofClass (Class.declare own superclass))) := by
  cases superclass with
  | none => rfl
  | some c => rfl

end ClassScript
