import ClassScript.Proofs.Execution.Composed
import ClassScript.Proofs.Execution.Order
import ClassScript.Proofs.Scope.Access
import ClassScript.Proofs.Tree.WellFormed
import Mathlib.Data.Set.Insert

set_option autoImplicit false

/-!
# The names of scopes

A scope gets a name where a declaration is executed in it, and in no other way.  Evaluating, calling
and assigning leave the names of every scope that is there as they are; executing a statement leaves
those of every scope but the present one, and of that one too unless the statement declares.  None of
this depends on how the action ends.

A declaration gives the present scope its name if the initializer, if it has one, yields a value, or
the superclass a class (`Establishes`).
-/

namespace ClassScript

open Eval

/-- The names that a scope has itself. -/
def State.names (σ : State) (f : Nat) : Set String :=
  {name | (σ.scopes.local? f name).isSome}

/-- The statement is one that a branch or the body of a loop may be: it declares nothing itself. -/
def Stmt.Bare (s : Stmt) : Prop :=
  s.WellFormed ∧ s.declares? = none

theorem Stmt.not_bare {s : Stmt} {t : Token} (declares : s.declares? = some t) : ¬s.Bare := by
  intro bare
  rw [bare.2] at declares
  cases declares

/-! ## Keeping names -/

/-- The second state lies onward from the first, and the scopes of the first lie where they lay and
have the same names; the present scope may have more names if something may be declared. -/
structure State.Retains (declares : Prop) (σ σ' : State) : Prop where
  onward : σ.Onward σ'
  enclosing : ∀ f < σ.scopes.size, σ'.scopes.enclosing? f = σ.scopes.enclosing? f
  names : ∀ f < σ.scopes.size, (declares → f ≠ σ.current) → σ'.names f = σ.names f

namespace State

variable {σ σ' σ'' : State} {declares : Prop}

theorem Retains.refl (σ : State) : σ.Retains declares σ :=
  ⟨.refl σ, fun _ _ => rfl, fun _ _ _ => rfl⟩

theorem Retains.trans (h : σ.Retains declares σ') (k : σ'.Retains declares σ'') :
    σ.Retains declares σ'' := by
  have further : ∀ f < σ.scopes.size, f < σ'.scopes.size := fun f bound =>
    Nat.lt_of_lt_of_le bound h.onward.size
  refine ⟨h.onward.trans k.onward, fun f bound => ?_, fun f bound elsewhere => ?_⟩
  · exact (k.enclosing f (further f bound)).trans (h.enclosing f bound)
  · rw [← h.names f bound elsewhere]
    refine k.names f (further f bound) fun may => ?_
    rw [h.onward.current]
    exact elsewhere may

/-- What touches no scope keeps the names of all. -/
theorem Retains.of_scopes (onward : σ.Onward σ') (scopes : σ'.scopes = σ.scopes) :
    σ.Retains declares σ' :=
  ⟨onward, fun f _ => by rw [scopes], fun f _ _ => by unfold State.names; rw [scopes]⟩

theorem names_define (σ : State) (f : Nat) (name : String) (value : Value) (g : Nat) :
    { σ with scopes := σ.scopes.define f name value }.names g =
      if f = g ∧ f < σ.scopes.size then insert name (σ.names g) else σ.names g := by
  ext other
  change ((σ.scopes.define f name value).local? g other).isSome ↔ _
  rw [Scopes.local?_define]
  by_cases here : f = g ∧ f < σ.scopes.size
  · obtain ⟨rfl, bound⟩ := here
    by_cases same : other = name
    · simp [bound, same]
    · simp [bound, same, names]
  · rw [if_neg here, if_neg fun both => here ⟨both.1, both.2.1⟩]
    rfl

/-- A name that a scope has may get another value. -/
theorem names_define_of_mem {f : Nat} {name : String} (has : name ∈ σ.names f) (value : Value)
    (g : Nat) :
    { σ with scopes := σ.scopes.define f name value }.names g = σ.names g := by
  ext other
  change ((σ.scopes.define f name value).local? g other).isSome ↔ (σ.scopes.local? g other).isSome
  rw [Scopes.isSome_local?_define has]

end State

/-- From every state, the action keeps the names of scopes. -/
def Retains (declares : Prop) {α : Type} (x : Eval α) : Prop :=
  ∀ σ : State, σ.Retains declares (x.leaves σ)

namespace Retains

variable {declares : Prop} {α β : Type} {x : Eval α} {k : α → Eval β}

/-- What declares nothing does not declare where something else may. -/
theorem mono {declares' : Prop} (h : Retains declares x) (more : declares → declares') :
    Retains declares' x := fun σ =>
  ⟨(h σ).onward, (h σ).enclosing,
    fun f bound elsewhere => (h σ).names f bound fun may => elsewhere (more may)⟩

theorem of_false (h : Retains False x) : Retains declares x :=
  h.mono False.elim

protected theorem bind (h : Retains declares x) (rest : ∀ a, Retains declares (k a)) :
    Retains declares (x >>= k) := by
  intro σ
  rcases leaves_cases x σ with ⟨a, ran⟩ | ⟨i, ran⟩
  · rw [leaves_bind ran]
    exact (h σ).trans (rest a _)
  · rw [leaves_of_error (run_bind_error k ran)]
    exact h σ

/-- A change that touches no scope. -/
theorem modifyGet {f : State → α × State} (onward : Proceeds (modifyGet f : Eval α))
    (scopes : ∀ σ, (f σ).2.scopes = σ.scopes) : Retains declares (modifyGet f : Eval α) :=
  fun σ => .of_scopes (onward σ) (scopes σ)

theorem opening (bindings : Bindings Value) (enclosing : Nat) :
    Retains declares (openScope bindings enclosing) := by
  refine fun σ => ⟨proceeds_openScope bindings enclosing σ, fun f bound => ?_, fun f bound _ => ?_⟩
  · change (σ.scopes.push bindings (some enclosing)).enclosing? f = _
    rw [Scopes.enclosing?_push, if_neg (Nat.ne_of_lt bound)]
  · ext name
    change ((σ.scopes.push bindings (some enclosing)).local? f name).isSome ↔ _
    rw [Scopes.local?_push, if_neg (Nat.ne_of_lt bound)]
    rfl

theorem compositional (declares : Prop) : Compositional (Retains declares) where
  pure _ σ := .refl σ
  throw _ σ := .refl σ
  bind h rest := h.bind rest
  read _ h σ := h σ σ
  openScope := opening
  freshSerial := modifyGet proceeds_freshSerial fun _ => rfl
  readClock := modifyGet proceeds_readClock fun _ => rfl
  allocate type := modifyGet (proceeds_allocate type) fun _ => rfl
  setField o name value := modifyGet (proceeds_setField value o name) fun _ => rfl

protected theorem pure (a : α) : Retains declares (pure a) :=
  (compositional declares).pure a

theorem fail (fault : RuntimeFault) (line : Nat) : Retains declares (fail fault line : Eval α) :=
  (compositional declares).fail line fault

/-- What happens in a new scope declares nothing in those that were there. -/
theorem inNewScope (bindings : Bindings Value) (enclosing : Nat) (h : Retains True x) :
    Retains declares (openScope bindings enclosing >>= fun scope => inScope scope x) := by
  have onward : Proceeds (openScope bindings enclosing >>= fun scope => inScope scope x) :=
    .bind (proceeds_openScope bindings enclosing) fun scope => .inScope scope fun σ => (h σ).onward
  have opens : Retains False (openScope bindings enclosing) := opening bindings enclosing
  intro σ
  obtain ⟨scope, σ₁, entered⟩ : ∃ scope σ₁, openScope bindings enclosing σ = .ok scope σ₁ :=
    ⟨_, _, rfl⟩
  have opened := opens σ
  have inner := h { σ₁ with current := scope }
  have apart : ∀ f < σ.scopes.size, f ≠ scope := fun f bound => by
    cases entered
    exact Nat.ne_of_lt bound
  rw [leaves_of_ok entered] at opened
  have further : ∀ f < σ.scopes.size, f < σ₁.scopes.size := fun f bound =>
    Nat.lt_of_lt_of_le bound opened.onward.size
  refine ⟨onward σ, fun f bound => ?_, fun f bound _ => ?_⟩ <;>
    rw [leaves_bind entered, leaves_inScope]
  · exact (inner.enclosing f (further f bound)).trans (opened.enclosing f bound)
  · rw [← opened.names f bound nofun]
    exact inner.names f (further f bound) fun _ => apart f bound

end Retains

/-! ## Writes -/

section Writes

variable {declares : Prop} (name : Token) (value : Value)

theorem retains_define (name : String) : Retains True (define name value) := by
  refine fun σ => ⟨proceeds_define value name σ, fun f _ => ?_, fun f _ elsewhere => ?_⟩
  · exact Scopes.enclosing?_define ..
  · have defined := σ.names_define σ.current name value f
    rwa [if_neg fun here => elsewhere trivial here.1.symm] at defined

/-- To assign is to write where the name is. -/
theorem retains_assignIn {owner : Option Nat} {σ : State}
    (owns : ∀ f, owner = some f → name.lexeme ∈ σ.names f) :
    σ.Retains declares ((assignIn owner name value).leaves σ) := by
  cases owner with
  | none => exact .refl σ
  | some f =>
    exact ⟨onward_define value σ f name.lexeme, fun g _ => Scopes.enclosing?_define ..,
      fun g _ _ => State.names_define_of_mem (owns f rfl) value g⟩

theorem retains_assign (id : Nat) : Retains declares (assign id name value) := by
  intro σ
  refine retains_assignIn name value fun f owner => ?_
  split at owner
  · exact (Scopes.ownerAt?_eq_some_iff.1 owner).2
  · exact Scopes.owns_of_owner? owner

theorem retains_assignOutward : Retains declares (assignOutward name value) := fun _ =>
  retains_assignIn name value fun _ owner => Scopes.owns_of_owner? owner

theorem retains_print (text : String) (line : Nat) : Retains declares (print text line) := by
  intro σ
  refine .of_scopes (proceeds_print line text σ) ?_
  unfold print
  rw [leaves_bind (run_get σ)]
  split <;> rfl

theorem retains_declareClass (superclass : Option Class) (methods : List FunctionDecl) :
    Retains True (declareClass name superclass methods) :=
  (Retains.compositional True).declareClass name (retains_define _ _)
    (fun v => retains_assignOutward name v) superclass methods

end Writes

/-! ## The interpreter -/

/-- With the given fuel, nothing but the execution of a declaration adds a name, and that only to the
present scope. -/
structure AllRetain (fuel : Nat) : Prop where
  evaluate : ∀ e, Retains False (evaluate fuel e)
  evaluateAll : ∀ es, Retains False (evaluateAll fuel es)
  call : ∀ f values line, Retains False (call fuel f values line)
  invoke : ∀ f values, Retains False (invoke fuel f values)
  execute : ∀ s, Retains (¬s.Bare) (execute fuel s)
  executeAll : ∀ ss, Retains True (executeAll fuel ss)
  repeatWhile : ∀ condition body, Retains (¬body.Bare) (repeatWhile fuel condition body)

namespace AllRetain

variable {fuel : Nat} (h : AllRetain fuel)
include h

theorem evaluate_succ (e : Expr) : Retains False (Eval.evaluate (fuel + 1) e) :=
  (Retains.compositional False).evaluate_succ h.evaluate h.evaluateAll
    (fun id name value => retains_assign name value id) h.call e

theorem evaluateAll_succ (es : List Expr) : Retains False (Eval.evaluateAll (fuel + 1) es) :=
  (Retains.compositional False).evaluateAll_succ h.evaluate h.evaluateAll es

theorem call_succ (f : Value) (values : List Value) (line : Nat) :
    Retains False (Eval.call (fuel + 1) f values line) :=
  (Retains.compositional False).call_succ h.invoke f values line

theorem invoke_succ (f : Closure) (values : List Value) :
    Retains False (Eval.invoke (fuel + 1) f values) := by
  have body := Retains.bind (.inNewScope (Bindings.ofPairs
    ((f.declaration.parameters.map Token.lexeme).zip values)) f.scope
      (h.executeAll f.declaration.body)) fun flow => (Retains.compositional False).result f flow
  rwa [bind_assoc] at body

theorem execute_succ (s : Stmt) : Retains (¬s.Bare) (Eval.execute (fuel + 1) s) := by
  cases s with
  | expression value => exact .bind (h.evaluate value).of_false fun _ => .pure _
  | print value =>
    exact .bind (h.evaluate value).of_false fun _ => .bind (retains_print _ _) fun _ => .pure _
  | varDecl name initializer =>
    have declares : Retains True (Eval.execute (fuel + 1) (.varDecl name initializer)) := by
      cases initializer with
      | none => exact .bind (.pure _) fun v => .bind (retains_define v _) fun _ => .pure _
      | some e =>
        exact .bind (h.evaluate e).of_false fun v => .bind (retains_define v _) fun _ => .pure _
    exact declares.mono fun _ => Stmt.not_bare rfl
  | block body =>
    exact fun σ => Retains.inNewScope [] σ.current (h.executeAll body) σ
  | ifThen condition thenBranch =>
    refine .bind (h.evaluate condition).of_false fun v => ?_
    split
    · exact (h.execute thenBranch).mono fun not bare => not bare.1
    · exact .pure _
  | ifElse condition thenBranch elseBranch =>
    refine .bind (h.evaluate condition).of_false fun v => ?_
    split
    · exact (h.execute thenBranch).mono fun not bare => not bare.1.1
    · exact (h.execute elseBranch).mono fun not bare => not bare.1.2
  | whileLoop condition body =>
    exact (h.repeatWhile condition body).mono fun not bare => not bare.1
  | funDecl declaration =>
    have declares : Retains True (Eval.execute (fuel + 1) (.funDecl declaration)) :=
      (Retains.compositional True).read (fun _ _ => rfl) fun _ =>
        .bind (Retains.compositional True).freshSerial fun _ => .bind (retains_define _ _) fun _ =>
          .pure _
    exact declares.mono fun _ => Stmt.not_bare rfl
  | returnStmt keyword value =>
    cases value with
    | none => exact .pure _
    | some e => exact .bind (h.evaluate e).of_false fun _ => .pure _
  | classDecl name superclass methods =>
    have rest : ∀ parent,
        Retains True (declareClass name parent methods >>= fun _ => pure Flow.normal) :=
      fun parent => .bind (retains_declareClass name parent methods) fun _ => .pure _
    have declares : Retains True (Eval.execute (fuel + 1) (.classDecl name superclass methods)) := by
      cases superclass with
      | none => exact .bind (.pure none) rest
      | some e =>
        refine .bind (h.evaluate e).of_false fun v => ?_
        split
        · exact .bind (.pure (some _)) rest
        · exact .bind (.fail _ _) rest
    exact declares.mono fun _ => Stmt.not_bare rfl

theorem executeAll_succ (ss : List Stmt) : Retains True (Eval.executeAll (fuel + 1) ss) := by
  cases ss with
  | nil => exact .pure _
  | cons s ss =>
    refine .bind ((h.execute s).mono fun _ => trivial) fun flow => ?_
    split
    · exact .pure _
    · exact h.executeAll ss

theorem repeatWhile_succ (condition : Expr) (body : Stmt) :
    Retains (¬body.Bare) (Eval.repeatWhile (fuel + 1) condition body) := by
  refine .bind (h.evaluate condition).of_false fun v => ?_
  split
  · refine .bind (h.execute body) fun flow => ?_
    split
    · exact .pure _
    · exact h.repeatWhile condition body
  · exact .pure _

end AllRetain

theorem allRetain (fuel : Nat) : AllRetain fuel := by
  induction fuel with
  | zero => exact ⟨fun _ => .refl, fun _ => .refl, fun _ _ _ => .refl, fun _ _ => .refl,
      fun _ => .refl, fun _ => .refl, fun _ _ => .refl⟩
  | succ fuel h =>
    exact ⟨h.evaluate_succ, h.evaluateAll_succ, h.call_succ, h.invoke_succ, h.execute_succ,
      h.executeAll_succ, h.repeatWhile_succ⟩

/-! ## Declarations -/

/-- At the point a declaration is executed that comes to give the present scope a name. -/
inductive Point.Establishes : Point → String → Prop where
  | variable (fuel : Nat) (name : Token) (σ : State) :
      Establishes ⟨fuel + 1, .execute (.varDecl name none), σ⟩ name.lexeme
  | initialized {fuel : Nat} {name : Token} {e : Expr} {v : Value} {σ σ₁ : State}
      (yields : evaluate fuel e σ = .ok v σ₁) :
      Establishes ⟨fuel + 1, .execute (.varDecl name (some e)), σ⟩ name.lexeme
  | function (fuel : Nat) (declaration : FunctionDecl) (σ : State) :
      Establishes ⟨fuel + 1, .execute (.funDecl declaration), σ⟩ declaration.name.lexeme
  | base (fuel : Nat) (name : Token) (methods : List FunctionDecl) (σ : State) :
      Establishes ⟨fuel + 1, .execute (.classDecl name none methods), σ⟩ name.lexeme
  | derived {fuel : Nat} {name : Token} {e : Expr} {methods : List FunctionDecl} {c : Class}
      {σ σ₁ : State} (yields : evaluate fuel e σ = .ok (.ofClass c) σ₁) :
      Establishes ⟨fuel + 1, .execute (.classDecl name (some e) methods), σ⟩ name.lexeme

section Declarations

variable {fuel : Nat} {σ σ₁ : State} {name : String}

/-- Only declarations establish names, and none but the one that they declare. -/
theorem Point.Establishes.declares {s : Stmt} (h : Establishes ⟨fuel, .execute s, σ⟩ name) :
    ∃ t, s.declares? = some t ∧ name = t.lexeme := by
  cases h <;> exact ⟨_, rfl, rfl⟩

theorem Stmt.Bare.not_establishes {s : Stmt} (bare : s.Bare) :
    ¬Point.Establishes ⟨fuel, .execute s, σ⟩ name := by
  intro establishes
  obtain ⟨t, declares, -⟩ := establishes.declares
  exact Stmt.not_bare declares bare

/-- What goes on after a definition without declaring leaves the one name more. -/
theorem names_define_bind {α : Type} {k : PUnit → Eval α} (rest : ∀ u, Retains False (k u))
    (here : σ.current < σ.scopes.size) (name : String) (value : Value) :
    ((define name value >>= k).leaves σ).names σ.current = insert name (σ.names σ.current) := by
  have defined : define name value σ =
      .ok ⟨⟩ { σ with scopes := σ.scopes.define σ.current name value } := rfl
  have size : σ.current < (σ.scopes.define σ.current name value).size := by
    rwa [Scopes.size_define]
  rw [leaves_bind defined, (rest _ _).names σ.current size nofun, State.names_define,
    if_pos ⟨rfl, here⟩]

theorem names_declareClass (here : σ.current < σ.scopes.size) (name : Token)
    (superclass : Option Class) (methods : List FunctionDecl) :
    ((declareClass name superclass methods >>= fun _ => pure Flow.normal).leaves σ).names
      σ.current = insert name.lexeme (σ.names σ.current) := by
  have steps := Retains.compositional False
  rw [declareClass_eq, bind_assoc]
  refine names_define_bind (fun _ => .bind (.bind ?_ fun _ => .bind steps.freshSerial fun _ =>
    retains_assignOutward name _) fun _ => .pure _) here _ _
  cases superclass with
  | none => exact steps.read (fun _ _ => rfl) fun _ => .pure _
  | some c => exact steps.read (fun _ _ => rfl) fun _ => steps.openScope _ _

/-- Evaluating changes nothing about the names that are there. -/
theorem names_leaves_evaluate (fuel : Nat) (e : Expr) (here : σ.current < σ.scopes.size) :
    ((evaluate fuel e).leaves σ).names σ.current = σ.names σ.current :=
  ((allRetain fuel).evaluate e σ).names _ here nofun

/-- What goes on after an expression that yields a value declares what it declares there. -/
theorem names_evaluate_bind {α : Type} {e : Expr} {v : Value} {k : Value → Eval α} {name : String}
    (ran : evaluate fuel e σ = .ok v σ₁) (here : σ.current < σ.scopes.size)
    (rest : ∀ {σ : State}, σ.current < σ.scopes.size →
      ((k v).leaves σ).names σ.current = insert name (σ.names σ.current)) :
    ((evaluate fuel e >>= k).leaves σ).names σ.current = insert name (σ.names σ.current) := by
  have onward := (allProceed fuel).evaluate e σ
  have names := names_leaves_evaluate fuel e here
  rw [leaves_of_ok ran] at onward names
  have there : σ₁.current < σ₁.scopes.size := by
    rw [onward.current]
    exact Nat.lt_of_lt_of_le here onward.size
  rw [leaves_bind ran, ← names, ← onward.current]
  exact rest there

/-- Where the initializer stops, so does the declaration. -/
theorem names_evaluate_error {α : Type} {e : Expr} {i : Interrupt} (k : Value → Eval α)
    (ran : evaluate fuel e σ = .error i σ₁) (here : σ.current < σ.scopes.size) :
    ((evaluate fuel e >>= k).leaves σ).names σ.current = σ.names σ.current := by
  rw [leaves_of_error (run_bind_error k ran), ← leaves_of_error ran]
  exact names_leaves_evaluate fuel e here

/-- While the point is at work, the scope gains the names that the point establishes, and no others. -/
def Point.Gains (p : Point) (f : Nat) : Prop :=
  ∀ name, name ∈ p.leaves.names f ↔ name ∈ p.state.names f ∨ p.Establishes name

theorem Point.Gains.of_kept {p : Point} {f : Nat} (kept : p.leaves.names f = p.state.names f)
    (nothing : ∀ name, ¬p.Establishes name) : p.Gains f := fun name => by
  rw [kept, or_iff_left (nothing name)]

theorem Point.Gains.of_added {s : Stmt} {t : Token} {f : Nat} (declares : s.declares? = some t)
    (added : ((execute fuel s).leaves σ).names f = insert t.lexeme (σ.names f))
    (establishes : Point.Establishes ⟨fuel, .execute s, σ⟩ t.lexeme) :
    Point.Gains ⟨fuel, .execute s, σ⟩ f := by
  intro name
  change name ∈ ((execute fuel s).leaves σ).names f ↔ _
  rw [added, Set.mem_insert_iff, or_comm]
  refine or_congr_right ⟨?_, fun h => ?_⟩
  · rintro rfl
    exact establishes
  · obtain ⟨t', declares', rfl⟩ := h.declares
    cases declares.symm.trans declares'
    rfl

/-- A variable is declared once its initializer, if there is one, has a value. -/
theorem gains_varDecl (here : σ.current < σ.scopes.size) (t : Token) (initializer : Option Expr) :
    Point.Gains ⟨fuel + 1, .execute (.varDecl t initializer), σ⟩ σ.current := by
  cases initializer with
  | none => exact .of_added rfl (names_define_bind (fun _ => .pure _) here t.lexeme _) (.variable ..)
  | some e =>
    cases ran : evaluate fuel e σ with
    | ok v σ₁ =>
      exact .of_added rfl (names_evaluate_bind ran here fun there =>
        names_define_bind (fun _ => .pure _) there t.lexeme v) (.initialized ran)
    | error i σ₁ =>
      refine .of_kept (names_evaluate_error _ ran here) fun name h => ?_
      cases h with
      | initialized yields => cases ran.symm.trans yields

/-- A function is declared at once. -/
theorem gains_funDecl (here : σ.current < σ.scopes.size) (declaration : FunctionDecl) :
    Point.Gains ⟨fuel + 1, .execute (.funDecl declaration), σ⟩ σ.current :=
  .of_added rfl (names_define_bind (σ := { σ with nextSerial := σ.nextSerial + 1 })
    (k := fun _ => pure Flow.normal) (fun _ => .pure _) here _ _) (.function ..)

/-- A class is declared once its superclass, if there is one, is a class. -/
theorem gains_classDecl (here : σ.current < σ.scopes.size) (t : Token)
    (superclass : Option Expr) (methods : List FunctionDecl) :
    Point.Gains ⟨fuel + 1, .execute (.classDecl t superclass methods), σ⟩ σ.current := by
  cases superclass with
  | none => exact .of_added rfl (names_declareClass here t none methods) (.base ..)
  | some e =>
    cases ran : evaluate fuel e σ with
    | ok v σ₁ =>
      have stopped : (∀ c, v ≠ .ofClass c) →
          Point.Gains ⟨fuel + 1, .execute (.classDecl t (some e) methods), σ⟩ σ.current := by
        intro other
        refine .of_kept ?_ fun name h => ?_
        · rw [← names_leaves_evaluate fuel e here, leaves_of_ok ran]
          change State.names (Eval.leaves (evaluate fuel e >>= _) σ) _ = _
          rw [leaves_bind ran]
          split
          · exact absurd rfl (other _)
          · rfl
        · cases h with
          | derived yields =>
            cases ran.symm.trans yields
            exact other _ rfl
      cases v with
      | ofClass c =>
        exact .of_added rfl (names_evaluate_bind ran here fun there =>
          names_declareClass there t (some c) methods) (.derived ran)
      | _ => exact stopped fun _ => nofun
    | error i σ₁ =>
      refine .of_kept (names_evaluate_error _ ran here) fun name h => ?_
      cases h with
      | derived yields => cases ran.symm.trans yields

/-- Executing a statement gives the present scope the name that it establishes, if it does. -/
theorem gains_execute {s : Stmt} (formed : s.WellFormed) (here : σ.current < σ.scopes.size) :
    Point.Gains ⟨fuel, .execute s, σ⟩ σ.current := by
  cases fuel with
  | zero =>
    refine .of_kept rfl fun name h => ?_
    cases h
  | succ fuel =>
    have bare : s.declares? = none → Point.Gains ⟨fuel + 1, .execute s, σ⟩ σ.current := by
      intro plain
      have bare : s.Bare := ⟨formed, plain⟩
      exact .of_kept (((allRetain _).execute s σ).names _ here fun not => absurd bare not)
        fun _ => bare.not_establishes
    cases s with
    | varDecl t initializer => exact gains_varDecl here t initializer
    | funDecl declaration => exact gains_funDecl here declaration
    | classDecl t superclass methods => exact gains_classDecl here t superclass methods
    | _ => exact bare rfl

end Declarations

/-! ## Points that declare nothing -/

/-- The activity is none that declares in the scope that it starts in. -/
def Activity.Bare : Activity → Prop
  | .execute s => s.Bare
  | .executeAll _ => False
  | .repeatWhile _ body => body.Bare
  | .evaluate _ | .evaluateAll _ | .call _ _ _ | .invoke _ _ => True

/-- The scope is there, and if the point starts in it, it does not declare. -/
structure Point.Spares (p : Point) (f : Nat) : Prop where
  there : f < p.state.scopes.size
  bare : p.state.current = f → p.task.Bare

/-- A point that does not declare in a scope leaves its names as they are. -/
theorem Point.Spares.names {p : Point} {f : Nat} (h : p.Spares f) :
    p.leaves.names f = p.state.names f := by
  obtain ⟨fuel, task, σ⟩ := p
  obtain ⟨there, bare⟩ := h
  have all := allRetain fuel
  cases task with
  | evaluate e => exact (all.evaluate e σ).names f there nofun
  | evaluateAll es => exact (all.evaluateAll es σ).names f there nofun
  | call callee values line => exact (all.call callee values line σ).names f there nofun
  | invoke g values => exact (all.invoke g values σ).names f there nofun
  | execute s => exact (all.execute s σ).names f there fun not here => not (bare here.symm)
  | executeAll ss => exact (all.executeAll ss σ).names f there fun _ here => bare here.symm
  | repeatWhile condition body =>
    exact (all.repeatWhile condition body σ).names f there fun not here => not (bare here.symm)

theorem Point.Spares.not_establishes {p : Point} {name : String} (h : p.Spares p.state.current) :
    ¬p.Establishes name := by
  intro establishes
  have bare := h.bare rfl
  cases establishes <;> exact Stmt.not_bare rfl bare

/-- Nothing that is called declares where its caller does not. -/
theorem Point.Spares.calls {p q : Point} {f : Nat} (h : p.Spares f) (calls : Calls p q) :
    q.Spares f := by
  obtain ⟨there, bare⟩ := h
  refine ⟨Nat.lt_of_lt_of_le there calls.begins.size, fun here => ?_⟩
  cases calls with
  | body entered | block entered =>
    cases entered
    exact absurd here (Nat.ne_of_gt there)
  | ifThen first =>
    have same := (((allProceed _).evaluate _).of_ok first).current
    exact (bare (same.symm.trans here)).1
  | thenBranch first =>
    have same := (((allProceed _).evaluate _).of_ok first).current
    exact (bare (same.symm.trans here)).1.1
  | elseBranch first =>
    have same := (((allProceed _).evaluate _).of_ok first).current
    exact (bare (same.symm.trans here)).1.2
  | whileLoop => exact (bare here).1
  | first => exact (bare here).elim
  | rest first =>
    have same := (((allProceed _).execute _).of_ok first).current
    exact (bare (same.symm.trans here)).elim
  | round first =>
    have same := (((allProceed _).evaluate _).of_ok first).current
    exact bare (same.symm.trans here)
  | again first _ second =>
    have same := (((allProceed _).evaluate _).of_ok first).current
    have same' := (((allProceed _).execute _).of_ok second).current
    exact bare (same.symm.trans (same'.symm.trans here))
  | _ => trivial

/-- What a statement calls does not declare in any scope that is there: the statement does so itself,
or not at all. -/
theorem Point.Spares.of_statement {fuel : Nat} {s : Stmt} {σ : State} {q : Point} {f : Nat}
    (formed : s.WellFormed) (there : f < σ.scopes.size) (calls : Calls ⟨fuel, .execute s, σ⟩ q) :
    q.Spares f := by
  cases plain : s.declares? with
  | none =>
    have spares : Point.Spares ⟨fuel, .execute s, σ⟩ f := ⟨there, fun _ => ⟨formed, plain⟩⟩
    exact spares.calls calls
  | some t =>
    refine ⟨Nat.lt_of_lt_of_le there calls.begins.size, fun _ => ?_⟩
    cases calls with
    | varDecl | superclass => trivial
    | _ => cases plain

/-! ## Programs -/

/-- A program gives the scope it starts in the names that its own statements establish. -/
theorem names_interpret {fuel : Nat} {program : List Stmt} {σ : State}
    (formed : Stmt.WellFormedAll program) (here : σ.current < σ.scopes.size) (name : String) :
    name ∈ ((interpret fuel program).leaves σ).names σ.current ↔
      name ∈ σ.names σ.current ∨ ∃ p, Starts fuel program σ p ∧ p.Establishes name := by
  induction program generalizing σ with
  | nil =>
    refine (or_iff_left ?_).symm
    rintro ⟨p, starts, -⟩
    cases starts
  | cons s program ih =>
    have gains : name ∈ ((execute fuel s).leaves σ).names σ.current ↔ _ :=
      gains_execute formed.1 here name
    have onward := (allProceed fuel).execute s σ
    rcases leaves_cases (execute fuel s) σ with ⟨flow, ran⟩ | ⟨i, ran⟩
    · have there := Nat.lt_of_lt_of_le here onward.size
      rw [← onward.current] at there
      have rest := ih formed.2 there
      rw [onward.current] at rest
      change name ∈ ((execute fuel s >>= fun _ => interpret fuel program).leaves σ).names _ ↔ _
      rw [leaves_bind ran, rest, gains, or_assoc]
      refine or_congr_right ⟨?_, ?_⟩
      · rintro (establishes | ⟨p, starts, establishes⟩)
        · exact ⟨_, .here s program σ, establishes⟩
        · exact ⟨p, .later ran starts, establishes⟩
      · rintro ⟨p, starts, establishes⟩
        cases starts with
        | here => exact .inl establishes
        | later first starts =>
          cases ran.symm.trans first
          exact .inr ⟨p, starts, establishes⟩
    · change name ∈ ((execute fuel s >>= fun _ => interpret fuel program).leaves σ).names _ ↔ _
      rw [leaves_of_error (run_bind_error _ ran), gains]
      refine or_congr_right ⟨fun establishes => ⟨_, .here s program σ, establishes⟩, ?_⟩
      rintro ⟨p, starts, establishes⟩
      cases starts with
      | here => exact establishes
      | later first => cases ran.symm.trans first

end ClassScript
