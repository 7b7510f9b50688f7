import ClassScript.Proofs.Execution.Loops
import ClassScript.Proofs.Lexical.Interpreter

set_option autoImplicit false

/-!
# `for` loops by the book

Without scopes a `for` statement means the following.  The initializer extends the map, once.  The
condition, the body and the increment are run in this one map again and again, so that all rounds,
and all functions that are declared in them, share the location of the loop variable.  What the body
declares is in no map but its own, and the map after the loop is the map before it.

The statements that a `for` statement is read as have this meaning too: a block around parts that
declare nothing changes nothing that they see.
-/

namespace ClassScript.Lexical

open Eval (spent andThen passes advance rounds rounds_congr rounds_passes)

/-! ## What a map is for -/

section Entering

variable (env : Environment)

theorem lookUp_enter (name : Token) : lookUp env.enter name = lookUp env name := rfl

theorem assign_enter (name : Token) (value : Value) :
    assign env.enter name value = assign env name value := rfl

theorem superMethod_enter (keyword method : Token) :
    superMethod env.enter keyword method = superMethod env keyword method := rfl

/-- Where a map stands does not matter to expressions. -/
theorem evaluate_enter_all (fuel : Nat) :
    (∀ e, evaluate fuel env.enter e = evaluate fuel env e) ∧
      ∀ es, evaluateAll fuel env.enter es = evaluateAll fuel env es := by
  induction fuel with
  | zero => exact ⟨fun _ => rfl, fun _ => rfl⟩
  | succ fuel ih =>
    obtain ⟨one, all⟩ := ih
    constructor
    · intro e
      cases e <;> simp only [evaluate, one, all, lookUp_enter, assign_enter, superMethod_enter]
    · intro es
      cases es <;> simp only [evaluateAll, one, all]

theorem evaluate_enter :
    (fun fuel => evaluate fuel env.enter) = fun fuel => evaluate fuel env :=
  funext fun fuel => funext (evaluate_enter_all env fuel).1

end Entering

/-! ## How statements finish -/

/-- How a statement finishes, without what it declares. -/
def finish (env : Environment) (s : Stmt) (fuel : Nat) : Run Flow := do
  return (← execute fuel env s).1

/-- An action that leaves the map as it is. -/
def keeping (env : Environment) (x : Run Flow) : Run (Flow × Environment) := do
  return (← x, env)

/-- What is left to do after a statement is done in the map that it yields, unless it ended in a
`return`. -/
def continueIn (first : Run (Flow × Environment)) (rest : Environment → Run Flow) : Run Flow := do
  match ← first with
  | (.returned value, _) => return .returned value
  | (.normal, inner) => rest inner

section Finishing

variable (env : Environment) (fuel : Nat)

/-- After a statement that declares nothing, the map is what it was. -/
theorem execute_bare {s : Stmt} (bare : s.Bare) :
    execute fuel env s = keeping env (finish env s fuel) := by
  cases fuel with
  | zero => rfl
  | succ fuel =>
    unfold keeping finish
    cases s with
    | varDecl | funDecl | classDecl => exact absurd bare (Stmt.not_bare rfl)
    | ifThen condition thenBranch | ifElse condition thenBranch elseBranch =>
      simp only [execute, bind_assoc]
      refine bind_congr fun v => ?_
      split <;> simp only [bind_assoc, pure_bind]
    | returnStmt keyword value =>
      cases value <;> simp only [execute, bind_assoc, pure_bind]
    | expression | print | block | whileLoop => simp only [execute, bind_assoc, pure_bind]

theorem fst_keeping (x : Run Flow) : (do return (← keeping env x).1) = x := by
  rw [keeping, bind_assoc]
  exact bind_pure x

theorem finish_block (body : List Stmt) :
    finish env (.block body) (fuel + 1) = executeAll fuel env.enter body :=
  fst_keeping env _

theorem finish_expression (e : Expr) :
    finish env (.expression e) fuel = advance (fun n => evaluate n env) e (fuel - 1) := by
  cases fuel with
  | zero => rfl
  | succ fuel => exact bind_assoc ..

theorem finish_print (e : Expr) :
    finish env (.print e) (fuel + 1) = (do
      print (← evaluate fuel env e).toText (e.line?.getD 0)
      return .normal) := by
  refine (bind_assoc ..).trans (bind_congr fun v => ?_)
  exact bind_assoc ..

theorem finish_returnStmt (keyword : Token) (value : Option Expr) :
    finish env (.returnStmt keyword value) (fuel + 1) = (do
      match value with
      | some e => return .returned (← evaluate fuel env e)
      | none => return .returned .nil) := by
  cases value with
  | none => rfl
  | some e => exact bind_assoc ..

theorem finish_ifThen (condition : Expr) (thenBranch : Stmt) :
    finish env (.ifThen condition thenBranch) (fuel + 1) = (do
      if (← evaluate fuel env condition).isTruthy then finish env thenBranch fuel
      else return .normal) := by
  refine (bind_assoc ..).trans (bind_congr fun v => ?_)
  split
  · exact bind_assoc ..
  · rfl

theorem finish_ifElse (condition : Expr) (thenBranch elseBranch : Stmt) :
    finish env (.ifElse condition thenBranch elseBranch) (fuel + 1) = (do
      if (← evaluate fuel env condition).isTruthy then finish env thenBranch fuel
      else finish env elseBranch fuel) := by
  refine (bind_assoc ..).trans (bind_congr fun v => ?_)
  split <;> exact bind_assoc ..

/-- Of the fuel for two statements, the second finds one step less. -/
theorem executeAll_pair (s t : Stmt) :
    executeAll fuel env [s, t] =
      continueIn (execute (fuel - 1) env s) fun inner => finish inner t (fuel - 2) := by
  have last : ∀ n inner, executeAll (n + 1) inner [t] = finish inner t n := by
    intro n inner
    cases n with
    | zero => rfl
    | succ n =>
      refine bind_congr fun p => ?_
      obtain ⟨_ | _, _⟩ := p <;> rfl
  match fuel with
  | 0 | 1 => rfl
  | fuel + 2 =>
    refine bind_congr fun p => ?_
    obtain ⟨_ | _, inner⟩ := p
    · exact last fuel inner
    · rfl

/-- A statement that declares nothing leaves its map to the next. -/
theorem executeAll_pair_bare {s : Stmt} (bare : s.Bare) (t : Stmt) :
    executeAll fuel env [s, t] = andThen (finish env s (fuel - 1)) (finish env t (fuel - 2)) := by
  rw [executeAll_pair, execute_bare _ _ bare]
  simp only [keeping, continueIn, andThen, bind_assoc, pure_bind]
  refine bind_congr fun flow => ?_
  cases flow <;> rfl

theorem repeatWhile_eq_rounds (condition : Expr) (body : Stmt) :
    repeatWhile fuel env condition body =
      rounds (passes (fun n => evaluate n env) (some condition)) (finish env body) fuel := by
  induction fuel with
  | zero => rfl
  | succ fuel ih =>
    rw [rounds, ← ih, passes, bind_assoc]
    refine bind_congr fun v => ?_
    rw [pure_bind]
    split
    · refine (bind_congr fun p => ?_).trans (bind_assoc ..).symm
      obtain ⟨_ | _, _⟩ := p <;> rfl
    · rfl

theorem finish_whileLoop (condition : Expr) (body : Stmt) :
    finish env (.whileLoop condition body) fuel =
      rounds (passes (fun n => evaluate n env) (some condition)) (finish env body) (fuel - 1) := by
  cases fuel with
  | zero => rfl
  | succ fuel => exact (fst_keeping env _).trans (repeatWhile_eq_rounds env fuel condition body)

end Finishing

/-- A statement that declares nothing finishes within another scope as it does without it. -/
theorem finish_enter (env : Environment) (fuel : Nat) {s : Stmt} (bare : s.Bare) :
    finish env.enter s fuel = finish env s fuel := by
  have one := fun n => congrFun (evaluate_enter env) n
  induction fuel using Nat.strong_induction_on generalizing s with
  | _ fuel ih =>
    cases fuel with
    | zero => rfl
    | succ fuel =>
      have less := Nat.lt_succ_self fuel
      cases s with
      | varDecl | funDecl | classDecl => exact absurd bare (Stmt.not_bare rfl)
      | expression e => rw [finish_expression, finish_expression, evaluate_enter]
      | print e => rw [finish_print, finish_print, one]
      | returnStmt keyword value => rw [finish_returnStmt, finish_returnStmt, one]
      | block body => rw [finish_block, finish_block]; rfl
      | ifThen condition thenBranch =>
        rw [finish_ifThen, finish_ifThen, one, ih fuel less bare.1]
      | ifElse condition thenBranch elseBranch =>
        rw [finish_ifElse, finish_ifElse, one, ih fuel less bare.1.1, ih fuel less bare.1.2]
      | whileLoop condition body =>
        rw [finish_whileLoop, finish_whileLoop, evaluate_enter]
        exact rounds_congr fun n before => ih n (Nat.lt_succ_of_lt before) bare.1

/-! ## The meaning of a loop -/

/-- A round is the body and then the increment, both in the map of the loop. -/
def roundFor (env : Environment) (l : ForLoop) (fuel : Nat) : Run Flow :=
  match l.increment with
  | none => finish env l.body fuel
  | some step =>
    andThen (finish env l.body (fuel - 2)) (advance (fun n => evaluate n env) step (fuel - 4))

/-- The rounds of a `for` statement, once its initializer has been executed. -/
def roundsFor (env : Environment) (l : ForLoop) : Nat → Run Flow :=
  rounds (passes (fun n => evaluate n env) l.condition) (roundFor env l)

/-- Execute a `for` statement.  The fuel is counted as for the statements that it is read as. -/
def executeFor (fuel : Nat) (env : Environment) (l : ForLoop) : Run (Flow × Environment) :=
  keeping env <|
    match l.initializer with
    | none => roundsFor env l (fuel - 1)
    | some first =>
      continueIn (execute (fuel - 2) env.enter first) fun inner => roundsFor inner l (fuel - 4)

section Loops

variable (env : Environment) (fuel : Nat) {l : ForLoop} (bare : l.body.Bare)
include bare

theorem finish_round : finish env l.round fuel = roundFor env l fuel := by
  unfold ForLoop.round roundFor
  cases l.increment with
  | none => rfl
  | some step =>
    cases fuel with
    | zero => rfl
    | succ fuel =>
      -- the scope of the round adds nothing to what its two statements see
      simp only [finish_block, executeAll_pair_bare _ _ bare, finish_enter _ _ bare,
        finish_expression, evaluate_enter]
      rfl

theorem finish_loop : finish env l.loop fuel = roundsFor env l (fuel - 1) := by
  have empty : roundFor env l 0 = spent := by
    unfold roundFor
    cases l.increment <;> rfl
  unfold ForLoop.loop roundsFor
  rw [finish_whileLoop, rounds_congr fun n _ => finish_round env n bare]
  exact rounds_passes l.condition rfl (fun _ => rfl) empty _

/-- A `for` statement is executed as it means. -/
theorem execute_for : execute fuel env l.statement = executeFor fuel env l := by
  have loop : execute fuel env l.loop = keeping env (roundsFor env l (fuel - 1)) := by
    rw [← finish_loop env fuel bare]
    cases fuel with
    | zero => rfl
    | succ fuel => exact congrArg (keeping env) (fst_keeping env _).symm
  rw [ForLoop.statement_eq]
  unfold executeFor
  cases l.initializer with
  | none => exact loop
  | some first =>
    cases fuel with
    | zero => rfl
    | succ fuel =>
      have block : executeAll fuel env.enter [first, l.loop] =
          continueIn (execute (fuel - 1) env.enter first) fun inner =>
            roundsFor inner l (fuel - 3) := by
        simp only [executeAll_pair, finish_loop _ _ bare]
        rfl
      exact congrArg (keeping env) block

end Loops

end ClassScript.Lexical
