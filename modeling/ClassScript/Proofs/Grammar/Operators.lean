import ClassScript.Proofs.Grammar.Acceptance
import ClassScript.Proofs.Tree.Numbering
import ClassScript.Proofs.Tree.Operators

set_option autoImplicit false

/-!
# Operators of trees that are read

Every node of a tree that the rules give has an operator of its sort, and so has every node of a
program that is read, whatever the lexemes of its tokens are.
-/

namespace ClassScript

/-! ## Node numbers -/

@[simp] theorem Expr.operable_unnumbered (e : Expr) : e.unnumbered.Operable ↔ e.Operable := by
  cases e <;> rfl

mutual

theorem Expr.walk_unnumbered (e : Expr) : e.unnumbered.walk = e.walk.map Expr.unnumbered := by
  cases e with
  | constant | name | this | super => rfl
  | unary _ operand => simp [Expr.unnumbered, Expr.walk, operand.walk_unnumbered]
  | grouping inner => simp [Expr.unnumbered, Expr.walk, inner.walk_unnumbered]
  | assign _ _ value => simp [Expr.unnumbered, Expr.walk, value.walk_unnumbered]
  | get object _ => simp [Expr.unnumbered, Expr.walk, object.walk_unnumbered]
  | binary l _ r | logical l _ r | set l _ r =>
    simp [Expr.unnumbered, Expr.walk, l.walk_unnumbered, r.walk_unnumbered]
  | call callee _ arguments =>
    simp [Expr.unnumbered, Expr.walk, callee.walk_unnumbered, Expr.walkAll_unnumbered arguments]

theorem Expr.walkAll_unnumbered (es : List Expr) :
    Expr.walkAll (Expr.unnumberedAll es) = (Expr.walkAll es).map Expr.unnumbered := by
  cases es with
  | nil => rfl
  | cons e es =>
    simp [Expr.unnumberedAll, Expr.walkAll, e.walk_unnumbered, Expr.walkAll_unnumbered es]

end

theorem Expr.walkOption_unnumbered (e : Option Expr) :
    Expr.walkOption (e.map Expr.unnumbered) = (Expr.walkOption e).map Expr.unnumbered := by
  cases e with
  | none => rfl
  | some e => exact e.walk_unnumbered

mutual

theorem Stmt.walk_unnumbered (s : Stmt) : s.unnumbered.walk = s.walk.map Expr.unnumbered := by
  cases s with
  | expression value | print value => exact value.walk_unnumbered
  | varDecl _ value | returnStmt _ value => exact Expr.walkOption_unnumbered value
  | block body => exact Stmt.walkAll_unnumbered body
  | ifThen condition body | whileLoop condition body =>
    simp [Stmt.unnumbered, Stmt.walk, condition.walk_unnumbered, body.walk_unnumbered]
  | ifElse condition thenBranch elseBranch =>
    simp [Stmt.unnumbered, Stmt.walk, condition.walk_unnumbered, thenBranch.walk_unnumbered,
      elseBranch.walk_unnumbered]
  | funDecl declaration => exact declaration.walk_unnumbered
  | classDecl _ superclass methods =>
    simp [Stmt.unnumbered, Stmt.walk, Expr.walkOption_unnumbered,
      FunctionDecl.walkAll_unnumbered methods]

theorem Stmt.walkAll_unnumbered (ss : List Stmt) :
    Stmt.walkAll (Stmt.unnumberedAll ss) = (Stmt.walkAll ss).map Expr.unnumbered := by
  cases ss with
  | nil => rfl
  | cons s ss =>
    simp [Stmt.unnumberedAll, Stmt.walkAll, s.walk_unnumbered, Stmt.walkAll_unnumbered ss]

theorem FunctionDecl.walk_unnumbered (f : FunctionDecl) :
    f.unnumbered.walk = f.walk.map Expr.unnumbered := by
  obtain ⟨name, parameters, body⟩ := f
  exact Stmt.walkAll_unnumbered body

theorem FunctionDecl.walkAll_unnumbered (fs : List FunctionDecl) :
    FunctionDecl.walkAll (FunctionDecl.unnumberedAll fs) =
      (FunctionDecl.walkAll fs).map Expr.unnumbered := by
  cases fs with
  | nil => rfl
  | cons f fs =>
    simp [FunctionDecl.unnumberedAll, FunctionDecl.walkAll, f.walk_unnumbered,
      FunctionDecl.walkAll_unnumbered fs]

end

/-! ## Trees of phrases -/

/-- The desugaring of `for` adds no node but a constant. -/
theorem AllOperable.forLoop {initializer : Option Stmt} {condition increment : Option Expr} {body : Stmt}
    (hfirst : AllOperable (Stmt.walkAll initializer.toList))
    (hcondition : AllOperable (Expr.walkOption condition))
    (hincrement : AllOperable (Expr.walkOption increment)) (hbody : AllOperable body.walk) :
    AllOperable (Stmt.forLoop initializer condition increment body).walk := by
  have tested : AllOperable (condition.getD (.constant .true)).walk := by
    cases condition with
    | none => exact .cons trivial .nil
    | some e => exact hcondition
  have loop : ∀ round : Stmt, AllOperable round.walk →
      AllOperable (Stmt.whileLoop (condition.getD (.constant .true)) round).walk :=
    fun _ hround => tested.append hround
  cases initializer with
  | none =>
    cases increment with
    | none => exact loop _ hbody
    | some step => exact loop _ (hbody.append (.append hincrement .nil))
  | some first =>
    have hfirst : AllOperable first.walk := fun e he => hfirst e (List.mem_append_left _ he)
    cases increment with
    | none => exact hfirst.append (.append (loop _ hbody) .nil)
    | some step => exact hfirst.append (.append (loop _ (hbody.append (.append hincrement .nil))) .nil)

namespace Grammar

/-- The nodes of the tree of a phrase. -/
def Phrase.walk : (p : Phrase) → p.Yield → List Expr
  | program | declarations | block => Stmt.walkAll
  | declaration | varDecl | statement _ | exprStmt => Stmt.walk
  | forFirst => fun s => Stmt.walkAll s.toList
  | superclass | initializer | optional => Expr.walkOption
  | methods => FunctionDecl.walkAll
  | function => FunctionDecl.walk
  | parameters => fun _ => []
  | arguments => Expr.walkAll
  | expression | assignment | logicOr | logicAnd | equality | comparison | term | factor | unary
  | call | primary => Expr.walk

/-- Each rule makes nodes with operators of their sorts only. -/
theorem Derives.operable {d : Dialect} {p : Phrase} {ts : List Token} {y : p.Yield}
    (h : Derives d p ts y) : AllOperable (p.walk y) := by
  induction h with
  | program _ _ ih | statement _ ih | expressionStatement _ ih | blockStatement _ ih
  | varDeclaration _ ih | optionalSome _ ih | initializer _ _ ih | expression _ ih
  | assignNothing _ ih | logicOrFirst _ ih | logicAndFirst _ ih | equalityFirst _ ih
  | comparisonFirst _ ih | termFirst _ ih | factorFirst _ ih | unaryCall _ ih
  | callFirst _ ih => exact ih
  | forVariable _ ih | forExpression _ ih => exact ih.append .nil
  | noDeclaration | noSuperclass | noMethod | noInitializer | optionalNone | forNothing
  | lastParameter | moreParameters => exact .nil
  | moreDeclarations _ _ ih ihs | moreMethods _ _ ih ihs => exact ih.append ihs
  | classDecl _ _ _ _ _ _ ihsuper ih => exact ihsuper.append ih
  | superclass => exact .cons trivial .nil
  | funDecl _ _ ih | functionNone _ _ _ _ ih | functionSome _ _ _ _ _ _ _ ih => exact ih
  | varDecl _ _ _ _ ih | exprStmt _ _ ih | printStmt _ _ _ ih | returnStmt _ _ _ ih
  | block _ _ _ ih => exact ih
  | forStmt _ _ _ _ _ _ _ _ ihfirst ihcondition ihincrement ih =>
    exact .forLoop ihfirst ihcondition ihincrement ih
  | ifThen _ _ _ _ _ ihcondition ih | whileStmt _ _ _ _ _ ihcondition ih =>
    exact ihcondition.append ih
  | ifElse _ _ _ _ _ _ _ _ ihcondition ihthen ihelse =>
    exact (ihcondition.append ihthen).append ihelse
  | assignName _ _ _ ih => exact .cons trivial ih
  | assignProperty _ _ _ _ _ ihobject ih => exact .cons trivial (ihobject.append ih)
  | assignOther _ _ _ _ _ ih _ => exact ih
  | logicOrMore _ hop _ ihl ihr => exact .cons (.inr hop) (ihl.append ihr)
  | logicAndMore _ hop _ ihl ihr => exact .cons (.inl hop) (ihl.append ihr)
  | equalityMore _ hop _ ihl ihr | comparisonMore _ hop _ ihl ihr | termMore _ hop _ ihl ihr
  | factorMore _ hop _ ihl ihr =>
    exact .cons ((by decide : ∀ k ∈ _, k ∈ binaryOperators) _ hop) (ihl.append ihr)
  | unaryOperator hop _ ih => exact .cons (List.mem_pair.1 hop).symm ih
  | callNone _ _ _ ih => exact .cons trivial (ih.append .nil)
  | callSome _ _ _ _ _ ih ihs => exact .cons trivial (ih.append ihs)
  | callProperty _ _ _ ih => exact .cons trivial ih
  | lastArgument _ ih => exact ih.append .nil
  | moreArguments _ _ _ ih ihs => exact ih.append ihs
  | literal | true | false | nil | this | name | super => exact .cons trivial .nil
  | grouping _ _ _ ih => exact .cons trivial ih

end Grammar

open Grammar

/-- Every node of a program that is read has an operator of its sort, and every superclass is given
by name. -/
theorem parse_operable {tokens : List Token} {firstId : Nat} {statements : List Stmt}
    (h : (parse tokens firstId).outcome = .program statements) :
    AllOperable (Stmt.walkAll statements) ∧ Stmt.FormedByAll (fun _ => True) statements := by
  obtain ⟨c, run, silent⟩ := parse_eq_program.1 h
  obtain ⟨us, ds, reads, good⟩ := (Parser.program_sound (d := .written) _).ok
    (Cursor.closing_start tokens firstId) run
  have nothing : ds = [] := by
    have same := reads.faults
    rw [silent] at same
    exact (List.append_eq_nil_iff.1 same.symm).2
  obtain ⟨derived, -⟩ := good (by simp [nothing])
  refine ⟨fun e he => ?_, (parse_grounded Token.grounds_any (fun _ _ => trivial) firstId).2 _ h |>.2⟩
  refine (Expr.operable_unnumbered e).1 (derived.operable _ ?_)
  change _ ∈ Stmt.walkAll (Stmt.unnumberedAll statements)
  rw [Stmt.walkAll_unnumbered]
  exact List.mem_map_of_mem he

end ClassScript
