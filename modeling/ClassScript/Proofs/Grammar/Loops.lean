import ClassScript.Proofs.Grammar.Rules
import ClassScript.Tree.Parse

set_option autoImplicit false

/-!
# How `for` loops are written

A `for` statement has three clauses and a body.  The parser reads them in this order, and what it makes
of them depends on nothing else.  So the statement can be told from the loop, and the loop from the
tokens that write it.
-/

namespace ClassScript

open Grammar

/-- A `for` statement; every clause may be absent. -/
structure ForLoop where
  initializer : Option Stmt
  condition : Option Expr
  increment : Option Expr
  body : Stmt

/-- What the parser makes of a `for` statement. -/
def ForLoop.statement (l : ForLoop) : Stmt :=
  .forLoop l.initializer l.condition l.increment l.body

/-- The tokens are those of a `for` statement with the clauses and the body of the loop.  It may end in
an `if` without `else` if `o` holds. -/
inductive ForLoop.Written (d : Dialect) (o : Bool) (l : ForLoop) : List Token → Prop where
  | clauses {keyword opening semicolon closing : Token} {is cs ss bs : List Token}
      (begins : keyword.kind = .kwFor) (opens : opening.kind = .leftParen)
      (initializer : Derives d .forFirst is (l.initializer.map Stmt.unnumbered))
      (condition : Derives d .optional cs (l.condition.map Expr.unnumbered))
      (ends : semicolon.kind = .semicolon)
      (increment : Derives d .optional ss (l.increment.map Expr.unnumbered))
      (closes : closing.kind = .rightParen)
      (body : Derives d (.statement o) bs l.body.unnumbered) :
      Written d o l (keyword :: opening :: (is ++ (cs ++ semicolon :: (ss ++ closing :: bs))))

/-- What the parser makes of a loop derives from the tokens that write it. -/
theorem ForLoop.Written.derives {d : Dialect} {o : Bool} {l : ForLoop} {ts : List Token}
    (written : l.Written d o ts) : Derives d (.statement o) ts l.statement.unnumbered := by
  cases written with
  | clauses begins opens initializer condition ends increment closes body =>
    rw [statement, Stmt.unnumbered_forLoop]
    exact .forStmt begins opens initializer condition ends increment closes body

namespace Parser

/-- What follows the keyword of a `for` statement, read as a loop. -/
def forLoop (fuel : Nat) : Parser ForLoop := do
  let _ ← expect .leftParen .forStart
  let initializer ← forInitializer
  let condition ← expressionBefore? .semicolon
  let _ ← expect .semicolon .loopConditionEnd
  let increment ← expressionBefore? .rightParen
  let _ ← expect .rightParen .forClausesEnd
  return { initializer, condition, increment, body := ← statement fuel }

/-- The statement is made of the loop. -/
theorem map_forLoop (fuel : Nat) :
    ForLoop.statement <$> forLoop fuel = do
      let _ ← expect .leftParen .forStart
      let initializer ← forInitializer
      let condition ← expressionBefore? .semicolon
      let _ ← expect .semicolon .loopConditionEnd
      let increment ← expressionBefore? .rightParen
      let _ ← expect .rightParen .forClausesEnd
      return Stmt.forLoop initializer condition increment (← statement fuel) := by
  simp only [forLoop, map_bind, map_pure]
  rfl

end Parser

end ClassScript
