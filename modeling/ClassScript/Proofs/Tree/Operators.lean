import ClassScript.Tree.Walk

set_option autoImplicit false

/-!
# Operators of nodes

Which operators the sorts of nodes have.  A node with any other could not be evaluated.
-/

namespace ClassScript

/-- The ten operators of arithmetic, comparison and equality. -/
def binaryOperators : List TokenKind :=
  [.minus, .plus, .slash, .star, .greater, .greaterEqual, .less, .lessEqual, .equalEqual, .bangEqual]

/-- If the node has an operator, then it is one of its sort. -/
def Expr.Operable : Expr → Prop
  | .unary operator _ => operator.kind = .minus ∨ operator.kind = .bang
  | .binary _ operator _ => operator.kind ∈ binaryOperators
  | .logical _ operator _ => operator.kind = .kwAnd ∨ operator.kind = .kwOr
  | _ => True

/-- All nodes have operators of their sorts. -/
def AllOperable (es : List Expr) : Prop :=
  ∀ e ∈ es, e.Operable

namespace AllOperable

variable {e : Expr} {es fs : List Expr}

theorem nil : AllOperable [] := fun _ h => nomatch h

theorem cons (h : e.Operable) (k : AllOperable es) : AllOperable (e :: es) :=
  List.forall_mem_cons.2 ⟨h, k⟩

theorem append (h : AllOperable es) (k : AllOperable fs) : AllOperable (es ++ fs) := by
  intro e he
  exact (List.mem_append.1 he).elim (h e) (k e)

theorem subset (h : AllOperable es) (sub : fs ⊆ es) : AllOperable fs :=
  fun e he => h e (sub he)

end AllOperable

end ClassScript
