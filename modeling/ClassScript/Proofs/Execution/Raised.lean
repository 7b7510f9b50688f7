import ClassScript.Proofs.Execution.Inventory
import ClassScript.Proofs.Tree.Leaves

set_option autoImplicit false

/-!
# Where errors are raised

An error that stops a run was raised at a point that the run came to.  It is placed by a token of the
construct there; the errors of a call are placed by its closing parenthesis, which is no part of what
is called but comes with the call.  The one exception is the output: a `print` of a constant, alone or
in parentheses, has no token to place its error by.
-/

namespace ClassScript

open Eval

/-! ## Lines of texts -/

/-- The line of a leaf that is a token. -/
def Leaf.line? : Leaf → Option Nat
  | .token _ t => some t.line
  | .constant _ => none

/-- The lines of the tokens among leaves. -/
def linesIn (leaves : List Leaf) : List Nat :=
  leaves.filterMap Leaf.line?

/-- The leaves that an activity was given itself. -/
def Activity.leaves : Activity → List Leaf
  | .evaluate e => e.leaves
  | .evaluateAll es => Expr.leavesAll es
  | .call .. => []
  | .invoke .. => []
  | .execute s => s.leaves
  | .executeAll ss => Stmt.leavesAll ss
  | .repeatWhile condition body => condition.leaves ++ body.leaves

/-- The lines that an activity was given itself: those of its tokens, or that of the call. -/
def Activity.lines : Activity → List Nat
  | .call _ _ line => [line]
  | task => linesIn task.leaves

theorem linesIn_subset {ls ms : List Leaf} (sub : ls ⊆ ms) : linesIn ls ⊆ linesIn ms :=
  List.filterMap_subset Leaf.line? sub

theorem line_mem_linesIn {kinds : List TokenKind} {t : Token} {ls : List Leaf}
    (h : .token kinds t ∈ ls) : t.line ∈ linesIn ls :=
  List.mem_filterMap.2 ⟨_, h, rfl⟩

/-- What is called is given leaves of the caller, unless it is the body of a function. -/
theorem Calls.leaves_subset {p q : Point} (calls : Calls p q) :
    q.task.leaves ⊆ p.task.leaves ∨ ∃ f values, p.task = .invoke f values ∧
      q.task = .executeAll f.declaration.body := by
  cases calls with
  | body => exact .inr ⟨_, _, rfl, rfl⟩
  | call | function | method | initializer => exact .inl (List.nil_subset _)
  | operand | assigned | readObject | varDecl | returned => exact .inl (List.subset_cons_self _ _)
  | binaryLeft | logicalLeft | callee | setObject | superclass =>
    exact .inl fun leaf h => .tail _ (List.mem_append_left _ h)
  | binaryRight | logicalRight | arguments | setValue =>
    exact .inl fun leaf h => .tail _ (List.mem_append_right _ h)
  | head | ifThenCondition | ifElseCondition | first | condition =>
    exact .inl (List.subset_append_left _ _)
  | tail | ifThen | rest | round => exact .inl (List.subset_append_right _ _)
  | thenBranch => exact .inl fun leaf h => List.mem_append_right _ (List.mem_append_left _ h)
  | elseBranch => exact .inl fun leaf h => List.mem_append_right _ (List.mem_append_right _ h)
  | grouping | expression | print | block | whileLoop | again => exact .inl (List.Subset.refl _)

/-- What is called is given lines of the caller, unless it is the body of a function. -/
theorem Calls.lines_subset {p q : Point} (calls : Calls p q) :
    q.task.lines ⊆ p.task.lines ∨ ∃ f values, p.task = .invoke f values ∧
      q.task = .executeAll f.declaration.body := by
  rcases calls.leaves_subset with sub | body
  · left
    have lines := linesIn_subset sub
    cases calls with
    | call =>
      intro line placed
      rw [List.mem_singleton.1 placed]
      exact line_mem_linesIn List.mem_cons_self
    | function | method | initializer => exact List.nil_subset _
    | _ => exact lines
  · exact .inr body

theorem FunctionDecl.leaves_subset {f : FunctionDecl} {methods : List FunctionDecl}
    (declared : f ∈ methods) : f.leaves ⊆ FunctionDecl.leavesAll methods := by
  induction methods with
  | nil => cases declared
  | cons g methods ih =>
    rcases List.mem_cons.1 declared with rfl | later
    · exact List.subset_append_left _ _
    · exact List.Subset.trans (ih later) (List.subset_append_right _ _)

/-- The lines of texts. -/
def Inventory.lines : Inventory Nat where
  task := Activity.lines
  declaration d := linesIn d.leaves
  calls := Calls.lines_subset
  body d := by
    obtain ⟨name, parameters, body⟩ := d
    apply linesIn_subset
    exact fun leaf h => .tail _ (List.mem_append_right _ h)
  function d := List.Subset.refl _
  method name superclass declared := linesIn_subset fun leaf h =>
    .tail _ (List.mem_append_right _ (FunctionDecl.leaves_subset declared h))
  first s ss := linesIn_subset (List.subset_append_left _ _)
  rest s ss := linesIn_subset (List.subset_append_right _ _)

/-! ## Raising -/

/-- What a run is stopped by is no error, or an error that is raised at a point. -/
def RaisedIn (R : Point → Prop) : Interrupt → Prop
  | .error e => ∃ p, R p ∧ Raises p e
  | _ => True

/-- Whatever is known of points, the errors are raised at some of them. -/
def Invariant.raised {R : Point → Prop} (I : Invariant R) : Invariant R where
  __ := I
  stop := RaisedIn R
  error reached raises := ⟨_, reached, raises⟩
  spent := trivial
  malformed _ _ := trivial

/-- The token that an expression remembers is among its own. -/
theorem Expr.line?_mem (e : Expr) {line : Nat} (h : e.line? = some line) :
    line ∈ linesIn e.leaves := by
  match e with
  | .constant _ => cases h
  | .grouping inner => exact inner.line?_mem h
  | .unary .. | .binary .. | .name .. | .assign .. | .logical .. | .call .. | .get .. | .set ..
  | .this .. | .super .. =>
    cases h
    exact line_mem_linesIn List.mem_cons_self

/-- An error is placed by a line of the text of the point, or by the line of the call that it is;
but the output has no line for what is printed without a token. -/
theorem Raises.line {p : Point} {e : RuntimeError} (h : Raises p e) :
    e.line ∈ p.task.lines ∨
      e = ⟨.outputFull, 0⟩ ∧ ∃ value, p.task = .execute (.print value) ∧ value.line? = none := by
  cases h with
  | call | arity | native => exact .inl (List.mem_singleton_self _)
  | name | assign | this | super | unary | binary | sum | property | get | set | className =>
    exact .inl (line_mem_linesIn List.mem_cons_self)
  | superMethod => exact .inl (line_mem_linesIn (List.mem_cons_of_mem _ List.mem_cons_self))
  | @print fuel value σ =>
    cases found : value.line? with
    | some line => exact .inl (value.line?_mem found)
    | none => exact .inr ⟨rfl, value, rfl, found⟩
  | @superclass fuel name e methods σ =>
    left
    cases found : e.line? with
    | some line =>
      apply linesIn_subset _ (e.line?_mem found)
      exact fun leaf h => .tail _ (List.mem_append_left _ h)
    | none => exact line_mem_linesIn List.mem_cons_self

end ClassScript
