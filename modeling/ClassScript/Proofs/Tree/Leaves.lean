import ClassScript.Proofs.Grammar.Unnumbered
import ClassScript.Proofs.Tree.Operators

set_option autoImplicit false

/-!
# The leaves of a tree

A tree holds tokens, each in a place where tokens of certain kinds stand, and constants.  These are
all that it takes over from the tokens that it was read from; node numbers are not among them.
-/

namespace ClassScript

/-- A part of a tree that has no parts: a token in a place for tokens of the given kinds, or a
constant. -/
inductive Leaf where
  | token (kinds : List TokenKind) (t : Token)
  | constant (c : Constant)

/-- A token in a place for names. -/
abbrev Leaf.name (t : Token) : Leaf := .token [.identifier] t

mutual

/-- All leaves of an expression, its own before those of its parts. -/
def Expr.leaves : Expr → List Leaf
  | .constant value => [.constant value]
  | .unary operator operand => .token [.minus, .bang] operator :: operand.leaves
  | .binary left operator right =>
    .token binaryOperators operator :: (left.leaves ++ right.leaves)
  | .grouping inner => inner.leaves
  | .name _ token => [.name token]
  | .assign _ target value => .name target :: value.leaves
  | .logical left operator right =>
    .token [.kwAnd, .kwOr] operator :: (left.leaves ++ right.leaves)
  | .call callee closing arguments =>
    .token [.rightParen] closing :: (callee.leaves ++ Expr.leavesAll arguments)
  | .get object property => .name property :: object.leaves
  | .set object property value => .name property :: (object.leaves ++ value.leaves)
  | .this _ keyword => [.token [.kwThis] keyword]
  | .super _ keyword method => [.token [.kwSuper] keyword, .name method]

/-- All leaves of expressions. -/
def Expr.leavesAll : List Expr → List Leaf
  | [] => []
  | e :: es => e.leaves ++ Expr.leavesAll es

end

/-- The leaves of a part that may be absent. -/
def Expr.leavesOption : Option Expr → List Leaf
  | some e => e.leaves
  | none => []

mutual

/-- All leaves of a statement. -/
def Stmt.leaves : Stmt → List Leaf
  | .expression value => value.leaves
  | .print value => value.leaves
  | .varDecl name initializer => .name name :: Expr.leavesOption initializer
  | .block body => Stmt.leavesAll body
  | .ifThen condition thenBranch => condition.leaves ++ thenBranch.leaves
  | .ifElse condition thenBranch elseBranch =>
    condition.leaves ++ (thenBranch.leaves ++ elseBranch.leaves)
  | .whileLoop condition body => condition.leaves ++ body.leaves
  | .funDecl declaration => declaration.leaves
  | .returnStmt keyword value => .token [.kwReturn] keyword :: Expr.leavesOption value
  | .classDecl name superclass methods =>
    .name name :: (Expr.leavesOption superclass ++ FunctionDecl.leavesAll methods)

/-- All leaves of statements. -/
def Stmt.leavesAll : List Stmt → List Leaf
  | [] => []
  | s :: ss => s.leaves ++ Stmt.leavesAll ss

/-- All leaves of a declaration: its name, its parameters and those of its body. -/
def FunctionDecl.leaves : FunctionDecl → List Leaf
  | ⟨name, parameters, body⟩ => .name name :: (parameters.map Leaf.name ++ Stmt.leavesAll body)

/-- All leaves of declarations. -/
def FunctionDecl.leavesAll : List FunctionDecl → List Leaf
  | [] => []
  | d :: ds => d.leaves ++ FunctionDecl.leavesAll ds

end

/-! ## Node numbers -/

mutual

@[simp] theorem Expr.leaves_unnumbered (e : Expr) : e.unnumbered.leaves = e.leaves := by
  cases e with
  | constant | name | this | super => rfl
  | unary _ operand => simp [Expr.unnumbered, Expr.leaves, operand.leaves_unnumbered]
  | grouping inner => exact inner.leaves_unnumbered
  | assign _ _ value => simp [Expr.unnumbered, Expr.leaves, value.leaves_unnumbered]
  | get object _ => simp [Expr.unnumbered, Expr.leaves, object.leaves_unnumbered]
  | binary l _ r | logical l _ r | set l _ r =>
    simp [Expr.unnumbered, Expr.leaves, l.leaves_unnumbered, r.leaves_unnumbered]
  | call callee _ arguments =>
    simp [Expr.unnumbered, Expr.leaves, callee.leaves_unnumbered,
      Expr.leavesAll_unnumbered arguments]

theorem Expr.leavesAll_unnumbered (es : List Expr) :
    Expr.leavesAll (Expr.unnumberedAll es) = Expr.leavesAll es := by
  cases es with
  | nil => rfl
  | cons e es =>
    simp [Expr.unnumberedAll, Expr.leavesAll, e.leaves_unnumbered, Expr.leavesAll_unnumbered es]

end

@[simp] theorem Expr.leavesOption_unnumbered (e : Option Expr) :
    Expr.leavesOption (e.map Expr.unnumbered) = Expr.leavesOption e := by
  cases e with
  | none => rfl
  | some e => exact e.leaves_unnumbered

mutual

theorem Stmt.leaves_unnumbered (s : Stmt) : s.unnumbered.leaves = s.leaves := by
  cases s with
  | expression value | print value => exact value.leaves_unnumbered
  | varDecl _ value | returnStmt _ value => simp [Stmt.unnumbered, Stmt.leaves]
  | block body => exact Stmt.leavesAll_unnumbered body
  | ifThen condition body | whileLoop condition body =>
    simp [Stmt.unnumbered, Stmt.leaves, body.leaves_unnumbered]
  | ifElse condition thenBranch elseBranch =>
    simp [Stmt.unnumbered, Stmt.leaves, thenBranch.leaves_unnumbered,
      elseBranch.leaves_unnumbered]
  | funDecl declaration => exact declaration.leaves_unnumbered
  | classDecl _ superclass methods =>
    simp [Stmt.unnumbered, Stmt.leaves, FunctionDecl.leavesAll_unnumbered methods]

theorem Stmt.leavesAll_unnumbered (ss : List Stmt) :
    Stmt.leavesAll (Stmt.unnumberedAll ss) = Stmt.leavesAll ss := by
  cases ss with
  | nil => rfl
  | cons s ss =>
    simp [Stmt.unnumberedAll, Stmt.leavesAll, s.leaves_unnumbered, Stmt.leavesAll_unnumbered ss]

theorem FunctionDecl.leaves_unnumbered (f : FunctionDecl) : f.unnumbered.leaves = f.leaves := by
  obtain ⟨name, parameters, body⟩ := f
  simp [FunctionDecl.unnumbered, FunctionDecl.leaves, Stmt.leavesAll_unnumbered body]

theorem FunctionDecl.leavesAll_unnumbered (fs : List FunctionDecl) :
    FunctionDecl.leavesAll (FunctionDecl.unnumberedAll fs) = FunctionDecl.leavesAll fs := by
  cases fs with
  | nil => rfl
  | cons f fs =>
    simp [FunctionDecl.unnumberedAll, FunctionDecl.leavesAll, f.leaves_unnumbered,
      FunctionDecl.leavesAll_unnumbered fs]

end

/-! ## Where leaves come from -/

/-- The leaf comes from one of the tokens: it is one of them, of a kind that its place is for, or the
value of a literal.  The other constants come from nothing but the rules. -/
def Leaf.From (ts : List Token) : Leaf → Prop
  | .token kinds t => t ∈ ts ∧ t.kind ∈ kinds
  | .constant (.number x) => ∃ t ∈ ts, t.literal = some (.number x)
  | .constant (.text s) => ∃ t ∈ ts, t.literal = some (.text s)
  | .constant .true | .constant .false | .constant .nil => True

theorem Leaf.From.mono {ts us : List Token} {leaf : Leaf} (h : leaf.From ts) (sub : ts ⊆ us) :
    leaf.From us := by
  cases leaf with
  | token kinds t => exact ⟨sub h.1, h.2⟩
  | constant c =>
    cases c with
    | number x | text x =>
      obtain ⟨t, inside, value⟩ := h
      exact ⟨t, sub inside, value⟩
    | true | false | nil => trivial

/-- All leaves come from the tokens. -/
def AllFrom (ts : List Token) (leaves : List Leaf) : Prop :=
  ∀ leaf ∈ leaves, leaf.From ts

namespace AllFrom

variable {ts us : List Token} {leaf : Leaf} {ls ms : List Leaf}

theorem nil : AllFrom ts [] := fun _ h => nomatch h

theorem cons (h : leaf.From ts) (k : AllFrom ts ls) : AllFrom ts (leaf :: ls) :=
  List.forall_mem_cons.2 ⟨h, k⟩

theorem append (h : AllFrom ts ls) (k : AllFrom ts ms) : AllFrom ts (ls ++ ms) :=
  List.forall_mem_append.2 ⟨h, k⟩

theorem mono (h : AllFrom ts ls) (sub : ts ⊆ us) : AllFrom us ls :=
  fun leaf inside => (h leaf inside).mono sub

end AllFrom

end ClassScript
