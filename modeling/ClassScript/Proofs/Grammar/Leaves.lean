import ClassScript.Proofs.Grammar.Joining
import ClassScript.Proofs.Tree.Leaves

set_option autoImplicit false

/-!
# Leaves of trees that are read

Every leaf of a tree that the rules give is one of the tokens of the phrase, of a kind that its place
is for, or the value of one of its literals.  The tree of a `for` loop is written with the other
statements; its parts keep their leaves, and a missing condition adds a constant.
-/

namespace ClassScript

theorem AllFrom.forLoop {ts : List Token} {initializer : Option Stmt}
    {condition increment : Option Expr} {body : Stmt}
    (hfirst : AllFrom ts (Stmt.leavesAll initializer.toList))
    (hcondition : AllFrom ts (Expr.leavesOption condition))
    (hincrement : AllFrom ts (Expr.leavesOption increment)) (hbody : AllFrom ts body.leaves) :
    AllFrom ts (Stmt.forLoop initializer condition increment body).leaves := by
  have tested : AllFrom ts (condition.getD (.constant .true)).leaves := by
    cases condition with
    | none => exact .cons trivial .nil
    | some e => exact hcondition
  have loop : ∀ round : Stmt, AllFrom ts round.leaves →
      AllFrom ts (Stmt.whileLoop (condition.getD (.constant .true)) round).leaves :=
    fun _ hround => tested.append hround
  have rounds : ∀ step, increment = some step →
      AllFrom ts (Stmt.block [body, .expression step]).leaves := by
    intro step found
    rw [found] at hincrement
    exact hbody.append (.append hincrement .nil)
  cases initializer with
  | none =>
    cases increment with
    | none => exact loop _ hbody
    | some step => exact loop _ (rounds step rfl)
  | some first =>
    have hfirst : AllFrom ts first.leaves := fun leaf h => hfirst leaf (List.mem_append_left _ h)
    cases increment with
    | none => exact hfirst.append (.append (loop _ hbody) .nil)
    | some step => exact hfirst.append (.append (loop _ (rounds step rfl)) .nil)

namespace Grammar

/-- The leaves of the tree of a phrase. -/
def Phrase.leaves : (p : Phrase) → p.Yield → List Leaf
  | program | declarations | block => Stmt.leavesAll
  | declaration | varDecl | statement _ | exprStmt => Stmt.leaves
  | forFirst => fun s => Stmt.leavesAll s.toList
  | superclass | initializer | optional => Expr.leavesOption
  | methods => FunctionDecl.leavesAll
  | function => FunctionDecl.leaves
  | parameters => List.map Leaf.name
  | arguments => Expr.leavesAll
  | expression | assignment | logicOr | logicAnd | equality | comparison | term | factor | unary
  | call | primary => Expr.leaves

/-- A token of a phrase that stands in a place for its kind. -/
theorem from_token {ts : List Token} {kinds : List TokenKind} {t : Token} (inside : t ∈ ts)
    (kind : t.kind ∈ kinds) : (Leaf.token kinds t).From ts :=
  ⟨inside, kind⟩

theorem from_name {ts : List Token} {t : Token} (inside : t ∈ ts) (kind : t.kind = .identifier) :
    (Leaf.name t).From ts :=
  ⟨inside, List.mem_singleton.2 kind⟩

section Operator

variable {ts us : List Token} {op : Token} {ls ms : List Leaf}

/-- An operator between two phrases, and the leaves of both. -/
theorem from_infix (hl : AllFrom ts ls) (hr : AllFrom us ms) {kinds : List TokenKind}
    (kind : op.kind ∈ kinds) :
    AllFrom (ts ++ op :: us) (.token kinds op :: (ls ++ ms)) := by
  have left := hl.mono (List.subset_append_left ts (op :: us))
  have right := hr.mono (List.subset_append_of_subset_right ts (List.subset_cons_self op us))
  exact .cons (from_token (by simp) kind) (left.append right)

/-- The ten operators are those of four rules. -/
theorem from_binary (hl : AllFrom ts ls) (hr : AllFrom us ms) {kinds : List TokenKind}
    (among : ∀ k ∈ kinds, k ∈ binaryOperators) (kind : op.kind ∈ kinds) :
    AllFrom (ts ++ op :: us) (.token binaryOperators op :: (ls ++ ms)) :=
  from_infix hl hr (among _ kind)

end Operator

/-- Each rule makes its tree from the tokens of the phrase. -/
theorem Derives.leaves {d : Dialect} {p : Phrase} {ts : List Token} {y : p.Yield}
    (h : Derives d p ts y) : AllFrom ts (p.leaves y) := by
  induction h with
  | statement _ ih | expressionStatement _ ih | blockStatement _ ih | varDeclaration _ ih
  | optionalSome _ ih | expression _ ih | assignNothing _ ih | logicOrFirst _ ih
  | logicAndFirst _ ih | equalityFirst _ ih | comparisonFirst _ ih | termFirst _ ih
  | factorFirst _ ih | unaryCall _ ih | callFirst _ ih => exact ih
  | noDeclaration | noSuperclass | noMethod | noInitializer | optionalNone | forNothing => exact .nil
  | forVariable _ ih | forExpression _ ih | lastArgument _ ih => exact ih.append .nil
  | program _ _ ih | exprStmt _ _ ih => exact ih.mono (List.subset_append_left ..)
  | moreDeclarations _ _ ih ihs | moreMethods _ _ ih ihs =>
    exact (ih.mono (List.subset_append_left ..)).append (ihs.mono (List.subset_append_right ..))
  | initializer _ _ ih | funDecl _ _ ih => exact ih.mono (List.subset_cons_self ..)
  | classDecl _ hname _ _ _ _ ihsuper ih =>
    exact .cons (from_name (by simp) hname)
      ((ihsuper.mono fun t ht => by simp [ht]).append (ih.mono fun t ht => by simp [ht]))
  | superclass _ hname => exact .cons (from_name (by simp) hname) .nil
  | functionNone hname _ _ _ ih =>
    exact .cons (from_name (by simp) hname) (.append .nil (ih.mono fun t ht => by simp [ht]))
  | functionSome hname _ _ _ _ _ ihparams ih =>
    exact .cons (from_name (by simp) hname)
      ((ihparams.mono fun t ht => by simp [ht]).append (ih.mono fun t ht => by simp [ht]))
  | lastParameter hname => exact .cons (from_name (by simp) hname) .nil
  | moreParameters hname _ _ ih =>
    exact .cons (from_name (by simp) hname) (ih.mono fun t ht => by simp [ht])
  | varDecl _ hname _ _ ih =>
    exact .cons (from_name (by simp) hname) (ih.mono fun t ht => by simp [ht])
  | returnStmt hkeyword _ _ ih =>
    exact .cons (from_token (by simp) (List.mem_singleton.2 hkeyword))
      (ih.mono fun t ht => by simp [ht])
  | printStmt _ _ _ ih | block _ _ _ ih | grouping _ _ _ ih =>
    exact ih.mono fun t ht => by simp [ht]
  | forStmt _ _ _ _ _ _ _ _ ihfirst ihcondition ihincrement ih =>
    exact .forLoop (ihfirst.mono fun t ht => by simp [ht]) (ihcondition.mono fun t ht => by simp [ht])
      (ihincrement.mono fun t ht => by simp [ht]) (ih.mono fun t ht => by simp [ht])
  | ifThen _ _ _ _ _ ihcondition ih | whileStmt _ _ _ _ _ ihcondition ih =>
    exact (ihcondition.mono fun t ht => by simp [ht]).append (ih.mono fun t ht => by simp [ht])
  | ifElse _ _ _ _ _ _ _ _ ihcondition ihthen ihelse =>
    exact (ihcondition.mono fun t ht => by simp [ht]).append
      ((ihthen.mono fun t ht => by simp [ht]).append (ihelse.mono fun t ht => by simp [ht]))
  | assignName hname _ _ ih =>
    exact .cons (from_name (by simp) hname) (ih.mono fun t ht => by simp [ht])
  | assignProperty _ _ hname _ _ ihobject ih =>
    exact .cons (from_name (by simp) hname)
      ((ihobject.mono fun t ht => by simp [ht]).append (ih.mono fun t ht => by simp [ht]))
  | assignOther _ _ _ _ _ ih _ => exact ih.mono (List.subset_append_left ..)
  | logicOrMore _ hop _ ihl ihr => exact from_infix ihl ihr (by simp [hop])
  | logicAndMore _ hop _ ihl ihr => exact from_infix ihl ihr (by simp [hop])
  | equalityMore _ hop _ ihl ihr | comparisonMore _ hop _ ihl ihr | termMore _ hop _ ihl ihr
  | factorMore _ hop _ ihl ihr => exact from_binary ihl ihr (by decide) hop
  | unaryOperator hop _ ih =>
    exact .cons (from_token (by simp) (List.mem_pair.2 (List.mem_pair.1 hop).symm))
      (ih.mono (List.subset_cons_self ..))
  | callNone _ _ hclosing ih =>
    exact .cons (from_token (by simp) (List.mem_singleton.2 hclosing))
      ((ih.mono (List.subset_append_left ..)).append .nil)
  | callSome _ _ _ _ hclosing ih ihs =>
    exact .cons (from_token (by simp) (List.mem_singleton.2 hclosing))
      ((ih.mono fun t ht => by simp [ht]).append (ihs.mono fun t ht => by simp [ht]))
  | callProperty _ _ hname ih =>
    exact .cons (from_name (by simp) hname) (ih.mono (List.subset_append_left ..))
  | moreArguments _ _ _ ih ihs =>
    exact (ih.mono fun t ht => by simp [ht]).append (ihs.mono fun t ht => by simp [ht])
  | @literal t value _ hvalue =>
    cases value with
    | text | number => exact .cons ⟨t, by simp, hvalue⟩ .nil
  | true | false | nil => exact .cons trivial .nil
  | this hkeyword => exact .cons (from_token (by simp) (List.mem_singleton.2 hkeyword)) .nil
  | name hname => exact .cons (from_name (by simp) hname) .nil
  | super hkeyword _ hmethod =>
    exact .cons (from_token (by simp) (List.mem_singleton.2 hkeyword))
      (.cons (from_name (by simp) hmethod) .nil)

end Grammar

open Grammar

/-- A program that is read from a source has all its leaves from the tokens of the source; the
closing one is not among them. -/
theorem parse_leaves {source : String} {firstId : Nat} {program : List Stmt}
    (h : (parse (tokensOf (scan source)) firstId).outcome = .program program) :
    AllFrom (bodyOf source) (Stmt.leavesAll program) := by
  have derived := derives_of_parse (d := .settled) (closedOnce_scan source) h
  rw [tokensOf_scan] at derived
  have leaves := (declarations_of_program derived).leaves
  change AllFrom (bodyOf source) (Stmt.leavesAll (Stmt.unnumberedAll program)) at leaves
  rwa [Stmt.leavesAll_unnumbered] at leaves

end ClassScript
