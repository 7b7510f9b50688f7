import ClassScript.Proofs.Tree.Shaped

set_option autoImplicit false

/-!
# Reading a tree off its shape

From a proper shape, the tree can be built again, but for what no listing shows: the numbers of its
nodes and the lines of its tokens.  The word at the head of a form says what it is a form of; what a
word stands for is seen from its first character and, if that starts a word, from how it is scanned.
Numbers are found in their texts because no two finite numbers have the same one.
-/

namespace ClassScript

/-- The expression but for the numbers of nodes and the lines of tokens. -/
def Expr.bare (e : Expr) : Expr :=
  e.unnumbered.mapTokens Token.unplaced

/-- The statement but for the numbers of nodes and the lines of tokens. -/
def Stmt.bare (s : Stmt) : Stmt :=
  s.unnumbered.mapTokens Token.unplaced

/-- The declaration but for the numbers of nodes and the lines of tokens. -/
def FunctionDecl.bare (d : FunctionDecl) : FunctionDecl :=
  d.unnumbered.mapTokens Token.unplaced

/-! ## Reading shapes -/

open Token

/-- The number that a text is the listing of. -/
noncomputable def Number.ofTreeText (text : String) : Float :=
  Function.invFunOn Number.treeText {x | Number.IsFinite x} text

/-- The expression that a reserved word or a name is the listing of. -/
def Expr.ofToken (t : Token) : Expr :=
  match t.kind with
  | .kwTrue => .constant .true
  | .kwFalse => .constant .false
  | .kwNil => .constant .nil
  | .kwThis => .this 0 t
  | _ => .name 0 t

/-- The expression that a word is the listing of. -/
noncomputable def Expr.ofWord (text : String) : Expr :=
  if text.toList.head?.any isWordStart then .ofToken (ofText text)
  else .constant (.number (Number.ofTreeText text))

/-- The expression with an operator. -/
def Expr.ofOperator (operator : Token) : List Expr → Expr
  | [operand] => .unary operator operand
  | [left, right] =>
    if operator.kind ∈ [.kwAnd, .kwOr] then .logical left operator right
    else .binary left operator right
  | _ => default

/-- The expression that a form is the listing of, by the word at its head and the other parts. -/
def Expr.ofForm (head : String) (parts : List Expr) : Expr :=
  match head, parts with
  | "group", [inner] => .grouping inner
  | "=", [.name _ target, value] => .assign 0 target value
  | "=", [.get object property, value] => .set object property value
  | "call", callee :: arguments => .call callee (ofText ")") arguments
  | ".", [object, .name _ property] => .get object property
  | "super", [.name _ method] => .super 0 (ofText "super") method
  | _, _ => .ofOperator (ofText head) parts

namespace Shape

/-- The text of a word, or of whatever the shape is. -/
def head : List Shape → String
  | [] => ""
  | p :: _ => p.listing

mutual

/-- The expression that the shape is of. -/
noncomputable def expr : Shape → Expr
  | .word text => .ofWord text
  | .form _ parts => .ofForm (head parts) (exprs parts).tail

/-- The expressions that the shapes are of. -/
noncomputable def exprs : List Shape → List Expr
  | [] => []
  | p :: ps => p.expr :: exprs ps

end

/-- The token that a word is the listing of. -/
def token (p : Shape) : Token :=
  ofText p.listing

end Shape

/-- The declaration that a statement consists of. -/
def Stmt.declaration : Stmt → FunctionDecl
  | .funDecl declaration => declaration
  | _ => default

/-- The statement that a form is the listing of, by the word at its head and the other parts, each as
it is and as a statement. -/
noncomputable def Stmt.ofForm (head : String) (parts : List Shape) (statements : List Stmt) : Stmt :=
  match head, parts, statements with
  | ";", [value], _ => .expression value.expr
  | "print", [value], _ => .print value.expr
  | "var", [name], _ => .varDecl name.token none
  | "var", [name, value], _ => .varDecl name.token (some value.expr)
  | "block", _, body => .block body
  | "if", [condition, _], [_, thenBranch] => .ifThen condition.expr thenBranch
  | "if", [condition, _, _], [_, thenBranch, elseBranch] =>
    .ifElse condition.expr thenBranch elseBranch
  | "while", [condition, _], [_, body] => .whileLoop condition.expr body
  | "fun", .form name parameters :: _, _ :: body
  | "method", .form name parameters :: _, _ :: body =>
    .funDecl ⟨ofText name, parameters.map Shape.token, body⟩
  | "return", [], _ => .returnStmt (ofText "return") none
  | "return", [value], _ => .returnStmt (ofText "return") (some value.expr)
  | "class", name :: .word "<" :: superclass :: _, _ :: _ :: _ :: methods =>
    .classDecl name.token (some superclass.expr) (methods.map Stmt.declaration)
  | "class", name :: _, _ :: methods =>
    .classDecl name.token none (methods.map Stmt.declaration)
  | _, _, _ => default

namespace Shape

mutual

/-- The statement that the shape is of. -/
noncomputable def stmt : Shape → Stmt
  | .word _ => default
  | .form _ parts => .ofForm (head parts) parts.tail (stmts parts).tail

/-- The statements that the shapes are of. -/
noncomputable def stmts : List Shape → List Stmt
  | [] => []
  | p :: ps => p.stmt :: stmts ps

end

end Shape

/-! ## Reading words -/

section Words

variable {t : Token} {kinds : List TokenKind}

/-- The token that has a place for one word only is found in that word. -/
theorem Leaf.Readable.ofText {kind : TokenKind} {text : String}
    (h : (Leaf.token [kind] t).Readable) (other : kind ∉ [.identifier, .string, .number])
    (table : ∀ p ∈ symbols ++ keywords, p.2 = kind → p.1 = text) :
    Token.ofText text = t.unplaced := by
  obtain ⟨same, regular⟩ := h
  obtain rfl := List.mem_singleton.1 same
  rw [← table _ (regular.listed other) rfl]
  exact regular.ofText

theorem Expr.ofWord_of_start {text : String} {first : Char} {others : List Char}
    (spelled : text.toList = first :: others) (start : isWordStart first) :
    Expr.ofWord text = .ofToken (Token.ofText text) := by
  unfold Expr.ofWord
  rw [spelled, List.head?_cons, Option.any_some, if_pos start]

theorem Leaf.Readable.ofWord_name (h : (Leaf.name t).Readable) :
    Expr.ofWord t.lexeme = .name 0 t.unplaced := by
  obtain ⟨kind, regular⟩ := h
  obtain ⟨first, others, text, start, -⟩ := regular.name (List.mem_singleton.1 kind)
  have named : t.unplaced.kind = .identifier := List.mem_singleton.1 kind
  rw [Expr.ofWord_of_start text start, regular.ofText, Expr.ofToken, named]

/-- A reserved word is read by its kind. -/
theorem Expr.ofWord_keyword {word : String} {kind : TokenKind} (listed : (word, kind) ∈ keywords) :
    Expr.ofWord word = .ofToken ⟨kind, word, none, 0⟩ := by
  obtain ⟨⟨first, others, text, start, -⟩, -⟩ := mem_keywords listed
  rw [Expr.ofWord_of_start text start, Token.ofText_keyword listed]

theorem Leaf.Readable.ofWord_this (h : (Leaf.token [.kwThis] t).Readable) :
    Expr.ofWord "this" = .this 0 t.unplaced := by
  have listed : ("this", TokenKind.kwThis) ∈ keywords := by decide
  have found : Token.ofText "this" = t.unplaced := h.ofText (by decide) (by decide)
  rw [Expr.ofWord_keyword listed, ← found, Token.ofText_keyword listed]
  rfl

theorem Number.ofTreeText_treeText {x : Float} (h : Number.IsFinite x) :
    Number.ofTreeText (Number.treeText x) = x :=
  Number.treeText_injOn.leftInvOn_invFunOn h

theorem Leaf.Readable.ofWord_constant {c : Constant} (h : (Leaf.constant c).Readable) :
    Expr.ofWord c.listing = .constant c := by
  cases c with
  | true =>
    have listed : ("true", TokenKind.kwTrue) ∈ keywords := by decide
    exact Expr.ofWord_keyword listed
  | false =>
    have listed : ("false", TokenKind.kwFalse) ∈ keywords := by decide
    exact Expr.ofWord_keyword listed
  | nil =>
    have listed : ("nil", TokenKind.kwNil) ∈ keywords := by decide
    exact Expr.ofWord_keyword listed
  | text => exact h.elim
  | number x =>
    obtain ⟨c, cs, text, first, -⟩ := Number.treeText_chars h
    have start : isWordStart c = false := by
      rcases first with digit | rfl
      · exact not_isWordStart_of_isDigit digit
      · rfl
    unfold Expr.ofWord
    rw [Constant.listing, text, List.head?_cons, Option.any_some, start, if_neg Bool.false_ne_true,
      Number.ofTreeText_treeText h]

/-- The kinds of operators. -/
def operators : List TokenKind :=
  [.bang, .kwAnd, .kwOr] ++ binaryOperators

/-- A form with an operator at its head is read as an expression with it. -/
theorem Leaf.Readable.ofForm (h : (Leaf.token kinds t).Readable) (sub : kinds ⊆ operators)
    (parts : List Expr) : Expr.ofForm t.lexeme parts = .ofOperator t.unplaced parts := by
  have others : ∀ k ∈ operators, k ∉ [TokenKind.identifier, .string, .number] := by decide
  have table : ∀ p ∈ symbols ++ keywords, p.2 ∈ operators →
      p.1 ∉ ["group", "=", "call", ".", "super"] := by
    decide
  obtain ⟨kind, regular⟩ := h
  have free := table _ (regular.listed (others _ (sub kind))) (sub kind)
  rw [← regular.ofText]
  generalize t.lexeme = head at free
  unfold Expr.ofForm
  split <;> first | rfl | simp at free

end Words

/-! ## Reading the shapes of trees -/

mutual

theorem Expr.expr_shape (e : Expr) (h : AllReadable e.leaves) : e.shape.expr = e.bare := by
  cases e with
  | constant value => exact Leaf.Readable.ofWord_constant (h _ List.mem_cons_self)
  | name _ t => exact (h _ List.mem_cons_self).ofWord_name
  | this _ keyword => exact (h _ List.mem_cons_self).ofWord_this
  | unary operator operand =>
    obtain ⟨own, inside⟩ := List.forall_mem_cons.1 h
    change Expr.ofForm operator.lexeme [operand.shape.expr] = _
    rw [own.ofForm (by decide), operand.expr_shape inside]
    rfl
  | binary left operator right =>
    obtain ⟨own, inside⟩ := List.forall_mem_cons.1 h
    obtain ⟨first, second⟩ := List.forall_mem_append.1 inside
    have table : ∀ k ∈ binaryOperators, k ∉ [TokenKind.kwAnd, .kwOr] := by decide
    have eager : operator.unplaced.kind ∉ [TokenKind.kwAnd, .kwOr] := table _ own.1
    change Expr.ofForm operator.lexeme [left.shape.expr, right.shape.expr] = _
    rw [own.ofForm (by decide), left.expr_shape first, right.expr_shape second,
      Expr.ofOperator, if_neg eager]
    rfl
  | logical left operator right =>
    obtain ⟨own, inside⟩ := List.forall_mem_cons.1 h
    obtain ⟨first, second⟩ := List.forall_mem_append.1 inside
    have lazy : operator.unplaced.kind ∈ [TokenKind.kwAnd, .kwOr] := own.1
    change Expr.ofForm operator.lexeme [left.shape.expr, right.shape.expr] = _
    rw [own.ofForm (by decide), left.expr_shape first, right.expr_shape second, Expr.ofOperator,
      if_pos lazy]
    rfl
  | grouping inner =>
    change Expr.ofForm "group" [inner.shape.expr] = _
    rw [inner.expr_shape h]
    rfl
  | assign _ target value =>
    obtain ⟨own, inside⟩ := List.forall_mem_cons.1 h
    change Expr.ofForm "=" [.ofWord target.lexeme, value.shape.expr] = _
    rw [own.ofWord_name, value.expr_shape inside]
    rfl
  | call callee closing arguments =>
    obtain ⟨own, inside⟩ := List.forall_mem_cons.1 h
    obtain ⟨first, others⟩ := List.forall_mem_append.1 inside
    change Expr.ofForm "call" (callee.shape.expr :: Shape.exprs (Expr.shapes arguments)) = _
    rw [callee.expr_shape first, Expr.exprs_shapes arguments others]
    change Expr.call _ (Token.ofText ")") _ = _
    rw [own.ofText (by decide) (by decide)]
    rfl
  | get object property =>
    obtain ⟨own, inside⟩ := List.forall_mem_cons.1 h
    change Expr.ofForm "." [object.shape.expr, .ofWord property.lexeme] = _
    rw [own.ofWord_name, object.expr_shape inside]
    rfl
  | set object property value =>
    obtain ⟨own, inside⟩ := List.forall_mem_cons.1 h
    obtain ⟨first, second⟩ := List.forall_mem_append.1 inside
    change Expr.ofForm "=" [.ofForm "." [object.shape.expr, .ofWord property.lexeme],
      value.shape.expr] = _
    rw [own.ofWord_name, object.expr_shape first, value.expr_shape second]
    rfl
  | super _ keyword method =>
    obtain ⟨own, inside⟩ := List.forall_mem_cons.1 h
    change Expr.ofForm "super" [.ofWord method.lexeme] = _
    rw [(inside _ List.mem_cons_self).ofWord_name]
    change Expr.super 0 (Token.ofText "super") _ = _
    rw [own.ofText (by decide) (by decide)]
    rfl

theorem Expr.exprs_shapes (es : List Expr) (h : AllReadable (Expr.leavesAll es)) :
    Shape.exprs (Expr.shapes es) = Expr.mapTokensAll Token.unplaced (Expr.unnumberedAll es) := by
  cases es with
  | nil => rfl
  | cons e es =>
    obtain ⟨first, others⟩ := List.forall_mem_append.1 h
    rw [Expr.shapes, Shape.exprs, e.expr_shape first, Expr.exprs_shapes es others]
    rfl

end

/-- Names of parameters are read one by one. -/
theorem Shape.token_names {ts : List Token} (h : AllReadable (ts.map Leaf.name)) :
    (ts.map fun t => Shape.word t.lexeme).map Shape.token = ts.map Token.unplaced := by
  rw [List.map_map]
  apply List.map_congr_left
  intro t inside
  exact (h _ (List.mem_map_of_mem inside)).2.ofText

mutual

theorem Stmt.stmt_shape (s : Stmt) (h : AllReadable s.leaves) : s.shape.stmt = s.bare := by
  cases s with
  | expression value =>
    change Stmt.expression value.shape.expr = _
    rw [value.expr_shape h]
    rfl
  | print value =>
    change Stmt.print value.shape.expr = _
    rw [value.expr_shape h]
    rfl
  | varDecl name value =>
    obtain ⟨own, inside⟩ := List.forall_mem_cons.1 h
    cases value with
    | none =>
      change Stmt.varDecl (Token.ofText name.lexeme) none = _
      rw [own.2.ofText]
      rfl
    | some value =>
      change Stmt.varDecl (Token.ofText name.lexeme) (some value.shape.expr) = _
      rw [own.2.ofText, value.expr_shape inside]
      rfl
  | block body =>
    change Stmt.block (Shape.stmts (Stmt.shapes body)) = _
    rw [Stmt.stmts_shapes body h]
    rfl
  | ifThen condition thenBranch =>
    obtain ⟨first, second⟩ := List.forall_mem_append.1 h
    change Stmt.ifThen condition.shape.expr thenBranch.shape.stmt = _
    rw [condition.expr_shape first, thenBranch.stmt_shape second]
    rfl
  | ifElse condition thenBranch elseBranch =>
    obtain ⟨first, branches⟩ := List.forall_mem_append.1 h
    obtain ⟨second, third⟩ := List.forall_mem_append.1 branches
    change Stmt.ifElse condition.shape.expr thenBranch.shape.stmt elseBranch.shape.stmt = _
    rw [condition.expr_shape first, thenBranch.stmt_shape second, elseBranch.stmt_shape third]
    rfl
  | whileLoop condition body =>
    obtain ⟨first, second⟩ := List.forall_mem_append.1 h
    change Stmt.whileLoop condition.shape.expr body.shape.stmt = _
    rw [condition.expr_shape first, body.stmt_shape second]
    rfl
  | funDecl declaration => exact declaration.stmt_shape (by simp) h
  | returnStmt keyword value =>
    obtain ⟨own, inside⟩ := List.forall_mem_cons.1 h
    have word : Token.ofText "return" = keyword.unplaced := own.ofText (by decide) (by decide)
    cases value with
    | none =>
      change Stmt.returnStmt (Token.ofText "return") none = _
      rw [word]
      rfl
    | some value =>
      change Stmt.returnStmt (Token.ofText "return") (some value.shape.expr) = _
      rw [word, value.expr_shape inside]
      rfl
  | classDecl name superclass methods =>
    obtain ⟨own, inside⟩ := List.forall_mem_cons.1 h
    obtain ⟨above, declared⟩ := List.forall_mem_append.1 inside
    have methods' := FunctionDecl.stmts_shapes methods declared
    cases superclass with
    | none =>
      have read : (Stmt.classDecl name none methods).shape.stmt =
          .classDecl (Token.ofText name.lexeme) none
            ((Shape.stmts (FunctionDecl.shapes methods)).map Stmt.declaration) := by
        rcases methods with _ | ⟨⟨_, _, _⟩, _⟩ <;> rfl
      rw [read, own.2.ofText, methods']
      rfl
    | some superclass =>
      change Stmt.classDecl (Token.ofText name.lexeme) (some superclass.shape.expr)
        ((Shape.stmts (FunctionDecl.shapes methods)).map Stmt.declaration) = _
      rw [own.2.ofText, superclass.expr_shape above, methods']
      rfl

theorem Stmt.stmts_shapes (ss : List Stmt) (h : AllReadable (Stmt.leavesAll ss)) :
    Shape.stmts (Stmt.shapes ss) = Stmt.mapTokensAll Token.unplaced (Stmt.unnumberedAll ss) := by
  cases ss with
  | nil => rfl
  | cons s ss =>
    obtain ⟨first, others⟩ := List.forall_mem_append.1 h
    rw [Stmt.shapes, Shape.stmts, s.stmt_shape first, Stmt.stmts_shapes ss others]
    rfl

theorem FunctionDecl.stmt_shape (d : FunctionDecl) {head : String} (listed : head ∈ ["fun", "method"])
    (h : AllReadable d.leaves) : (d.shape head).stmt = .funDecl d.bare := by
  obtain ⟨name, parameters, body⟩ := d
  obtain ⟨own, inside⟩ := List.forall_mem_cons.1 h
  obtain ⟨names, statements⟩ := List.forall_mem_append.1 inside
  have read : (FunctionDecl.shape ⟨name, parameters, body⟩ head).stmt =
      .funDecl ⟨Token.ofText name.lexeme,
        (parameters.map fun p => Shape.word p.lexeme).map Shape.token,
        Shape.stmts (Stmt.shapes body)⟩ := by
    rcases List.mem_pair.1 listed with rfl | rfl <;> rfl
  rw [read, own.2.ofText, Shape.token_names names, Stmt.stmts_shapes body statements]
  rfl

theorem FunctionDecl.stmts_shapes (ds : List FunctionDecl)
    (h : AllReadable (FunctionDecl.leavesAll ds)) :
    (Shape.stmts (FunctionDecl.shapes ds)).map Stmt.declaration =
      FunctionDecl.mapTokensAll Token.unplaced (FunctionDecl.unnumberedAll ds) := by
  cases ds with
  | nil => rfl
  | cons d ds =>
    obtain ⟨first, others⟩ := List.forall_mem_append.1 h
    rw [FunctionDecl.shapes, Shape.stmts, d.stmt_shape (by simp) first, List.map_cons,
      FunctionDecl.stmts_shapes ds others]
    rfl

end

/-- A listing has the statements of one program at most, but for the numbers of nodes and the lines
of tokens. -/
theorem Stmt.eq_of_listings {ss ts : List Stmt} (hss : AllReadable (Stmt.leavesAll ss))
    (hts : AllReadable (Stmt.leavesAll ts)) (same : Stmt.listings ss = Stmt.listings ts) :
    Stmt.mapTokensAll Token.unplaced (Stmt.unnumberedAll ss) =
      Stmt.mapTokensAll Token.unplaced (Stmt.unnumberedAll ts) := by
  rw [← Stmt.listings_shapes, ← Stmt.listings_shapes] at same
  have shapes : Stmt.shapes ss = Stmt.shapes ts :=
    Shape.AllProper.eq_of_listings (Stmt.proper_shapes ss hss) (Stmt.proper_shapes ts hts) same
  rw [← Stmt.stmts_shapes ss hss, ← Stmt.stmts_shapes ts hts, shapes]

end ClassScript
