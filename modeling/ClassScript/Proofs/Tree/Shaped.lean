import ClassScript.Proofs.Decimal.Text
import ClassScript.Proofs.Token.Words
import ClassScript.Proofs.Tree.Leaves
import ClassScript.Proofs.Tree.Shapes

set_option autoImplicit false

/-!
# The shapes of trees

The listing of a tree is that of a shape, in which a superclass is a part of its own behind the word
for it, and the parameters of a function are the parts of a form that the name is the label of.  If
the leaves are those of a source that has only finite numbers and no strings, then the shape is
proper.
-/

namespace ClassScript

/-! ## Shapes of trees -/

mutual

/-- The shape of an expression: a word, or a form whose first part says what it is. -/
def Expr.shape : Expr → Shape
  | .constant value => .word value.listing
  | .unary operator operand => .form "" [.word operator.lexeme, operand.shape]
  | .binary left operator right => .form "" [.word operator.lexeme, left.shape, right.shape]
  | .grouping inner => .form "" [.word "group", inner.shape]
  | .name _ token => .word token.lexeme
  | .assign _ target value => .form "" [.word "=", .word target.lexeme, value.shape]
  | .logical left operator right => .form "" [.word operator.lexeme, left.shape, right.shape]
  | .call callee _ arguments => .form "" (.word "call" :: callee.shape :: Expr.shapes arguments)
  | .get object property => .form "" [.word ".", object.shape, .word property.lexeme]
  | .set object property value =>
    .form "" [.word "=", .form "" [.word ".", object.shape, .word property.lexeme], value.shape]
  | .this _ _ => .word "this"
  | .super _ _ method => .form "" [.word "super", .word method.lexeme]

/-- The shapes of expressions. -/
def Expr.shapes : List Expr → List Shape
  | [] => []
  | e :: es => e.shape :: Expr.shapes es

end

/-- The parts for what may be absent. -/
def Expr.shapeOption (e : Option Expr) : List Shape :=
  (e.map Expr.shape).toList

mutual

/-- The shape of a statement. -/
def Stmt.shape : Stmt → Shape
  | .expression value => .form "" [.word ";", value.shape]
  | .print value => .form "" [.word "print", value.shape]
  | .varDecl name initializer =>
    .form "" (.word "var" :: .word name.lexeme :: Expr.shapeOption initializer)
  | .block body => .form "" (.word "block" :: Stmt.shapes body)
  | .ifThen condition thenBranch => .form "" [.word "if", condition.shape, thenBranch.shape]
  | .ifElse condition thenBranch elseBranch =>
    .form "" [.word "if", condition.shape, thenBranch.shape, elseBranch.shape]
  | .whileLoop condition body => .form "" [.word "while", condition.shape, body.shape]
  | .funDecl declaration => declaration.shape "fun"
  | .returnStmt _ value => .form "" (.word "return" :: Expr.shapeOption value)
  | .classDecl name none methods =>
    .form "" (.word "class" :: .word name.lexeme :: FunctionDecl.shapes methods)
  | .classDecl name (some superclass) methods =>
    .form "" (.word "class" :: .word name.lexeme :: .word "<" :: superclass.shape ::
      FunctionDecl.shapes methods)

/-- The shapes of statements. -/
def Stmt.shapes : List Stmt → List Shape
  | [] => []
  | s :: ss => s.shape :: Stmt.shapes ss

/-- The shape of a declaration, under a head that tells functions and methods apart. -/
def FunctionDecl.shape : FunctionDecl → String → Shape
  | ⟨name, parameters, body⟩, head =>
    .form "" (.word head :: .form name.lexeme (parameters.map fun p => .word p.lexeme) ::
      Stmt.shapes body)

/-- The shapes of methods. -/
def FunctionDecl.shapes : List FunctionDecl → List Shape
  | [] => []
  | d :: ds => d.shape "method" :: FunctionDecl.shapes ds

end

/-! ## Listings of shapes -/

/-- Two words with a blank between them are as good as one with a blank inside. -/
theorem form_split (first second x y : String) (ps : List String) :
    form (first :: second :: (x ++ " " ++ y) :: ps) = form (first :: second :: x :: y :: ps) := by
  unfold form
  cases ps <;> simp [String.intercalate_cons_cons, String.append_assoc]

mutual

theorem Expr.listing_shape (e : Expr) : e.shape.listing = e.listing := by
  cases e with
  | constant | name | this => rfl
  | unary _ e | grouping e | assign _ _ e | get e =>
    simp [Expr.shape, Shape.listing, Shape.listings, Expr.listing, e.listing_shape]
  | binary l _ r | logical l _ r | set l _ r =>
    simp [Expr.shape, Shape.listing, Shape.listings, Expr.listing, l.listing_shape, r.listing_shape]
  | call callee _ arguments =>
    simp [Expr.shape, Shape.listing, Shape.listings, Expr.listing, callee.listing_shape,
      Expr.listings_shapes arguments]
  | super => simp [Expr.shape, Shape.listing, Shape.listings, Expr.listing]

theorem Expr.listings_shapes (es : List Expr) :
    Shape.listings (Expr.shapes es) = Expr.listings es := by
  cases es with
  | nil => rfl
  | cons e es => rw [Expr.shapes, Shape.listings, e.listing_shape, Expr.listings_shapes es, Expr.listings]

end

theorem Expr.listings_shapeOption (e : Option Expr) :
    Shape.listings (Expr.shapeOption e) = (e.map Expr.listing).toList := by
  cases e with
  | none => rfl
  | some e => simp [Expr.shapeOption, Shape.listings, e.listing_shape]

mutual

theorem Stmt.listing_shape (s : Stmt) : s.shape.listing = s.listing := by
  cases s with
  | expression value | print value =>
    simp [Stmt.shape, Shape.listing, Shape.listings, Stmt.listing, value.listing_shape]
  | varDecl _ value | returnStmt _ value =>
    simp [Stmt.shape, Shape.listing, Shape.listings, Stmt.listing, Expr.listings_shapeOption]
  | block body =>
    simp [Stmt.shape, Shape.listing, Shape.listings, Stmt.listing, Stmt.listings_shapes body]
  | ifThen condition body | whileLoop condition body =>
    simp [Stmt.shape, Shape.listing, Shape.listings, Stmt.listing, condition.listing_shape,
      body.listing_shape]
  | ifElse condition thenBranch elseBranch =>
    simp [Stmt.shape, Shape.listing, Shape.listings, Stmt.listing, condition.listing_shape,
      thenBranch.listing_shape, elseBranch.listing_shape]
  | funDecl declaration => exact declaration.listing_shape "fun"
  | classDecl name superclass methods =>
    cases superclass with
    | none =>
      simp [Stmt.shape, Shape.listing, Shape.listings, Stmt.listing,
        FunctionDecl.listings_shapes methods]
    | some superclass =>
      have split := form_split "class" name.lexeme "<" superclass.listing
        (FunctionDecl.listings methods)
      simpa [Stmt.shape, Shape.listing, Shape.listings, Stmt.listing, superclass.listing_shape,
        FunctionDecl.listings_shapes methods] using split.symm

theorem Stmt.listings_shapes (ss : List Stmt) :
    Shape.listings (Stmt.shapes ss) = Stmt.listings ss := by
  cases ss with
  | nil => rfl
  | cons s ss => rw [Stmt.shapes, Shape.listings, s.listing_shape, Stmt.listings_shapes ss, Stmt.listings]

theorem FunctionDecl.listing_shape (d : FunctionDecl) (head : String) :
    (d.shape head).listing = d.listing head := by
  obtain ⟨name, parameters, body⟩ := d
  have names : Shape.listings (parameters.map fun p => .word p.lexeme) =
      parameters.map Token.lexeme := by
    rw [Shape.listings_eq_map, List.map_map]
    rfl
  have signature : name.lexeme ++ form (parameters.map Token.lexeme) =
      name.lexeme ++ "(" ++ " ".intercalate (parameters.map Token.lexeme) ++ ")" := by
    simp [form, String.append_assoc]
  simp [FunctionDecl.shape, Shape.listing, Shape.listings, FunctionDecl.listing, names, signature,
    Stmt.listings_shapes body]

theorem FunctionDecl.listings_shapes (ds : List FunctionDecl) :
    Shape.listings (FunctionDecl.shapes ds) = FunctionDecl.listings ds := by
  cases ds with
  | nil => rfl
  | cons d ds =>
    rw [FunctionDecl.shapes, Shape.listings, d.listing_shape, FunctionDecl.listings_shapes ds,
      FunctionDecl.listings]

end

/-! ## Leaves that can be read again -/

/-- The leaf is of a source with finite numbers and without strings. -/
def Leaf.Readable : Leaf → Prop
  | .token kinds t => t.kind ∈ kinds ∧ t.Regular
  | .constant (.number x) => Number.IsFinite x
  | .constant (.text _) => False
  | .constant .true | .constant .false | .constant .nil => True

/-- All leaves are. -/
def AllReadable (leaves : List Leaf) : Prop :=
  ∀ leaf ∈ leaves, leaf.Readable

theorem isPlain_of_ne {c : Char} (blank : c ≠ ' ') (opening : c ≠ '(') (closing : c ≠ ')') :
    isPlain c := by
  simp [isPlain, blank, opening, closing]

theorem isPlain_of_isWordChar {c : Char} (h : isWordChar c) : isPlain c := by
  apply isPlain_of_ne <;> rintro rfl <;> exact absurd h (by decide)

theorem isPlain_of_isDigit {c : Char} (h : c.isDigit) : isPlain c := by
  apply isPlain_of_ne <;> rintro rfl <;> exact absurd h (by decide)

namespace Shape

/-- A word is proper if its characters are plain, which can be decided. -/
theorem Proper.word {text : String} (h : text.toList ≠ [] ∧ text.toList.all isPlain) :
    (Shape.word text).Proper :=
  ⟨h.1, List.all_eq_true.1 h.2⟩

/-- A form with a word at its head is proper if its parts are. -/
theorem Proper.form {text : String} {ps : List Shape} (head : (Shape.word text).Proper)
    (h : AllProper ps) : (Shape.form "" (.word text :: ps)).Proper :=
  ⟨nofun, head, h⟩

theorem Proper.of_name {t : Token} (h : (Leaf.name t).Readable) : (Shape.word t.lexeme).Proper := by
  obtain ⟨kind, regular⟩ := h
  obtain ⟨first, others, text, start, all⟩ := regular.name (List.mem_singleton.1 kind)
  rw [Proper, text]
  refine ⟨List.cons_ne_nil _ _, List.forall_mem_cons.2 ⟨?_, fun c inside => ?_⟩⟩
  · exact isPlain_of_isWordChar (isWordChar_of_isWordStart start)
  · exact isPlain_of_isWordChar (all c inside)

theorem AllProper.of_names {ts : List Token} (h : AllReadable (ts.map Leaf.name)) :
    AllProper (ts.map fun t => Shape.word t.lexeme) := by
  induction ts with
  | nil => trivial
  | cons t ts ih =>
    obtain ⟨first, others⟩ := List.forall_mem_cons.1 h
    exact ⟨.of_name first, ih others⟩

/-- The texts of operators are proper. -/
theorem Proper.of_operator {kinds : List TokenKind} {t : Token}
    (h : (Leaf.token kinds t).Readable)
    (fixed : ∀ k ∈ kinds, k ∉ [TokenKind.identifier, .string, .number, .leftParen, .rightParen]) :
    (Shape.word t.lexeme).Proper := by
  obtain ⟨kind, regular⟩ := h
  have plain : ∀ p ∈ symbols ++ keywords, p.2 ≠ .leftParen → p.2 ≠ .rightParen →
      p.1.toList ≠ [] ∧ p.1.toList.all isPlain := by
    decide +kernel
  have free := fixed _ kind
  simp only [List.mem_cons, List.not_mem_nil, or_false, not_or] at free
  obtain ⟨name, string, number, opening, closing⟩ := free
  exact .word (plain _ (regular.listed (by simp [name, string, number])) opening closing)

theorem Proper.of_constant {c : Constant} (h : (Leaf.constant c).Readable) :
    (Shape.word c.listing).Proper := by
  cases c with
  | true | false | nil => exact .word (by decide +kernel)
  | text => exact h.elim
  | number x =>
    obtain ⟨c, cs, text, first, all⟩ := Number.treeText_chars h
    rw [Constant.listing, Proper, text]
    refine ⟨List.cons_ne_nil _ _, List.forall_mem_cons.2 ⟨?_, fun d inside => ?_⟩⟩
    · rcases first with digit | rfl
      · exact isPlain_of_isDigit digit
      · rfl
    · rcases all d inside with digit | rfl
      · exact isPlain_of_isDigit digit
      · rfl

end Shape

/-! ## Trees have proper shapes -/

/-- The words that the listing itself puts in are proper. -/
theorem Shape.Proper.keyword {text : String} (listed : text ∈ ["group", "=", "call", ".", "this",
    "super", ";", "print", "var", "block", "if", "while", "return", "class", "<", "fun", "method"]) :
    (Shape.word text).Proper := by
  have plain : ∀ text ∈ ["group", "=", "call", ".", "this", "super", ";", "print", "var", "block",
      "if", "while", "return", "class", "<", "fun", "method"],
      text.toList ≠ [] ∧ text.toList.all isPlain := by
    decide +kernel
  exact .word (plain text listed)

mutual

theorem Expr.proper_shape (e : Expr) (h : AllReadable e.leaves) : e.shape.Proper := by
  cases e with
  | constant value => exact .of_constant (h _ List.mem_cons_self)
  | name _ t => exact .of_name (h _ List.mem_cons_self)
  | this => exact .keyword (by simp)
  | unary operator operand =>
    obtain ⟨own, inside⟩ := List.forall_mem_cons.1 h
    exact .form (.of_operator own (by decide))
      ⟨operand.proper_shape inside, trivial⟩
  | binary left operator right | logical left operator right =>
    obtain ⟨own, inside⟩ := List.forall_mem_cons.1 h
    obtain ⟨first, second⟩ := List.forall_mem_append.1 inside
    exact .form (.of_operator own (by decide))
      ⟨left.proper_shape first, right.proper_shape second, trivial⟩
  | grouping inner => exact .form (.keyword (by simp)) ⟨inner.proper_shape h, trivial⟩
  | assign _ target value =>
    obtain ⟨own, inside⟩ := List.forall_mem_cons.1 h
    exact .form (.keyword (by simp))
      ⟨.of_name own, value.proper_shape inside, trivial⟩
  | call callee closing arguments =>
    obtain ⟨-, inside⟩ := List.forall_mem_cons.1 h
    obtain ⟨first, others⟩ := List.forall_mem_append.1 inside
    exact .form (.keyword (by simp))
      ⟨callee.proper_shape first, Expr.proper_shapes arguments others⟩
  | get object property =>
    obtain ⟨own, inside⟩ := List.forall_mem_cons.1 h
    exact .form (.keyword (by simp))
      ⟨object.proper_shape inside, .of_name own, trivial⟩
  | set object property value =>
    obtain ⟨own, inside⟩ := List.forall_mem_cons.1 h
    obtain ⟨first, second⟩ := List.forall_mem_append.1 inside
    have target : (Shape.form "" [.word ".", object.shape, .word property.lexeme]).Proper :=
      .form (.keyword (by simp)) ⟨object.proper_shape first, .of_name own, trivial⟩
    exact .form (.keyword (by simp)) ⟨target, value.proper_shape second, trivial⟩
  | super _ keyword method =>
    obtain ⟨-, inside⟩ := List.forall_mem_cons.1 h
    exact .form (.keyword (by simp))
      ⟨.of_name (inside _ List.mem_cons_self), trivial⟩

theorem Expr.proper_shapes (es : List Expr) (h : AllReadable (Expr.leavesAll es)) :
    Shape.AllProper (Expr.shapes es) := by
  cases es with
  | nil => trivial
  | cons e es =>
    obtain ⟨first, others⟩ := List.forall_mem_append.1 h
    exact ⟨e.proper_shape first, Expr.proper_shapes es others⟩

end

theorem Expr.proper_shapeOption (e : Option Expr) (h : AllReadable (Expr.leavesOption e)) :
    Shape.AllProper (Expr.shapeOption e) := by
  cases e with
  | none => trivial
  | some e => exact ⟨e.proper_shape h, trivial⟩

mutual

theorem Stmt.proper_shape (s : Stmt) (h : AllReadable s.leaves) : s.shape.Proper := by
  cases s with
  | expression value | print value =>
    exact .form (.keyword (by simp)) ⟨value.proper_shape h, trivial⟩
  | varDecl name value =>
    obtain ⟨own, inside⟩ := List.forall_mem_cons.1 h
    exact .form (.keyword (by simp))
      ⟨.of_name own, Expr.proper_shapeOption value inside⟩
  | block body => exact .form (.keyword (by simp)) (Stmt.proper_shapes body h)
  | ifThen condition body | whileLoop condition body =>
    obtain ⟨first, second⟩ := List.forall_mem_append.1 h
    exact .form (.keyword (by simp))
      ⟨condition.proper_shape first, body.proper_shape second, trivial⟩
  | ifElse condition thenBranch elseBranch =>
    obtain ⟨first, branches⟩ := List.forall_mem_append.1 h
    obtain ⟨second, third⟩ := List.forall_mem_append.1 branches
    exact .form (.keyword (by simp)) ⟨condition.proper_shape first,
      thenBranch.proper_shape second, elseBranch.proper_shape third, trivial⟩
  | funDecl declaration => exact declaration.proper_shape (.keyword (by simp)) h
  | returnStmt keyword value =>
    obtain ⟨-, inside⟩ := List.forall_mem_cons.1 h
    exact .form (.keyword (by simp)) (Expr.proper_shapeOption value inside)
  | classDecl name superclass methods =>
    obtain ⟨own, inside⟩ := List.forall_mem_cons.1 h
    obtain ⟨above, declared⟩ := List.forall_mem_append.1 inside
    have parts := FunctionDecl.proper_shapes methods declared
    cases superclass with
    | none => exact .form (.keyword (by simp)) ⟨.of_name own, parts⟩
    | some superclass =>
      exact .form (.keyword (by simp)) ⟨.of_name own,
        .keyword (by simp), superclass.proper_shape above, parts⟩

theorem Stmt.proper_shapes (ss : List Stmt) (h : AllReadable (Stmt.leavesAll ss)) :
    Shape.AllProper (Stmt.shapes ss) := by
  cases ss with
  | nil => trivial
  | cons s ss =>
    obtain ⟨first, others⟩ := List.forall_mem_append.1 h
    exact ⟨s.proper_shape first, Stmt.proper_shapes ss others⟩

theorem FunctionDecl.proper_shape (d : FunctionDecl) {head : String}
    (proper : (Shape.word head).Proper) (h : AllReadable d.leaves) : (d.shape head).Proper := by
  obtain ⟨name, parameters, body⟩ := d
  obtain ⟨own, inside⟩ := List.forall_mem_cons.1 h
  obtain ⟨names, statements⟩ := List.forall_mem_append.1 inside
  exact .form proper ⟨⟨(Shape.Proper.of_name own).2, Shape.AllProper.of_names names⟩,
    Stmt.proper_shapes body statements⟩

theorem FunctionDecl.proper_shapes (ds : List FunctionDecl)
    (h : AllReadable (FunctionDecl.leavesAll ds)) :
    Shape.AllProper (FunctionDecl.shapes ds) := by
  cases ds with
  | nil => trivial
  | cons d ds =>
    obtain ⟨first, others⟩ := List.forall_mem_append.1 h
    exact ⟨d.proper_shape (.keyword (by simp)) first, FunctionDecl.proper_shapes ds others⟩

end

end ClassScript
