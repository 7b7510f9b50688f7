import ClassScript.Diagnostic
import ClassScript.Proofs.Grammar.Unnumbered

set_option autoImplicit false

/-!
# The grammar

The rules of the grammar as an inductive relation: `Derives d p ts y` says that the tokens `ts` form
a phrase `p` with the tree `y`.  The relation knows nothing of how a program is read; it joins the
pieces of a list of tokens in order, so that a derivation accounts for every token exactly once.

    program        → declaration* EOF ;
    declaration    → classDecl | funDecl | varDecl | statement ;
    classDecl      → "class" IDENT ( "<" IDENT )? "{" function* "}" ;
    funDecl        → "fun" function ;
    function       → IDENT "(" parameters? ")" block ;
    varDecl        → "var" IDENT ( "=" expression )? ";" ;
    statement      → exprStmt | forStmt | ifStmt | printStmt
                   | returnStmt | whileStmt | block ;
    forStmt        → "for" "(" ( varDecl | exprStmt | ";" )
                     expression? ";" expression? ")" statement ;
    returnStmt     → "return" expression? ";" ;
    block          → "{" declaration* "}" ;
    expression     → assignment ;
    assignment     → ( call "." )? IDENT "=" assignment | logic_or ;
    logic_or       → logic_and ( "or" logic_and )* ;
    logic_and      → equality  ( "and" equality )* ;
    equality       → comparison ( ( "!=" | "==" ) comparison )* ;
    comparison     → term ( ( ">" | ">=" | "<" | "<=" ) term )* ;
    term           → factor ( ( "-" | "+" ) factor )* ;
    factor         → unary ( ( "/" | "*" ) unary )* ;
    unary          → ( "!" | "-" ) unary | call ;
    call           → primary ( "(" arguments? ")" | "." IDENT )* ;
    primary        → NUMBER | STRING | "true" | "false" | "nil" | "this"
                   | IDENT | "(" expression ")" | "super" "." IDENT ;

A repetition `X ( op X )*` is a first `X` and then any number of further ones, each of which takes
the tree so far as its left side; this is what makes binary operators left-associative.

The rules alone leave open to which `if` an `else` belongs.  A statement therefore carries whether
it ends in an `if` without `else`, and a dialect may ask that nothing of that sort stands between an
`if` and its `else`.
-/

namespace ClassScript.Grammar

/-! ## Dialects -/

/-- Two points in which one may read the rules more or less strictly. -/
structure Dialect where
  /-- What is assigned to is a name or a property, and no function has more than 255 parameters and
  no call more than 255 arguments.  Else any `logic_or` may stand to the left of `=`. -/
  strict : Bool
  /-- Each `else` belongs to the nearest `if` that can have it. -/
  nearestElse : Bool

/-- The rules as they are written, which leave the `if` of an `else` open. -/
def Dialect.written : Dialect := { strict := true, nearestElse := false }

/-- The rules under which every program has one tree. -/
def Dialect.settled : Dialect := { strict := true, nearestElse := true }

/-- The rules with `logic_or ( "=" assignment )?` for `assignment`, and without limits. -/
def Dialect.relaxed : Dialect := { strict := false, nearestElse := false }

/-! ## Phrases and their trees -/

/-- What a list of tokens can be. -/
inductive Phrase where
  | program
  | declarations
  | declaration
  | superclass
  | methods
  | function
  | parameters
  | varDecl
  | initializer
  /-- a statement, which may end in an `if` without `else` -/
  | statement (openEnd : Bool)
  | exprStmt
  | forFirst
  | block
  /-- `expression?` -/
  | optional
  | expression
  | assignment
  | logicOr
  | logicAnd
  | equality
  | comparison
  | term
  | factor
  | unary
  | call
  | primary
  | arguments
  deriving DecidableEq, Repr

/-- The trees of a phrase. -/
@[reducible] def Phrase.Yield : Phrase → Type
  | program | declarations | block => List Stmt
  | declaration | varDecl | statement _ | exprStmt => Stmt
  | forFirst => Option Stmt
  | superclass | initializer | optional => Option Expr
  | methods => List FunctionDecl
  | function => FunctionDecl
  | parameters => List Token
  | arguments => List Expr
  | expression | assignment | logicOr | logicAnd | equality | comparison | term | factor | unary
  | call | primary => Expr

/-- The constant that the value of a literal stands for. -/
def constantOf : Literal → Constant
  | .number x => .number x
  | .text s => .text s

/-! ## Rules -/

/-- The tokens form a phrase with the given tree, whose references have no numbers. -/
inductive Derives (d : Dialect) : (p : Phrase) → List Token → p.Yield → Prop where
  -- program → declaration* EOF
  | program {ts : List Token} {ss : List Stmt} {eof : Token} :
      Derives d .declarations ts ss → eof.kind = .endOfSource →
      Derives d .program (ts ++ [eof]) ss
  | noDeclaration : Derives d .declarations [] []
  | moreDeclarations {ts us : List Token} {s : Stmt} {ss : List Stmt} :
      Derives d .declaration ts s → Derives d .declarations us ss →
      Derives d .declarations (ts ++ us) (s :: ss)
  -- classDecl → "class" IDENT ( "<" IDENT )? "{" function* "}"
  | classDecl {keyword name l r : Token} {ts us : List Token} {superclass : Option Expr}
      {methods : List FunctionDecl} :
      keyword.kind = .kwClass → name.kind = .identifier →
      Derives d .superclass ts superclass → l.kind = .leftBrace →
      Derives d .methods us methods → r.kind = .rightBrace →
      Derives d .declaration (keyword :: name :: (ts ++ l :: (us ++ [r])))
        (Stmt.classDecl name superclass methods)
  | noSuperclass : Derives d .superclass [] none
  | superclass {less name : Token} :
      less.kind = .less → name.kind = .identifier →
      Derives d .superclass [less, name] (some (Expr.name 0 name))
  | noMethod : Derives d .methods [] []
  | moreMethods {ts us : List Token} {f : FunctionDecl} {fs : List FunctionDecl} :
      Derives d .function ts f → Derives d .methods us fs →
      Derives d .methods (ts ++ us) (f :: fs)
  -- funDecl → "fun" function
  | funDecl {keyword : Token} {ts : List Token} {f : FunctionDecl} :
      keyword.kind = .kwFun → Derives d .function ts f →
      Derives d .declaration (keyword :: ts) (Stmt.funDecl f)
  -- function → IDENT "(" parameters? ")" block
  | functionNone {name l r : Token} {us : List Token} {body : List Stmt} :
      name.kind = .identifier → l.kind = .leftParen → r.kind = .rightParen →
      Derives d .block us body →
      Derives d .function (name :: l :: r :: us) (FunctionDecl.mk name [] body)
  | functionSome {name l r : Token} {ts us : List Token} {params : List Token}
      {body : List Stmt} :
      name.kind = .identifier → l.kind = .leftParen → Derives d .parameters ts params →
      (d.strict = true → params.length ≤ 255) → r.kind = .rightParen →
      Derives d .block us body →
      Derives d .function (name :: l :: (ts ++ r :: us)) (FunctionDecl.mk name params body)
  | lastParameter {name : Token} :
      name.kind = .identifier → Derives d .parameters [name] [name]
  | moreParameters {name comma : Token} {ts : List Token} {params : List Token} :
      name.kind = .identifier → comma.kind = .comma → Derives d .parameters ts params →
      Derives d .parameters (name :: comma :: ts) (name :: params)
  -- varDecl → "var" IDENT ( "=" expression )? ";"
  | varDeclaration {ts : List Token} {s : Stmt} :
      Derives d .varDecl ts s → Derives d .declaration ts s
  | varDecl {keyword name semicolon : Token} {ts : List Token} {e : Option Expr} :
      keyword.kind = .kwVar → name.kind = .identifier → Derives d .initializer ts e →
      semicolon.kind = .semicolon →
      Derives d .varDecl (keyword :: name :: (ts ++ [semicolon])) (Stmt.varDecl name e)
  | noInitializer : Derives d .initializer [] none
  | initializer {equal : Token} {ts : List Token} {e : Expr} :
      equal.kind = .equal → Derives d .expression ts e →
      Derives d .initializer (equal :: ts) (some e)
  -- statement → exprStmt | forStmt | ifStmt | printStmt | returnStmt | whileStmt | block
  | statement {ts : List Token} {s : Stmt} {o : Bool} :
      Derives d (.statement o) ts s → Derives d .declaration ts s
  | expressionStatement {ts : List Token} {s : Stmt} :
      Derives d .exprStmt ts s → Derives d (.statement false) ts s
  | exprStmt {ts : List Token} {e : Expr} {semicolon : Token} :
      Derives d .expression ts e → semicolon.kind = .semicolon →
      Derives d .exprStmt (ts ++ [semicolon]) (Stmt.expression e)
  -- forStmt → "for" "(" ( varDecl | exprStmt | ";" ) expression? ";" expression? ")" statement
  | forStmt {keyword l semicolon r : Token} {is cs ss bs : List Token} {first : Option Stmt}
      {condition increment : Option Expr} {body : Stmt} {o : Bool} :
      keyword.kind = .kwFor → l.kind = .leftParen → Derives d .forFirst is first →
      Derives d .optional cs condition → semicolon.kind = .semicolon →
      Derives d .optional ss increment → r.kind = .rightParen →
      Derives d (.statement o) bs body →
      Derives d (.statement o) (keyword :: l :: (is ++ (cs ++ semicolon :: (ss ++ r :: bs))))
        (Stmt.forLoop first condition increment body)
  | forVariable {ts : List Token} {s : Stmt} :
      Derives d .varDecl ts s → Derives d .forFirst ts (some s)
  | forExpression {ts : List Token} {s : Stmt} :
      Derives d .exprStmt ts s → Derives d .forFirst ts (some s)
  | forNothing {semicolon : Token} :
      semicolon.kind = .semicolon → Derives d .forFirst [semicolon] none
  -- ifStmt → "if" "(" expression ")" statement ( "else" statement )?
  | ifThen {keyword l r : Token} {cs ts : List Token} {condition : Expr} {thenBranch : Stmt}
      {o : Bool} :
      keyword.kind = .kwIf → l.kind = .leftParen → Derives d .expression cs condition →
      r.kind = .rightParen → Derives d (.statement o) ts thenBranch →
      Derives d (.statement true) (keyword :: l :: (cs ++ r :: ts))
        (Stmt.ifThen condition thenBranch)
  | ifElse {keyword l r els : Token} {cs ts es : List Token} {condition : Expr}
      {thenBranch elseBranch : Stmt} {o p : Bool} :
      keyword.kind = .kwIf → l.kind = .leftParen → Derives d .expression cs condition →
      r.kind = .rightParen → Derives d (.statement o) ts thenBranch →
      (d.nearestElse = true → o = false) → els.kind = .kwElse →
      Derives d (.statement p) es elseBranch →
      Derives d (.statement p) (keyword :: l :: (cs ++ r :: (ts ++ els :: es)))
        (Stmt.ifElse condition thenBranch elseBranch)
  -- printStmt → "print" expression ";"
  | printStmt {keyword semicolon : Token} {ts : List Token} {e : Expr} :
      keyword.kind = .kwPrint → Derives d .expression ts e → semicolon.kind = .semicolon →
      Derives d (.statement false) (keyword :: (ts ++ [semicolon])) (Stmt.print e)
  -- returnStmt → "return" expression? ";"
  | returnStmt {keyword semicolon : Token} {ts : List Token} {e : Option Expr} :
      keyword.kind = .kwReturn → Derives d .optional ts e → semicolon.kind = .semicolon →
      Derives d (.statement false) (keyword :: (ts ++ [semicolon])) (Stmt.returnStmt keyword e)
  -- whileStmt → "while" "(" expression ")" statement
  | whileStmt {keyword l r : Token} {cs ts : List Token} {condition : Expr} {body : Stmt}
      {o : Bool} :
      keyword.kind = .kwWhile → l.kind = .leftParen → Derives d .expression cs condition →
      r.kind = .rightParen → Derives d (.statement o) ts body →
      Derives d (.statement o) (keyword :: l :: (cs ++ r :: ts)) (Stmt.whileLoop condition body)
  -- block → "{" declaration* "}"
  | blockStatement {ts : List Token} {ss : List Stmt} :
      Derives d .block ts ss → Derives d (.statement false) ts (Stmt.block ss)
  | block {l r : Token} {ts : List Token} {ss : List Stmt} :
      l.kind = .leftBrace → Derives d .declarations ts ss → r.kind = .rightBrace →
      Derives d .block (l :: (ts ++ [r])) ss
  | optionalNone : Derives d .optional [] none
  | optionalSome {ts : List Token} {e : Expr} :
      Derives d .expression ts e → Derives d .optional ts (some e)
  -- expression → assignment
  | expression {ts : List Token} {e : Expr} :
      Derives d .assignment ts e → Derives d .expression ts e
  -- assignment → ( call "." )? IDENT "=" assignment | logic_or
  | assignName {name equal : Token} {ts : List Token} {e : Expr} :
      name.kind = .identifier → equal.kind = .equal → Derives d .assignment ts e →
      Derives d .assignment (name :: equal :: ts) (Expr.assign 0 name e)
  | assignProperty {dot name equal : Token} {ts us : List Token} {object e : Expr} :
      Derives d .call ts object → dot.kind = .dot → name.kind = .identifier →
      equal.kind = .equal → Derives d .assignment us e →
      Derives d .assignment (ts ++ dot :: name :: equal :: us) (Expr.set object name e)
  | assignOther {equal : Token} {ts us : List Token} {target e : Expr} :
      d.strict = false → Derives d .logicOr ts target → target.isTarget = false →
      equal.kind = .equal → Derives d .assignment us e →
      Derives d .assignment (ts ++ equal :: us) target
  | assignNothing {ts : List Token} {e : Expr} :
      Derives d .logicOr ts e → Derives d .assignment ts e
  -- logic_or → logic_and ( "or" logic_and )*
  | logicOrFirst {ts : List Token} {e : Expr} :
      Derives d .logicAnd ts e → Derives d .logicOr ts e
  | logicOrMore {op : Token} {ts us : List Token} {l r : Expr} :
      Derives d .logicOr ts l → op.kind = .kwOr → Derives d .logicAnd us r →
      Derives d .logicOr (ts ++ op :: us) (Expr.logical l op r)
  -- logic_and → equality ( "and" equality )*
  | logicAndFirst {ts : List Token} {e : Expr} :
      Derives d .equality ts e → Derives d .logicAnd ts e
  | logicAndMore {op : Token} {ts us : List Token} {l r : Expr} :
      Derives d .logicAnd ts l → op.kind = .kwAnd → Derives d .equality us r →
      Derives d .logicAnd (ts ++ op :: us) (Expr.logical l op r)
  -- equality → comparison ( ( "!=" | "==" ) comparison )*
  | equalityFirst {ts : List Token} {e : Expr} :
      Derives d .comparison ts e → Derives d .equality ts e
  | equalityMore {op : Token} {ts us : List Token} {l r : Expr} :
      Derives d .equality ts l → op.kind ∈ [TokenKind.bangEqual, .equalEqual] →
      Derives d .comparison us r → Derives d .equality (ts ++ op :: us) (Expr.binary l op r)
  -- comparison → term ( ( ">" | ">=" | "<" | "<=" ) term )*
  | comparisonFirst {ts : List Token} {e : Expr} :
      Derives d .term ts e → Derives d .comparison ts e
  | comparisonMore {op : Token} {ts us : List Token} {l r : Expr} :
      Derives d .comparison ts l →
      op.kind ∈ [TokenKind.greater, .greaterEqual, .less, .lessEqual] → Derives d .term us r →
      Derives d .comparison (ts ++ op :: us) (Expr.binary l op r)
  -- term → factor ( ( "-" | "+" ) factor )*
  | termFirst {ts : List Token} {e : Expr} :
      Derives d .factor ts e → Derives d .term ts e
  | termMore {op : Token} {ts us : List Token} {l r : Expr} :
      Derives d .term ts l → op.kind ∈ [TokenKind.minus, .plus] → Derives d .factor us r →
      Derives d .term (ts ++ op :: us) (Expr.binary l op r)
  -- factor → unary ( ( "/" | "*" ) unary )*
  | factorFirst {ts : List Token} {e : Expr} :
      Derives d .unary ts e → Derives d .factor ts e
  | factorMore {op : Token} {ts us : List Token} {l r : Expr} :
      Derives d .factor ts l → op.kind ∈ [TokenKind.slash, .star] → Derives d .unary us r →
      Derives d .factor (ts ++ op :: us) (Expr.binary l op r)
  -- unary → ( "!" | "-" ) unary | call
  | unaryOperator {op : Token} {ts : List Token} {e : Expr} :
      op.kind ∈ [TokenKind.bang, .minus] → Derives d .unary ts e →
      Derives d .unary (op :: ts) (Expr.unary op e)
  | unaryCall {ts : List Token} {e : Expr} :
      Derives d .call ts e → Derives d .unary ts e
  -- call → primary ( "(" arguments? ")" | "." IDENT )*
  | callFirst {ts : List Token} {e : Expr} :
      Derives d .primary ts e → Derives d .call ts e
  | callNone {l r : Token} {ts : List Token} {callee : Expr} :
      Derives d .call ts callee → l.kind = .leftParen → r.kind = .rightParen →
      Derives d .call (ts ++ [l, r]) (Expr.call callee r [])
  | callSome {l r : Token} {ts us : List Token} {callee : Expr} {es : List Expr} :
      Derives d .call ts callee → l.kind = .leftParen → Derives d .arguments us es →
      (d.strict = true → es.length ≤ 255) → r.kind = .rightParen →
      Derives d .call (ts ++ l :: (us ++ [r])) (Expr.call callee r es)
  | callProperty {dot name : Token} {ts : List Token} {object : Expr} :
      Derives d .call ts object → dot.kind = .dot → name.kind = .identifier →
      Derives d .call (ts ++ [dot, name]) (Expr.get object name)
  | lastArgument {ts : List Token} {e : Expr} :
      Derives d .expression ts e → Derives d .arguments ts [e]
  | moreArguments {comma : Token} {ts us : List Token} {e : Expr} {es : List Expr} :
      Derives d .expression ts e → comma.kind = .comma → Derives d .arguments us es →
      Derives d .arguments (ts ++ comma :: us) (e :: es)
  -- primary → NUMBER | STRING | "true" | "false" | "nil" | "this"
  --         | IDENT | "(" expression ")" | "super" "." IDENT
  | literal {t : Token} {value : Literal} :
      t.kind = .number ∨ t.kind = .string → t.literal = some value →
      Derives d .primary [t] (Expr.constant (constantOf value))
  | true {t : Token} : t.kind = .kwTrue → Derives d .primary [t] (Expr.constant .true)
  | false {t : Token} : t.kind = .kwFalse → Derives d .primary [t] (Expr.constant .false)
  | nil {t : Token} : t.kind = .kwNil → Derives d .primary [t] (Expr.constant .nil)
  | this {t : Token} : t.kind = .kwThis → Derives d .primary [t] (Expr.this 0 t)
  | name {t : Token} : t.kind = .identifier → Derives d .primary [t] (Expr.name 0 t)
  | grouping {l r : Token} {ts : List Token} {e : Expr} :
      l.kind = .leftParen → Derives d .expression ts e → r.kind = .rightParen →
      Derives d .primary (l :: (ts ++ [r])) (Expr.grouping e)
  | super {keyword dot method : Token} :
      keyword.kind = .kwSuper → dot.kind = .dot → method.kind = .identifier →
      Derives d .primary [keyword, dot, method] (Expr.super 0 keyword method)

end ClassScript.Grammar
