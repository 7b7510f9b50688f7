import ClassScript.Token.Basic

set_option autoImplicit false

/-!
# Trees

A program is a list of statements.  The nodes that refer to a binding (names, assignments, `this`
and `super`) carry a number of their own, under which their scope distance is recorded; two
references with the same text in different scopes therefore stay apart.  Operators keep the token
they were written with, which places the errors they cause.
-/

namespace ClassScript

/-- A value that is written in the source. -/
inductive Constant where
  | number (x : Float)
  | text (s : String)
  | true
  | false
  | nil
  deriving DecidableEq, Inhabited

/-- Expressions.  The number `id` of a reference is no other reference's. -/
inductive Expr where
  | constant (value : Constant)
  | unary (operator : Token) (operand : Expr)
  /-- arithmetic, comparison or equality -/
  | binary (left : Expr) (operator : Token) (right : Expr)
  /-- an expression in parentheses -/
  | grouping (inner : Expr)
  | name (id : Nat) (token : Token)
  | assign (id : Nat) (target : Token) (value : Expr)
  /-- `and` or `or`, which may leave their right side alone -/
  | logical (left : Expr) (operator : Token) (right : Expr)
  /-- a call, with the closing parenthesis that places its errors -/
  | call (callee : Expr) (closing : Token) (arguments : List Expr)
  /-- `object.property` -/
  | get (object : Expr) (property : Token)
  /-- `object.property = value` -/
  | set (object : Expr) (property : Token) (value : Expr)
  | this (id : Nat) (keyword : Token)
  /-- `super.method` -/
  | super (id : Nat) (keyword : Token) (method : Token)
  deriving Inhabited

mutual

/-- Statements.  A `for` loop is no statement of its own: it is written with the others. -/
inductive Stmt where
  | expression (value : Expr)
  | print (value : Expr)
  | varDecl (name : Token) (initializer : Option Expr)
  | block (body : List Stmt)
  | ifThen (condition : Expr) (thenBranch : Stmt)
  | ifElse (condition : Expr) (thenBranch elseBranch : Stmt)
  | whileLoop (condition : Expr) (body : Stmt)
  | funDecl (declaration : FunctionDecl)
  | returnStmt (keyword : Token) (value : Option Expr)
  | classDecl (name : Token) (superclass : Option Expr) (methods : List FunctionDecl)

/-- The declaration of a function or a method. -/
structure FunctionDecl where
  name : Token
  parameters : List Token
  body : List Stmt

end

instance : Inhabited Stmt := ⟨.block []⟩
instance : Inhabited FunctionDecl := ⟨⟨default, [], []⟩⟩

/-- The method that runs when an instance is made. -/
def initializerName : String := "init"

/-- Whether a method is the one that runs when an instance is made. -/
def FunctionDecl.isInitializer (decl : FunctionDecl) : Bool :=
  decl.name.lexeme == initializerName

/-- A `for` loop in terms of the other statements.  The initializer gets a scope around the loop,
the body and the increment get one for every round, and a missing condition always holds. -/
def Stmt.forLoop (initializer : Option Stmt) (condition increment : Option Expr) (body : Stmt) :
    Stmt :=
  let round :=
    match increment with
    | some step => .block [body, .expression step]
    | none => body
  let loop := Stmt.whileLoop (condition.getD (.constant .true)) round
  match initializer with
  | some first => .block [first, loop]
  | none => loop

namespace Expr

/-- The line of the token that an expression remembers.  Constants keep none, so neither they nor
constants in parentheses have a line. -/
def line? : Expr → Option Nat
  | constant _ => none
  | unary operator _ => some operator.line
  | binary _ operator _ => some operator.line
  | grouping inner => inner.line?
  | name _ token => some token.line
  | assign _ target _ => some target.line
  | logical _ operator _ => some operator.line
  | call _ closing _ => some closing.line
  | get _ property => some property.line
  | set _ property _ => some property.line
  | this _ keyword => some keyword.line
  | super _ keyword _ => some keyword.line

end Expr

end ClassScript
