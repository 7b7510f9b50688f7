import ClassScript.Tree.Basic
import ClassScript.Number

set_option autoImplicit false

/-!
# The tree listing

Trees are listed as parenthesised forms with their head first and one blank between the parts.
Texts stand in a listing without quotes.
-/

namespace ClassScript

/-- A form: its parts between parentheses, one blank apart. -/
def form (parts : List String) : String :=
  "(" ++ " ".intercalate parts ++ ")"

/-- A constant as it is listed, a text without quotes. -/
def Constant.listing : Constant → String
  | .number x => Number.treeText x
  | .text s => s
  | .true => "true"
  | .false => "false"
  | .nil => "nil"

mutual

/-- An expression as it is listed: a word, or a form whose first part says what it is. -/
def Expr.listing : Expr → String
  | .constant value => value.listing
  | .unary operator operand => form [operator.lexeme, operand.listing]
  | .binary left operator right => form [operator.lexeme, left.listing, right.listing]
  | .grouping inner => form ["group", inner.listing]
  | .name _ token => token.lexeme
  | .assign _ target value => form ["=", target.lexeme, value.listing]
  | .logical left operator right => form [operator.lexeme, left.listing, right.listing]
  | .call callee _ arguments => form ("call" :: callee.listing :: Expr.listings arguments)
  | .get object property => form [".", object.listing, property.lexeme]
  | .set object property value =>
    form ["=", form [".", object.listing, property.lexeme], value.listing]
  | .this _ _ => "this"
  | .super _ _ method => form ["super", method.lexeme]

/-- The listings of expressions. -/
def Expr.listings : List Expr → List String
  | [] => []
  | e :: es => e.listing :: Expr.listings es

end

mutual

/-- A statement as it is listed. -/
def Stmt.listing : Stmt → String
  | .expression value => form [";", value.listing]
  | .print value => form ["print", value.listing]
  | .varDecl name initializer =>
    form ("var" :: name.lexeme :: (initializer.map Expr.listing).toList)
  | .block body => form ("block" :: Stmt.listings body)
  | .ifThen condition thenBranch => form ["if", condition.listing, thenBranch.listing]
  | .ifElse condition thenBranch elseBranch =>
    form ["if", condition.listing, thenBranch.listing, elseBranch.listing]
  | .whileLoop condition body => form ["while", condition.listing, body.listing]
  | .funDecl declaration => declaration.listing "fun"
  | .returnStmt _ value => form ("return" :: (value.map Expr.listing).toList)
  | .classDecl name superclass methods =>
    form ("class" :: name.lexeme
      :: (superclass.map fun s => "< " ++ s.listing).toList ++ FunctionDecl.listings methods)

/-- The listings of statements. -/
def Stmt.listings : List Stmt → List String
  | [] => []
  | s :: ss => s.listing :: Stmt.listings ss

/-- A declaration, under a head that tells functions and methods apart. -/
def FunctionDecl.listing : FunctionDecl → String → String
  | ⟨name, parameters, body⟩, head =>
    form (head
      :: (name.lexeme ++ "(" ++ " ".intercalate (parameters.map Token.lexeme) ++ ")")
      :: Stmt.listings body)

/-- The listings of methods. -/
def FunctionDecl.listings : List FunctionDecl → List String
  | [] => []
  | d :: ds => d.listing "method" :: FunctionDecl.listings ds

end

end ClassScript
