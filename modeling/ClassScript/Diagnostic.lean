import ClassScript.Token.Basic

set_option autoImplicit false

/-!
# Diagnostics

What can be wrong with a source before it runs.  A diagnostic is a cause and a place; the wording is
made from them here and nowhere else.  Lexical faults are placed by line, all others by the token
they were found at.
-/

namespace ClassScript

/-! ## Causes -/

/-- Why some characters are no token. -/
inductive LexicalFault where
  /-- no token starts with this character -/
  | unexpectedCharacter (c : Char)
  /-- the source ends inside a string -/
  | unterminatedString
  deriving DecidableEq, Repr

/-- The two uses of a function's form, which its diagnostics tell apart. -/
inductive FunctionRole where
  | function
  | method
  deriving DecidableEq, Repr

/-- What the grammar asks for where something else stands. -/
inductive Expected where
  | className
  | superclassName
  | classBodyStart
  | classBodyEnd
  | functionName (role : FunctionRole)
  | parametersStart (role : FunctionRole)
  | parameterName
  | parametersEnd
  | functionBodyStart (role : FunctionRole)
  | variableName
  | variableEnd
  | forStart
  | loopConditionEnd
  | forClausesEnd
  | ifStart
  | ifConditionEnd
  | printEnd
  | returnEnd
  | whileStart
  | whileConditionEnd
  | expressionEnd
  | blockEnd
  | propertyName
  | argumentsEnd
  | superDot
  | superclassMethodName
  | groupEnd
  | expression
  deriving DecidableEq, Repr

/-- Why a list of tokens is no program. -/
inductive GrammarFault where
  | expected (what : Expected)
  /-- a literal token that carries no value -/
  | literalWithoutValue
  | invalidAssignmentTarget
  | tooManyParameters
  | tooManyArguments
  deriving DecidableEq, Repr

/-- Why a well-formed tree may not run. -/
inductive BindingFault where
  | alreadyDeclared
  | readInOwnInitializer
  | returnOutsideFunction
  | valueFromInitializer
  | thisOutsideClass
  | superOutsideClass
  | superWithoutSuperclass
  | selfInheritance
  deriving DecidableEq, Repr

/-- A cause at its place. -/
inductive Diagnostic where
  | lexical (line : Nat) (fault : LexicalFault)
  | grammar (token : Token) (fault : GrammarFault)
  | binding (token : Token) (fault : BindingFault)
  deriving DecidableEq

/-! ## Wording -/

/-- How many parameters a function and how many arguments a call may have. -/
def parameterLimit : Nat := 255

/-- What is said of characters that are no token. -/
def LexicalFault.message : LexicalFault → String
  | .unexpectedCharacter c => "Unexpected character: " ++ c.toString
  | .unterminatedString => "Unterminated string."

/-- The word for a function of this role. -/
def FunctionRole.noun : FunctionRole → String
  | .function => "function"
  | .method => "method"

/-- The thing asked for, and where. -/
def Expected.phrase : Expected → String
  | .className => "class name"
  | .superclassName => "superclass name"
  | .classBodyStart => "'\x7b' before class body"
  | .classBodyEnd => "'\x7d' after class body"
  | .functionName role => role.noun ++ " name"
  | .parametersStart role => "'(' after " ++ role.noun ++ " name"
  | .parameterName => "parameter name"
  | .parametersEnd => "')' after parameters"
  | .functionBodyStart role => "'\x7b' before " ++ role.noun ++ " body"
  | .variableName => "variable name"
  | .variableEnd => "';' after variable declaration"
  | .forStart => "'(' after 'for'"
  | .loopConditionEnd => "';' after loop condition"
  | .forClausesEnd => "')' after for clauses"
  | .ifStart => "'(' after 'if'"
  | .ifConditionEnd => "')' after if condition"
  | .printEnd => "';' after value"
  | .returnEnd => "';' after return value"
  | .whileStart => "'(' after 'while'"
  | .whileConditionEnd => "')' after condition"
  | .expressionEnd => "';' after expression"
  | .blockEnd => "'\x7d' after block"
  | .propertyName => "property name after '.'"
  | .argumentsEnd => "')' after arguments"
  | .superDot => "'.' after 'super'"
  | .superclassMethodName => "superclass method name"
  | .groupEnd => "')' after expression"
  | .expression => "expression"

/-- What is said of tokens that fit no rule. -/
def GrammarFault.message : GrammarFault → String
  | .expected what => "Expect " ++ what.phrase ++ "."
  | .literalWithoutValue => "Literal token without value."
  | .invalidAssignmentTarget => "Invalid assignment target."
  | .tooManyParameters => "Can't have more than " ++ toString parameterLimit ++ " parameters."
  | .tooManyArguments => "Can't have more than " ++ toString parameterLimit ++ " arguments."

/-- What is said of a use of names that is not allowed. -/
def BindingFault.message : BindingFault → String
  | .alreadyDeclared => "Already a variable with this name in this scope."
  | .readInOwnInitializer => "Can't read local variable in its own initializer."
  | .returnOutsideFunction => "Can't return from top-level code."
  | .valueFromInitializer => "Can't return a value from an initializer."
  | .thisOutsideClass => "Can't use 'this' outside of a class."
  | .superOutsideClass => "Can't use 'super' outside of a class."
  | .superWithoutSuperclass => "Can't use 'super' in a class with no superclass."
  | .selfInheritance => "A class can't inherit from itself."

/-- Where a token stands: its text in quotes, or the end of the source. -/
def Token.place (t : Token) : String :=
  if t.kind = .endOfSource then " at end" else " at '" ++ t.lexeme ++ "'"

namespace Diagnostic

/-- The line of a diagnostic. -/
def line : Diagnostic → Nat
  | lexical line _ => line
  | grammar token _ => token.line
  | binding token _ => token.line

/-- The place within the line. -/
def place : Diagnostic → String
  | lexical _ _ => ""
  | grammar token _ => token.place
  | binding token _ => token.place

/-- What a diagnostic says, without the place. -/
def message : Diagnostic → String
  | lexical _ fault => fault.message
  | grammar _ fault => fault.message
  | binding _ fault => fault.message

/-- The line that reports a diagnostic. -/
def text (d : Diagnostic) : String :=
  "[line " ++ toString d.line ++ "] Error" ++ d.place ++ ": " ++ d.message

end Diagnostic

end ClassScript
