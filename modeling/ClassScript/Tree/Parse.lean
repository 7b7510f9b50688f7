import ClassScript.Diagnostic
import ClassScript.Tree.Basic

set_option autoImplicit false

/-!
# Reading a program from tokens

The grammar, from programs down to primaries:

    program      = declaration*
    declaration  = "class" name ( "<" name )? "{" function* "}"
                 | "fun" function | variable | statement
    function     = name "(" ( name ( "," name )* )? ")" block
    variable     = "var" name ( "=" expression )? ";"
    statement    = expression ";" | "print" expression ";" | "return" expression? ";" | block
                 | "if" "(" expression ")" statement ( "else" statement )?
                 | "while" "(" expression ")" statement
                 | "for" "(" ( variable | expression ";" | ";" ) expression? ";" expression? ")"
                   statement
    block        = "{" declaration* "}"
    expression   = ( call "." )? name "=" expression | binary
    unary        = ( "!" | "-" ) unary | call
    call         = primary ( "(" ( expression ( "," expression )* )? ")" | "." name )*
    primary      = number | string | "true" | "false" | "nil" | "this" | name
                 | "(" expression ")" | "super" "." name

Binary expressions have six levels, from `or` to products, and each is left-associative.  A fault
stops the declaration it was found in; reading goes on at the next place that looks like the start
of a statement, so that one pass reports every fault.  A wrong assignment target and a surplus
parameter or argument are reported without stopping.

The functions count down a fuel that the number of tokens bounds; running out of it is an outcome
of its own, which is neither a program nor a fault.
-/

namespace ClassScript

/-! ## The reading state -/

/-- How far reading has come. -/
structure Cursor where
  /-- The tokens still to be read, without the closing one. -/
  rest : List Token
  /-- The token at which diagnostics are placed when no other is left. -/
  closing : Token
  /-- The number for the next node that refers to a binding. -/
  nextId : Nat
  /-- The diagnostics so far, in the order they were reported. -/
  faults : Array Diagnostic

/-- Why reading a part of the program stops. -/
inductive Halt where
  | fault (d : Diagnostic)
  | exhausted

/-- A step of reading.  What is reported and numbered on the way stays so when the step fails. -/
abbrev Parser : Type → Type := EStateM Halt Cursor

namespace Parser

/-- The next token, or the closing one. -/
def peek : Parser Token := do
  let c ← get
  return c.rest.head?.getD c.closing

/-- Whether all tokens are read. -/
def atEnd : Parser Bool := do
  return (← get).rest.isEmpty

/-- Whether the next token has a given kind. -/
def check (kind : TokenKind) : Parser Bool := do
  return (← get).rest.head?.any fun t => t.kind = kind

/-- Take the next token if its kind is among the given ones. -/
def acceptAny? (kinds : List TokenKind) : Parser (Option Token) := do
  let c ← get
  match c.rest with
  | t :: rest =>
    if t.kind ∈ kinds then
      set { c with rest }
      return some t
    else return none
  | [] => return none

/-- Take the next token if it has a given kind. -/
def accept? (kind : TokenKind) : Parser (Option Token) :=
  acceptAny? [kind]

/-- Skip the next token if it has a given kind, and tell whether it had. -/
def accept (kind : TokenKind) : Parser Bool := do
  return (← accept? kind).isSome

/-- Stop with a fault at the next token. -/
def fail {α : Type} (fault : GrammarFault) : Parser α := do
  throw (.fault (.grammar (← peek) fault))

/-- Stop because the fuel is gone. -/
def exhausted {α : Type} : Parser α :=
  throw .exhausted

/-- Report a fault and go on. -/
def report (token : Token) (fault : GrammarFault) : Parser Unit :=
  modify fun c => { c with faults := c.faults.push (.grammar token fault) }

/-- Take a token of a given kind, or stop. -/
def expect (kind : TokenKind) (what : Expected) : Parser Token := do
  match ← accept? kind with
  | some t => return t
  | none => fail (.expected what)

/-- A number that no other node has. -/
def freshId : Parser Nat :=
  modifyGet fun c => (c.nextId, { c with nextId := c.nextId + 1 })

/-! ## Recovery -/

/-- The kinds that start a statement and nothing else. -/
def startsStatement : TokenKind → Bool
  | .kwClass | .kwFun | .kwVar | .kwFor | .kwIf | .kwWhile | .kwPrint | .kwReturn => true
  | _ => false

/-- Drop tokens up to one that starts a statement or follows a semicolon. -/
def dropToBoundary (previous : Token) : List Token → List Token
  | [] => []
  | t :: rest =>
    if previous.kind = .semicolon || startsStatement t.kind then t :: rest
    else dropToBoundary t rest

/-- Drop the token at which a fault was found, and others up to the next boundary. -/
def synchronize (tokens : List Token) : List Token :=
  match tokens with
  | [] => []
  | t :: rest => dropToBoundary t rest

/-- Run a step; if it stops with a fault, report that and go on after the next boundary. -/
def recovering {α : Type} (step : Parser α) : Parser (Option α) := fun c =>
  match step c with
  | .ok a c => .ok (some a) c
  | .error (.fault d) c =>
    .ok none { c with rest := synchronize c.rest, faults := c.faults.push d }
  | .error .exhausted c => .error .exhausted c

/-! ## Expressions -/

/-- The levels of binary operators, from the loosest to the tightest. -/
inductive Level where
  | or
  | and
  | equality
  | comparison
  | term
  | factor
  deriving DecidableEq, Repr

/-- The operators of a level. -/
def Level.operators : Level → List TokenKind
  | .or => [.kwOr]
  | .and => [.kwAnd]
  | .equality => [.bangEqual, .equalEqual]
  | .comparison => [.greater, .greaterEqual, .less, .lessEqual]
  | .term => [.minus, .plus]
  | .factor => [.slash, .star]

/-- The level of the operands, which below the tightest level are unary. -/
def Level.tighter? : Level → Option Level
  | .or => some .and
  | .and => some .equality
  | .equality => some .comparison
  | .comparison => some .term
  | .term => some .factor
  | .factor => none

/-- The node for an operator of a level. -/
def Level.join : Level → Expr → Token → Expr → Expr
  | .or, left, operator, right => .logical left operator right
  | .and, left, operator, right => .logical left operator right
  | _, left, operator, right => .binary left operator right

/-- The constant that a token stands for by itself, if it is the token of a constant. -/
def constant? (t : Token) : Option (Except GrammarFault Constant) :=
  match t.kind with
  | .kwFalse => some (.ok .false)
  | .kwTrue => some (.ok .true)
  | .kwNil => some (.ok .nil)
  | .number | .string =>
    match t.literal with
    | some (.number x) => some (.ok (.number x))
    | some (.text s) => some (.ok (.text s))
    | none => some (.error .literalWithoutValue)
  | _ => none

mutual

/-- An expression: an assignment or a binary expression.  The target is read as an expression
first, and only then is it known whether it can be assigned to. -/
def assignment : Nat → Parser Expr
  | 0 => exhausted
  | fuel + 1 => do
    let target ← binary fuel .or
    match ← accept? .equal with
    | none => return target
    | some equals =>
      let value ← assignment fuel
      match target with
      | .name _ token => return .assign (← freshId) token value
      | .get object property => return .set object property value
      | other =>
        report equals .invalidAssignmentTarget
        return other

/-- A binary expression of a level. -/
def binary : Nat → Level → Parser Expr
  | 0, _ => exhausted
  | fuel + 1, level => do
    let left ← operand fuel level
    binaryRest fuel level left

/-- The operators of a level that follow a left operand, each with its right operand. -/
def binaryRest : Nat → Level → Expr → Parser Expr
  | 0, _, _ => exhausted
  | fuel + 1, level, left => do
    match ← acceptAny? level.operators with
    | none => return left
    | some operator =>
      let right ← operand fuel level
      binaryRest fuel level (level.join left operator right)

/-- An operand of a level. -/
def operand : Nat → Level → Parser Expr
  | 0, _ => exhausted
  | fuel + 1, level =>
    match level.tighter? with
    | some tighter => binary fuel tighter
    | none => unary fuel

/-- Any number of unary operators before a call. -/
def unary : Nat → Parser Expr
  | 0 => exhausted
  | fuel + 1 => do
    match ← acceptAny? [.bang, .minus] with
    | some operator => return .unary operator (← unary fuel)
    | none => callRest fuel (← primary fuel)

/-- The arguments and properties that follow a callee or an object. -/
def callRest : Nat → Expr → Parser Expr
  | 0, _ => exhausted
  | fuel + 1, head => do
    if ← accept .leftParen then
      let values ← if ← check .rightParen then pure [] else arguments fuel 0
      let closing ← expect .rightParen .argumentsEnd
      callRest fuel (.call head closing values)
    else if ← accept .dot then
      let property ← expect .identifier .propertyName
      callRest fuel (.get head property)
    else
      return head

/-- One or more arguments, after `count` others. -/
def arguments : Nat → Nat → Parser (List Expr)
  | 0, _ => exhausted
  | fuel + 1, count => do
    if parameterLimit ≤ count then
      report (← peek) .tooManyArguments
    let first ← assignment fuel
    if ← accept .comma then
      return first :: (← arguments fuel (count + 1))
    else
      return [first]

/-- A constant, a reference, or an expression in parentheses. -/
def primary : Nat → Parser Expr
  | 0 => exhausted
  | fuel + 1 => do
    let t ← peek
    match constant? t with
    | some (.ok value) =>
      let _ ← accept t.kind
      return .constant value
    | some (.error fault) => fail fault
    | none =>
      if let some keyword ← accept? .kwThis then
        return .this (← freshId) keyword
      else if let some token ← accept? .identifier then
        return .name (← freshId) token
      else if let some keyword ← accept? .kwSuper then
        let _ ← expect .dot .superDot
        let method ← expect .identifier .superclassMethodName
        return .super (← freshId) keyword method
      else if ← accept .leftParen then
        let inner ← assignment fuel
        let _ ← expect .rightParen .groupEnd
        return .grouping inner
      else
        fail (.expected .expression)

end

/-- Fuel for an expression: from one token to the next it takes fifteen calls at most, from an
expression through both calls of each level down to a primary in parentheses. -/
def expressionFuel (tokens : Nat) : Nat :=
  16 * (tokens + 1)

/-- An expression. -/
def expression : Parser Expr := do
  assignment (expressionFuel (← get).rest.length)

/-- An expression, unless the next token already closes its place. -/
def expressionBefore? (closing : TokenKind) : Parser (Option Expr) := do
  if ← check closing then return none else return some (← expression)

/-! ## Declarations and statements -/

/-- One or more parameters, after `count` others. -/
def parametersFrom : Nat → Nat → Parser (List Token)
  | 0, _ => exhausted
  | fuel + 1, count => do
    if parameterLimit ≤ count then
      report (← peek) .tooManyParameters
    let first ← expect .identifier .parameterName
    if ← accept .comma then
      return first :: (← parametersFrom fuel (count + 1))
    else
      return [first]

/-- The parameters between the parentheses of a declaration. -/
def parameters : Parser (List Token) := do
  if ← check .rightParen then return []
  else parametersFrom ((← get).rest.length + 1) 0

/-- A variable declaration after its keyword. -/
def variableDeclaration : Parser Stmt := do
  let name ← expect .identifier .variableName
  let initializer ← if ← accept .equal then some <$> expression else pure none
  let _ ← expect .semicolon .variableEnd
  return .varDecl name initializer

/-- A statement that is an expression. -/
def expressionStatement : Parser Stmt := do
  let value ← expression
  let _ ← expect .semicolon .expressionEnd
  return .expression value

/-- A `print` statement after its keyword. -/
def printStatement : Parser Stmt := do
  let value ← expression
  let _ ← expect .semicolon .printEnd
  return .print value

/-- A `return` statement after its keyword. -/
def returnStatement (keyword : Token) : Parser Stmt := do
  let value ← expressionBefore? .semicolon
  let _ ← expect .semicolon .returnEnd
  return .returnStmt keyword value

/-- The first clause of a `for` loop. -/
def forInitializer : Parser (Option Stmt) := do
  if ← accept .semicolon then return none
  else if ← accept .kwVar then return some (← variableDeclaration)
  else return some (← expressionStatement)

mutual

/-- One declaration.  A fault inside it is reported, and then there is none. -/
def declaration : Nat → Parser (Option Stmt)
  | 0 => exhausted
  | fuel + 1 => recovering do
    if ← accept .kwClass then classDeclaration fuel
    else if ← accept .kwFun then return .funDecl (← function fuel .function)
    else if ← accept .kwVar then variableDeclaration
    else statement fuel

/-- A class declaration after its keyword. -/
def classDeclaration : Nat → Parser Stmt
  | 0 => exhausted
  | fuel + 1 => do
    let name ← expect .identifier .className
    let superclass ←
      if ← accept .less then
        let token ← expect .identifier .superclassName
        pure (some (Expr.name (← freshId) token))
      else pure none
    let _ ← expect .leftBrace .classBodyStart
    let members ← methods fuel
    let _ ← expect .rightBrace .classBodyEnd
    return .classDecl name superclass members

/-- The methods up to the brace that closes a class. -/
def methods : Nat → Parser (List FunctionDecl)
  | 0 => exhausted
  | fuel + 1 => do
    if (← check .rightBrace) || (← atEnd) then return []
    else
      let first ← function fuel .method
      return first :: (← methods fuel)

/-- A function or a method from its name on. -/
def function : Nat → FunctionRole → Parser FunctionDecl
  | 0, _ => exhausted
  | fuel + 1, role => do
    let name ← expect .identifier (.functionName role)
    let _ ← expect .leftParen (.parametersStart role)
    let params ← parameters
    let _ ← expect .rightParen .parametersEnd
    let _ ← expect .leftBrace (.functionBodyStart role)
    let body ← block fuel
    return { name, parameters := params, body }

/-- The declarations of a block and the brace that closes it. -/
def block : Nat → Parser (List Stmt)
  | 0 => exhausted
  | fuel + 1 => do
    let body ← declarations fuel
    let _ ← expect .rightBrace .blockEnd
    return body

/-- The declarations up to the brace that closes a block. -/
def declarations : Nat → Parser (List Stmt)
  | 0 => exhausted
  | fuel + 1 => do
    if (← check .rightBrace) || (← atEnd) then return []
    else
      let first ← declaration fuel
      return first.toList ++ (← declarations fuel)

/-- A statement. -/
def statement : Nat → Parser Stmt
  | 0 => exhausted
  | fuel + 1 => do
    if ← accept .kwFor then
      let _ ← expect .leftParen .forStart
      let initializer ← forInitializer
      let condition ← expressionBefore? .semicolon
      let _ ← expect .semicolon .loopConditionEnd
      let increment ← expressionBefore? .rightParen
      let _ ← expect .rightParen .forClausesEnd
      return .forLoop initializer condition increment (← statement fuel)
    else if ← accept .kwIf then
      let _ ← expect .leftParen .ifStart
      let condition ← expression
      let _ ← expect .rightParen .ifConditionEnd
      let thenBranch ← statement fuel
      if ← accept .kwElse then
        return .ifElse condition thenBranch (← statement fuel)
      else
        return .ifThen condition thenBranch
    else if ← accept .kwPrint then printStatement
    else if let some keyword ← accept? .kwReturn then returnStatement keyword
    else if ← accept .kwWhile then
      let _ ← expect .leftParen .whileStart
      let condition ← expression
      let _ ← expect .rightParen .whileConditionEnd
      return .whileLoop condition (← statement fuel)
    else if ← accept .leftBrace then return .block (← block fuel)
    else expressionStatement

end

/-- All declarations. -/
def program : Nat → Parser (List Stmt)
  | 0 => exhausted
  | fuel + 1 => do
    if ← atEnd then return []
    else
      let first ← declaration fuel
      return first.toList ++ (← program fuel)

/-- Fuel for a program: from one token to the next it takes fewer than eight calls. -/
def programFuel (tokens : Nat) : Nat :=
  8 * (tokens + 1)

end Parser

/-! ## Programs -/

/-- What a list of tokens turns out to be. -/
inductive ParseOutcome where
  | program (statements : List Stmt)
  | rejected (faults : List Diagnostic)
  | exhausted
  deriving Inhabited

/-- The outcome of reading, and the first node number that it leaves unused. -/
structure Parse where
  outcome : ParseOutcome
  nextId : Nat
  deriving Inhabited

/-- The state before anything is read.  Only the tokens before the first closing one count. -/
def Cursor.start (tokens : List Token) (firstId : Nat) : Cursor where
  rest := tokens.takeWhile fun t => t.kind ≠ .endOfSource
  closing := (tokens.find? fun t => t.kind = .endOfSource).getD (Token.closing 1)
  nextId := firstId
  faults := #[]

/-- Read a program.  It has no statements to offer if there is any fault in it. -/
def parse (tokens : List Token) (firstId : Nat) : Parse :=
  let start := Cursor.start tokens firstId
  match Parser.program (Parser.programFuel start.rest.length) start with
  | .ok statements c =>
    { outcome := if c.faults.isEmpty then .program statements else .rejected c.faults.toList
      nextId := c.nextId }
  | .error (.fault d) c => { outcome := .rejected (c.faults.toList ++ [d]), nextId := c.nextId }
  | .error .exhausted c => { outcome := .exhausted, nextId := c.nextId }

end ClassScript
