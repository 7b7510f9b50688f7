import ClassScript.Tree.Parse

set_option autoImplicit false

/-!
# Reading a program in place

A program can be read without taking its list of tokens apart: a reader stands at a place in the
list and moves on by one token at a time.  Every token is fetched by its index, the one before the
reader too, and each index is checked; where there is no such token, reading stops for good.

The rules are those of `Parser`.  A part that may be missing is looked for by the kind of the next
token, and what was found is then the token before the reader.
-/

namespace ClassScript

/-- Where reading is in a list of tokens. -/
structure TokenReader where
  tokens : List Token
  /-- the index of the next token -/
  current : Nat
  /-- the indices that were the next one, the present one first -/
  trail : List Nat
  /-- the number for the next node that refers to a binding -/
  nextId : Nat
  /-- the diagnostics so far, in the order they were reported -/
  faults : Array Diagnostic

namespace TokenReader

/-- Reading starts at the first token. -/
def start (tokens : List Token) (firstId : Nat) : TokenReader where
  tokens
  current := 0
  trail := [0]
  nextId := firstId
  faults := #[]

/-- The same reader at another place. -/
def moveTo (r : TokenReader) (i : Nat) : TokenReader :=
  { r with current := i, trail := i :: r.trail }

/-- Why reading a part of the program stops. -/
inductive Stop where
  | fault (d : Diagnostic)
  /-- a token was asked for that the list does not have -/
  | outside
  | exhausted

end TokenReader

/-- A step of reading in place. -/
abbrev InPlace : Type → Type := EStateM TokenReader.Stop TokenReader

namespace InPlace

open ClassScript.Parser (Level constant? expressionFuel programFuel startsStatement)

/-! ## Looking and moving -/

/-- The token with an index. -/
def token (i : Nat) : InPlace Token := do
  match (← get).tokens[i]? with
  | some t => return t
  | none => throw .outside

/-- The next token. -/
def peek : InPlace Token := do
  token (← get).current

/-- The token before the next one. -/
def previous : InPlace Token := do
  match (← get).current with
  | 0 => throw .outside
  | i + 1 => token i

/-- Whether the next token is a closing one. -/
def atEnd : InPlace Bool := do
  return (← peek).kind = .endOfSource

/-- Move behind the next token, unless it is a closing one. -/
def advance : InPlace Token := do
  if ← atEnd then pure ()
  else modify fun r => r.moveTo (r.current + 1)
  previous

/-- Whether the next token has a given kind. -/
def check (kind : TokenKind) : InPlace Bool := do
  if ← atEnd then return false
  else return (← peek).kind = kind

/-- Move behind the next token if its kind is among the given ones, and tell whether it was. -/
def matchAny? : List TokenKind → InPlace Bool
  | [] => return false
  | kind :: kinds => do
    if ← check kind then
      let _ ← advance
      return true
    else matchAny? kinds

/-- Move behind the next token if it has a given kind, and tell whether it had. -/
def match? (kind : TokenKind) : InPlace Bool :=
  matchAny? [kind]

/-- Stop with a fault at a token. -/
def fail {α : Type} (t : Token) (fault : GrammarFault) : InPlace α :=
  throw (.fault (.grammar t fault))

/-- Stop because the fuel is gone. -/
def exhausted {α : Type} : InPlace α :=
  throw .exhausted

/-- Report a fault and go on. -/
def report (t : Token) (fault : GrammarFault) : InPlace Unit :=
  modify fun r => { r with faults := r.faults.push (.grammar t fault) }

/-- Move behind a token of a given kind, or stop. -/
def consume (kind : TokenKind) (what : Expected) : InPlace Token := do
  if ← check kind then advance
  else fail (← peek) (.expected what)

/-- A number that no other node has. -/
def freshId : InPlace Nat :=
  modifyGet fun r => (r.nextId, { r with nextId := r.nextId + 1 })

/-- How many tokens there are up to the next closing one.  They bound the fuel for what is left. -/
def remaining : InPlace Nat := do
  let r ← get
  return ((r.tokens.drop r.current).takeWhile fun t => t.kind ≠ .endOfSource).length

/-! ## Recovery -/

/-- Move to a token that starts a statement or follows a semicolon. -/
def skip : Nat → InPlace Unit
  | 0 => exhausted
  | fuel + 1 => do
    if ← atEnd then return
    else if (← previous).kind = .semicolon then return
    else if startsStatement (← peek).kind then return
    else
      let _ ← advance
      skip fuel

/-- Move behind the token at which a fault was found, and on to the next boundary. -/
def synchronize : InPlace Unit := do
  let _ ← advance
  skip ((← remaining) + 1)

/-- Run a step; if it stops with a fault, report that and go on after the next boundary. -/
def recovering {α : Type} (step : InPlace α) : InPlace (Option α) := fun r =>
  match step r with
  | .ok a r => .ok (some a) r
  | .error (.fault d) r =>
    (do synchronize; return none) { r with faults := r.faults.push d }
  | .error stop r => .error stop r

/-! ## Expressions -/

mutual

/-- An expression: an assignment or a binary expression. -/
def assignment : Nat → InPlace Expr
  | 0 => exhausted
  | fuel + 1 => do
    let target ← binary fuel .or
    if ← match? .equal then
      let equals ← previous
      let value ← assignment fuel
      match target with
      | .name _ token => return .assign (← freshId) token value
      | .get object property => return .set object property value
      | other =>
        report equals .invalidAssignmentTarget
        return other
    else return target

/-- A binary expression of a level. -/
def binary : Nat → Level → InPlace Expr
  | 0, _ => exhausted
  | fuel + 1, level => do
    let left ← operand fuel level
    binaryRest fuel level left

/-- The operators of a level that follow a left operand, each with its right operand. -/
def binaryRest : Nat → Level → Expr → InPlace Expr
  | 0, _, _ => exhausted
  | fuel + 1, level, left => do
    if ← matchAny? level.operators then
      let operator ← previous
      let right ← operand fuel level
      binaryRest fuel level (level.join left operator right)
    else return left

/-- An operand of a level. -/
def operand : Nat → Level → InPlace Expr
  | 0, _ => exhausted
  | fuel + 1, level =>
    match level.tighter? with
    | some tighter => binary fuel tighter
    | none => unary fuel

/-- Any number of unary operators before a call. -/
def unary : Nat → InPlace Expr
  | 0 => exhausted
  | fuel + 1 => do
    if ← matchAny? [.bang, .minus] then
      let operator ← previous
      return .unary operator (← unary fuel)
    else callRest fuel (← primary fuel)

/-- The arguments and properties that follow a callee or an object. -/
def callRest : Nat → Expr → InPlace Expr
  | 0, _ => exhausted
  | fuel + 1, head => do
    if ← match? .leftParen then
      let values ← if ← check .rightParen then pure [] else arguments fuel 0
      let closing ← consume .rightParen .argumentsEnd
      callRest fuel (.call head closing values)
    else if ← match? .dot then
      let property ← consume .identifier .propertyName
      callRest fuel (.get head property)
    else
      return head

/-- One or more arguments, after `count` others. -/
def arguments : Nat → Nat → InPlace (List Expr)
  | 0, _ => exhausted
  | fuel + 1, count => do
    if parameterLimit ≤ count then
      report (← peek) .tooManyArguments
    let first ← assignment fuel
    if ← match? .comma then
      return first :: (← arguments fuel (count + 1))
    else
      return [first]

/-- A constant, a reference, or an expression in parentheses. -/
def primary : Nat → InPlace Expr
  | 0 => exhausted
  | fuel + 1 => do
    let t ← peek
    match constant? t with
    | some (.ok value) =>
      let _ ← advance
      return .constant value
    | some (.error fault) => fail t fault
    | none =>
      if t.kind = .kwThis then
        let keyword ← advance
        return .this (← freshId) keyword
      else if t.kind = .identifier then
        let name ← advance
        return .name (← freshId) name
      else if t.kind = .kwSuper then
        let keyword ← advance
        let _ ← consume .dot .superDot
        let method ← consume .identifier .superclassMethodName
        return .super (← freshId) keyword method
      else if t.kind = .leftParen then
        let _ ← advance
        let inner ← assignment fuel
        let _ ← consume .rightParen .groupEnd
        return .grouping inner
      else fail t (.expected .expression)

end

/-- An expression. -/
def expression : InPlace Expr := do
  assignment (expressionFuel (← remaining))

/-- An expression, unless the next token already closes its place. -/
def expressionBefore? (closing : TokenKind) : InPlace (Option Expr) := do
  if ← check closing then return none else return some (← expression)

/-! ## Declarations and statements -/

/-- One or more parameters, after `count` others. -/
def parametersFrom : Nat → Nat → InPlace (List Token)
  | 0, _ => exhausted
  | fuel + 1, count => do
    if parameterLimit ≤ count then
      report (← peek) .tooManyParameters
    let first ← consume .identifier .parameterName
    if ← match? .comma then
      return first :: (← parametersFrom fuel (count + 1))
    else
      return [first]

/-- The parameters between the parentheses of a declaration. -/
def parameters : InPlace (List Token) := do
  if ← check .rightParen then return []
  else parametersFrom ((← remaining) + 1) 0

/-- A variable declaration after its keyword. -/
def variableDeclaration : InPlace Stmt := do
  let name ← consume .identifier .variableName
  let initializer ← if ← match? .equal then some <$> expression else pure none
  let _ ← consume .semicolon .variableEnd
  return .varDecl name initializer

/-- A statement that is an expression. -/
def expressionStatement : InPlace Stmt := do
  let value ← expression
  let _ ← consume .semicolon .expressionEnd
  return .expression value

/-- A `print` statement after its keyword. -/
def printStatement : InPlace Stmt := do
  let value ← expression
  let _ ← consume .semicolon .printEnd
  return .print value

/-- A `return` statement after its keyword. -/
def returnStatement : InPlace Stmt := do
  let keyword ← previous
  let value ← expressionBefore? .semicolon
  let _ ← consume .semicolon .returnEnd
  return .returnStmt keyword value

/-- The first clause of a `for` loop. -/
def forInitializer : InPlace (Option Stmt) := do
  if ← match? .semicolon then return none
  else if ← match? .kwVar then return some (← variableDeclaration)
  else return some (← expressionStatement)

mutual

/-- One declaration.  A fault inside it is reported, and then there is none. -/
def declaration : Nat → InPlace (Option Stmt)
  | 0 => exhausted
  | fuel + 1 => recovering do
    if ← match? .kwClass then classDeclaration fuel
    else if ← match? .kwFun then return .funDecl (← function fuel .function)
    else if ← match? .kwVar then variableDeclaration
    else statement fuel

/-- A class declaration after its keyword. -/
def classDeclaration : Nat → InPlace Stmt
  | 0 => exhausted
  | fuel + 1 => do
    let name ← consume .identifier .className
    let superclass ←
      if ← match? .less then
        let token ← consume .identifier .superclassName
        pure (some (Expr.name (← freshId) token))
      else pure none
    let _ ← consume .leftBrace .classBodyStart
    let members ← methods fuel
    let _ ← consume .rightBrace .classBodyEnd
    return .classDecl name superclass members

/-- The methods up to the brace that closes a class. -/
def methods : Nat → InPlace (List FunctionDecl)
  | 0 => exhausted
  | fuel + 1 => do
    if (← check .rightBrace) || (← atEnd) then return []
    else
      let first ← function fuel .method
      return first :: (← methods fuel)

/-- A function or a method from its name on. -/
def function : Nat → FunctionRole → InPlace FunctionDecl
  | 0, _ => exhausted
  | fuel + 1, role => do
    let name ← consume .identifier (.functionName role)
    let _ ← consume .leftParen (.parametersStart role)
    let params ← parameters
    let _ ← consume .rightParen .parametersEnd
    let _ ← consume .leftBrace (.functionBodyStart role)
    let body ← block fuel
    return { name, parameters := params, body }

/-- The declarations of a block and the brace that closes it. -/
def block : Nat → InPlace (List Stmt)
  | 0 => exhausted
  | fuel + 1 => do
    let body ← declarations fuel
    let _ ← consume .rightBrace .blockEnd
    return body

/-- The declarations up to the brace that closes a block. -/
def declarations : Nat → InPlace (List Stmt)
  | 0 => exhausted
  | fuel + 1 => do
    if (← check .rightBrace) || (← atEnd) then return []
    else
      let first ← declaration fuel
      return first.toList ++ (← declarations fuel)

/-- A statement. -/
def statement : Nat → InPlace Stmt
  | 0 => exhausted
  | fuel + 1 => do
    if ← match? .kwFor then
      let _ ← consume .leftParen .forStart
      let initializer ← forInitializer
      let condition ← expressionBefore? .semicolon
      let _ ← consume .semicolon .loopConditionEnd
      let increment ← expressionBefore? .rightParen
      let _ ← consume .rightParen .forClausesEnd
      return .forLoop initializer condition increment (← statement fuel)
    else if ← match? .kwIf then
      let _ ← consume .leftParen .ifStart
      let condition ← expression
      let _ ← consume .rightParen .ifConditionEnd
      let thenBranch ← statement fuel
      if ← match? .kwElse then
        return .ifElse condition thenBranch (← statement fuel)
      else
        return .ifThen condition thenBranch
    else if ← match? .kwPrint then printStatement
    else if ← match? .kwReturn then returnStatement
    else if ← match? .kwWhile then
      let _ ← consume .leftParen .whileStart
      let condition ← expression
      let _ ← consume .rightParen .whileConditionEnd
      return .whileLoop condition (← statement fuel)
    else if ← match? .leftBrace then return .block (← block fuel)
    else expressionStatement

end

/-- All declarations. -/
def declarationsToEnd : Nat → InPlace (List Stmt)
  | 0 => exhausted
  | fuel + 1 => do
    if ← atEnd then return []
    else
      let first ← declaration fuel
      return first.toList ++ (← declarationsToEnd fuel)

/-- Read a program.  It has no statements to offer if there is any fault in it. -/
def program : InPlace ParseOutcome := do
  let statements ← declarationsToEnd (programFuel (← remaining))
  let r ← get
  return if r.faults.isEmpty then .program statements else .rejected r.faults.toList

end InPlace

end ClassScript
