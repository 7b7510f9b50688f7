import ClassScript.Binding.Distances
import ClassScript.Diagnostic

set_option autoImplicit false

/-!
# Binding names to scopes

One walk over a program finds, for every reference to a local binding, how many scopes lie between
the two, and reports every place where the program breaks a rule of declaration or position.  A
fault stops nothing: the walk goes on, and the distances found before and after it stay recorded.

Scopes are opened by blocks, by the bodies of functions and methods, by classes (for `this`) and by
subclasses (for `super`).  The global scope is not among them: what no open scope declares is looked
up by name when it is used.
-/

namespace ClassScript

/-! ## Scopes -/

/-- Whether a name can be used already.  Between the two stages lies its own initializer. -/
inductive Stage where
  | declared
  | defined
  deriving DecidableEq, Repr

/-- The names of one scope, the latest entry of a name first. -/
abbrev Frame : Type := List (String × Stage)

/-- How many scopes out a name is declared, the innermost scope being none. -/
def distance? (name : String) : List Frame → Option Nat
  | [] => none
  | frame :: outer =>
    if (frame.lookup name).isSome then some 0 else (distance? name outer).map (· + 1)

/-! ## Positions -/

/-- The innermost function around a place. -/
inductive FunctionPosition where
  | outside
  | function
  | initializer
  | method
  deriving DecidableEq, Repr

/-- The innermost class around a place. -/
inductive ClassPosition where
  | outside
  | rootClass
  | subclass
  deriving DecidableEq, Repr

/-- What surrounds a place of the program. -/
structure Position where
  inFunction : FunctionPosition
  inClass : ClassPosition
  deriving DecidableEq, Repr

/-- Outside of every function and class. -/
def Position.top : Position := { inFunction := .outside, inClass := .outside }

/-! ## The walk -/

/-- How far the walk has come. -/
structure Resolution where
  /-- The open scopes, innermost first. -/
  scopes : List Frame
  distances : Distances
  faults : Array Diagnostic

namespace Resolution

/-- Report a fault at a token. -/
def report (r : Resolution) (token : Token) (fault : BindingFault) : Resolution :=
  { r with faults := r.faults.push (.binding token fault) }

/-- Report a fault if a condition holds. -/
def reportIf (r : Resolution) (condition : Bool) (token : Token) (fault : BindingFault) :
    Resolution :=
  if condition then r.report token fault else r

/-- Open a scope. -/
def enter (r : Resolution) (frame : Frame) : Resolution :=
  { r with scopes := frame :: r.scopes }

/-- Close the innermost scope. -/
def leave (r : Resolution) : Resolution :=
  { r with scopes := r.scopes.tail }

/-- Put a name into the innermost scope, if one is open. -/
def put (r : Resolution) (name : String) (stage : Stage) : Resolution :=
  match r.scopes with
  | [] => r
  | frame :: outer => { r with scopes := ((name, stage) :: frame) :: outer }

/-- What the innermost scope says about a name. -/
def stage? (r : Resolution) (name : String) : Option Stage :=
  (r.scopes.head?.getD []).lookup name

/-- Declare a name, which its scope must not hold yet. -/
def declare (r : Resolution) (name : Token) : Resolution :=
  if (r.stage? name.lexeme).isSome then r.report name .alreadyDeclared
  else r.put name.lexeme .declared

/-- A declared name can be used from here on. -/
def define (r : Resolution) (name : Token) : Resolution :=
  r.put name.lexeme .defined

/-- Record the distance of a reference, if an open scope declares what it refers to. -/
def record (r : Resolution) (id : Nat) (token : Token) : Resolution :=
  match distance? token.lexeme r.scopes with
  | some distance => { r with distances := r.distances.insert id distance }
  | none => r

end Resolution

open Resolution

mutual

/-- Bind the references of an expression: an assigned or set value before its target. -/
def Expr.resolve (position : Position) : Expr → Resolution → Resolution
  | .constant _, r => r
  | .unary _ operand, r => operand.resolve position r
  | .binary left _ right, r => right.resolve position (left.resolve position r)
  | .grouping inner, r => inner.resolve position r
  | .name id token, r =>
    (r.reportIf (r.stage? token.lexeme = some .declared) token .readInOwnInitializer).record
      id token
  | .assign id target value, r => (value.resolve position r).record id target
  | .logical left _ right, r => right.resolve position (left.resolve position r)
  | .call callee _ arguments, r => Expr.resolveAll position arguments (callee.resolve position r)
  | .get object _, r => object.resolve position r
  | .set object _ value, r => object.resolve position (value.resolve position r)
  | .this id keyword, r =>
    match position.inClass with
    | .outside => r.report keyword .thisOutsideClass
    | _ => r.record id keyword
  | .super id keyword _, r =>
    let checked :=
      match position.inClass with
      | .outside => r.report keyword .superOutsideClass
      | .rootClass => r.report keyword .superWithoutSuperclass
      | .subclass => r
    checked.record id keyword

/-- Bind the references of expressions, in reading order. -/
def Expr.resolveAll (position : Position) : List Expr → Resolution → Resolution
  | [], r => r
  | e :: es, r => Expr.resolveAll position es (e.resolve position r)

end

/-- Bind the references of a part that may be absent. -/
def Expr.resolveOption (position : Position) : Option Expr → Resolution → Resolution
  | some e, r => e.resolve position r
  | none, r => r

/-- The token of a superclass that is given by name. -/
def Expr.nameToken? : Expr → Option Token
  | .name _ token => some token
  | _ => none

/-- Declare the parameters of a function, one after the other. -/
def Resolution.declareAll : List Token → Resolution → Resolution
  | [], r => r
  | p :: ps, r => Resolution.declareAll ps ((r.declare p).define p)

/-- The check that a class does not name itself as its superclass. -/
def Resolution.checkSelfInheritance (name : Token) (superclass : Expr) (r : Resolution) :
    Resolution :=
  match superclass.nameToken? with
  | some token => r.reportIf (token.lexeme = name.lexeme) token .selfInheritance
  | none => r

mutual

/-- Bind the references of a statement and declare its names. -/
def Stmt.resolve (position : Position) : Stmt → Resolution → Resolution
  | .expression value, r => value.resolve position r
  | .print value, r => value.resolve position r
  | .varDecl name initializer, r =>
    (Expr.resolveOption position initializer (r.declare name)).define name
  | .block body, r => (Stmt.resolveAll position body (r.enter [])).leave
  | .ifThen condition thenBranch, r =>
    thenBranch.resolve position (condition.resolve position r)
  | .ifElse condition thenBranch elseBranch, r =>
    elseBranch.resolve position
      (thenBranch.resolve position (condition.resolve position r))
  | .whileLoop condition body, r => body.resolve position (condition.resolve position r)
  | .funDecl declaration, r =>
    declaration.resolve { position with inFunction := .function }
      ((r.declare declaration.name).define declaration.name)
  | .returnStmt keyword value, r =>
    let checked := r.reportIf (position.inFunction = .outside) keyword .returnOutsideFunction
    match value with
    | some e =>
      e.resolve position
        (checked.reportIf (position.inFunction = .initializer) keyword .valueFromInitializer)
    | none => checked
  | .classDecl name superclass methods, r =>
    let declared := (r.declare name).define name
    match superclass with
    | some e =>
      let outside := e.resolve position (declared.checkSelfInheritance name e)
      let inside := (outside.enter [("super", .defined)]).enter [("this", .defined)]
      (FunctionDecl.resolveAll { position with inClass := .subclass } methods inside).leave.leave
    | none =>
      let inside := declared.enter [("this", .defined)]
      (FunctionDecl.resolveAll { position with inClass := .rootClass } methods inside).leave

/-- Bind the references of statements, each in the scopes that those before it left. -/
def Stmt.resolveAll (position : Position) : List Stmt → Resolution → Resolution
  | [], r => r
  | s :: ss, r => Stmt.resolveAll position ss (s.resolve position r)

/-- Bind the references of a body, in a scope that holds the parameters. -/
def FunctionDecl.resolve (position : Position) : FunctionDecl → Resolution → Resolution
  | ⟨_, parameters, body⟩, r =>
    (Stmt.resolveAll position body (Resolution.declareAll parameters (r.enter []))).leave

/-- Bind the references of methods.  The one that makes instances must not return a value. -/
def FunctionDecl.resolveAll (position : Position) : List FunctionDecl → Resolution → Resolution
  | [], r => r
  | d :: ds, r =>
    let kind := if d.isInitializer then .initializer else .method
    FunctionDecl.resolveAll position ds (d.resolve { position with inFunction := kind } r)

end

/-- The distances that a program adds to a table, and its faults in the order of the walk. -/
def resolve (program : List Stmt) (distances : Distances) : Distances × List Diagnostic :=
  let r := Stmt.resolveAll Position.top program { scopes := [], distances, faults := #[] }
  (r.distances, r.faults.toList)

end ClassScript
