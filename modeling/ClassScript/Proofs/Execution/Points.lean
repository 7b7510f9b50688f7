import ClassScript.Evaluation.Evaluate
import ClassScript.Proofs.Binding.Visits

set_option autoImplicit false

/-!
# Points of an execution

A point is one activation of the interpreter: what it is about to do, in which state, and with how
much fuel.  From a point others are called, one for each recursive call, in the state that the parts
before it left.  A point also opens scopes, each for a construct of the program.
-/

namespace ClassScript

open Eval

/-- What an activation of the interpreter does. -/
inductive Activity where
  | evaluate (e : Expr)
  | evaluateAll (es : List Expr)
  | call (callee : Value) (values : List Value) (line : Nat)
  | invoke (f : Closure) (values : List Value)
  | execute (s : Stmt)
  | executeAll (ss : List Stmt)
  | repeatWhile (condition : Expr) (body : Stmt)

/-- An activation of the interpreter. -/
structure Point where
  fuel : Nat
  task : Activity
  state : State

/-- The first point calls the second. -/
inductive Calls : Point → Point → Prop where
  | grouping (fuel : Nat) (inner : Expr) (σ : State) :
      Calls ⟨fuel + 1, .evaluate (.grouping inner), σ⟩ ⟨fuel, .evaluate inner, σ⟩
  | operand (fuel : Nat) (operator : Token) (operand : Expr) (σ : State) :
      Calls ⟨fuel + 1, .evaluate (.unary operator operand), σ⟩ ⟨fuel, .evaluate operand, σ⟩
  | binaryLeft (fuel : Nat) (left : Expr) (operator : Token) (right : Expr) (σ : State) :
      Calls ⟨fuel + 1, .evaluate (.binary left operator right), σ⟩ ⟨fuel, .evaluate left, σ⟩
  | binaryRight {fuel : Nat} {left right : Expr} {operator : Token} {σ σ₁ : State} {a : Value}
      (first : evaluate fuel left σ = .ok a σ₁) :
      Calls ⟨fuel + 1, .evaluate (.binary left operator right), σ⟩ ⟨fuel, .evaluate right, σ₁⟩
  | logicalLeft (fuel : Nat) (left : Expr) (operator : Token) (right : Expr) (σ : State) :
      Calls ⟨fuel + 1, .evaluate (.logical left operator right), σ⟩ ⟨fuel, .evaluate left, σ⟩
  | logicalRight {fuel : Nat} {left right : Expr} {operator : Token} {σ σ₁ : State} {a : Value}
      (first : evaluate fuel left σ = .ok a σ₁) (undecided : decides operator a = false) :
      Calls ⟨fuel + 1, .evaluate (.logical left operator right), σ⟩ ⟨fuel, .evaluate right, σ₁⟩
  | assigned (fuel id : Nat) (target : Token) (value : Expr) (σ : State) :
      Calls ⟨fuel + 1, .evaluate (.assign id target value), σ⟩ ⟨fuel, .evaluate value, σ⟩
  | callee (fuel : Nat) (callee : Expr) (closing : Token) (arguments : List Expr) (σ : State) :
      Calls ⟨fuel + 1, .evaluate (.call callee closing arguments), σ⟩
        ⟨fuel, .evaluate callee, σ⟩
  | arguments {fuel : Nat} {callee : Expr} {closing : Token} {arguments : List Expr}
      {σ σ₁ : State} {f : Value} (first : evaluate fuel callee σ = .ok f σ₁) :
      Calls ⟨fuel + 1, .evaluate (.call callee closing arguments), σ⟩
        ⟨fuel, .evaluateAll arguments, σ₁⟩
  | call {fuel : Nat} {callee : Expr} {closing : Token} {arguments : List Expr}
      {σ σ₁ σ₂ : State} {f : Value} {values : List Value}
      (first : evaluate fuel callee σ = .ok f σ₁)
      (second : evaluateAll fuel arguments σ₁ = .ok values σ₂) :
      Calls ⟨fuel + 1, .evaluate (.call callee closing arguments), σ⟩
        ⟨fuel, .call f values closing.line, σ₂⟩
  | readObject (fuel : Nat) (object : Expr) (name : Token) (σ : State) :
      Calls ⟨fuel + 1, .evaluate (.get object name), σ⟩ ⟨fuel, .evaluate object, σ⟩
  | setObject (fuel : Nat) (object : Expr) (name : Token) (value : Expr) (σ : State) :
      Calls ⟨fuel + 1, .evaluate (.set object name value), σ⟩ ⟨fuel, .evaluate object, σ⟩
  | setValue {fuel : Nat} {object value : Expr} {name : Token} {σ σ₁ : State} {o : Object}
      (first : evaluate fuel object σ = .ok (.object o) σ₁) :
      Calls ⟨fuel + 1, .evaluate (.set object name value), σ⟩ ⟨fuel, .evaluate value, σ₁⟩
  | head (fuel : Nat) (e : Expr) (es : List Expr) (σ : State) :
      Calls ⟨fuel + 1, .evaluateAll (e :: es), σ⟩ ⟨fuel, .evaluate e, σ⟩
  | tail {fuel : Nat} {e : Expr} {es : List Expr} {σ σ₁ : State} {a : Value}
      (first : evaluate fuel e σ = .ok a σ₁) :
      Calls ⟨fuel + 1, .evaluateAll (e :: es), σ⟩ ⟨fuel, .evaluateAll es, σ₁⟩
  | function {fuel serial line : Nat} {f : Closure} {values : List Value} {σ : State}
      (arity : values.length = f.arity) :
      Calls ⟨fuel + 1, .call (.function serial f) values line, σ⟩ ⟨fuel, .invoke f values, σ⟩
  | method {fuel serial line : Nat} {f : Closure} {values : List Value} {σ : State}
      (arity : values.length = f.arity) :
      Calls ⟨fuel + 1, .call (.bound serial f) values line, σ⟩ ⟨fuel, .invoke f values, σ⟩
  | initializer {fuel line : Nat} {c : Class} {values : List Value} {σ σ₁ σ₂ : State}
      {o : Object} {method f : Closure} (arity : values.length = c.arity)
      (made : allocate c σ = .ok o σ₁) (found : c.findMethod? initializerName = some method)
      (received : receive method o σ₁ = .ok f σ₂) :
      Calls ⟨fuel + 1, .call (.ofClass c) values line, σ⟩ ⟨fuel, .invoke f values, σ₂⟩
  | body {fuel scope : Nat} {f : Closure} {values : List Value} {σ σ₁ : State}
      (entered : openScope (Bindings.ofPairs
        ((f.declaration.parameters.map Token.lexeme).zip values)) f.scope σ = .ok scope σ₁) :
      Calls ⟨fuel + 1, .invoke f values, σ⟩
        ⟨fuel, .executeAll f.declaration.body, { σ₁ with current := scope }⟩
  | expression (fuel : Nat) (value : Expr) (σ : State) :
      Calls ⟨fuel + 1, .execute (.expression value), σ⟩ ⟨fuel, .evaluate value, σ⟩
  | print (fuel : Nat) (value : Expr) (σ : State) :
      Calls ⟨fuel + 1, .execute (.print value), σ⟩ ⟨fuel, .evaluate value, σ⟩
  | varDecl (fuel : Nat) (name : Token) (e : Expr) (σ : State) :
      Calls ⟨fuel + 1, .execute (.varDecl name (some e)), σ⟩ ⟨fuel, .evaluate e, σ⟩
  | block {fuel scope : Nat} {body : List Stmt} {σ σ₁ : State}
      (entered : openScope [] σ.current σ = .ok scope σ₁) :
      Calls ⟨fuel + 1, .execute (.block body), σ⟩
        ⟨fuel, .executeAll body, { σ₁ with current := scope }⟩
  | ifThenCondition (fuel : Nat) (condition : Expr) (thenBranch : Stmt) (σ : State) :
      Calls ⟨fuel + 1, .execute (.ifThen condition thenBranch), σ⟩
        ⟨fuel, .evaluate condition, σ⟩
  | ifThen {fuel : Nat} {condition : Expr} {thenBranch : Stmt} {σ σ₁ : State} {a : Value}
      (first : evaluate fuel condition σ = .ok a σ₁) (holds : a.isTruthy = true) :
      Calls ⟨fuel + 1, .execute (.ifThen condition thenBranch), σ⟩
        ⟨fuel, .execute thenBranch, σ₁⟩
  | ifElseCondition (fuel : Nat) (condition : Expr) (thenBranch elseBranch : Stmt) (σ : State) :
      Calls ⟨fuel + 1, .execute (.ifElse condition thenBranch elseBranch), σ⟩
        ⟨fuel, .evaluate condition, σ⟩
  | thenBranch {fuel : Nat} {condition : Expr} {thenBranch elseBranch : Stmt} {σ σ₁ : State}
      {a : Value} (first : evaluate fuel condition σ = .ok a σ₁) (holds : a.isTruthy = true) :
      Calls ⟨fuel + 1, .execute (.ifElse condition thenBranch elseBranch), σ⟩
        ⟨fuel, .execute thenBranch, σ₁⟩
  | elseBranch {fuel : Nat} {condition : Expr} {thenBranch elseBranch : Stmt} {σ σ₁ : State}
      {a : Value} (first : evaluate fuel condition σ = .ok a σ₁) (fails : a.isTruthy = false) :
      Calls ⟨fuel + 1, .execute (.ifElse condition thenBranch elseBranch), σ⟩
        ⟨fuel, .execute elseBranch, σ₁⟩
  | whileLoop (fuel : Nat) (condition : Expr) (body : Stmt) (σ : State) :
      Calls ⟨fuel + 1, .execute (.whileLoop condition body), σ⟩
        ⟨fuel, .repeatWhile condition body, σ⟩
  | returned (fuel : Nat) (keyword : Token) (e : Expr) (σ : State) :
      Calls ⟨fuel + 1, .execute (.returnStmt keyword (some e)), σ⟩ ⟨fuel, .evaluate e, σ⟩
  | superclass (fuel : Nat) (name : Token) (e : Expr) (methods : List FunctionDecl) (σ : State) :
      Calls ⟨fuel + 1, .execute (.classDecl name (some e) methods), σ⟩ ⟨fuel, .evaluate e, σ⟩
  | first (fuel : Nat) (s : Stmt) (ss : List Stmt) (σ : State) :
      Calls ⟨fuel + 1, .executeAll (s :: ss), σ⟩ ⟨fuel, .execute s, σ⟩
  | rest {fuel : Nat} {s : Stmt} {ss : List Stmt} {σ σ₁ : State}
      (first : execute fuel s σ = .ok .normal σ₁) :
      Calls ⟨fuel + 1, .executeAll (s :: ss), σ⟩ ⟨fuel, .executeAll ss, σ₁⟩
  | condition (fuel : Nat) (condition : Expr) (body : Stmt) (σ : State) :
      Calls ⟨fuel + 1, .repeatWhile condition body, σ⟩ ⟨fuel, .evaluate condition, σ⟩
  | round {fuel : Nat} {condition : Expr} {body : Stmt} {σ σ₁ : State} {a : Value}
      (first : evaluate fuel condition σ = .ok a σ₁) (holds : a.isTruthy = true) :
      Calls ⟨fuel + 1, .repeatWhile condition body, σ⟩ ⟨fuel, .execute body, σ₁⟩
  | again {fuel : Nat} {condition : Expr} {body : Stmt} {σ σ₁ σ₂ : State} {a : Value}
      (first : evaluate fuel condition σ = .ok a σ₁) (holds : a.isTruthy = true)
      (second : execute fuel body σ₁ = .ok .normal σ₂) :
      Calls ⟨fuel + 1, .repeatWhile condition body, σ⟩ ⟨fuel, .repeatWhile condition body, σ₂⟩

/-- The statements of a program that are executed, each in the state that those before it left. -/
inductive Starts (fuel : Nat) : List Stmt → State → Point → Prop where
  | here (s : Stmt) (ss : List Stmt) (σ : State) : Starts fuel (s :: ss) σ ⟨fuel, .execute s, σ⟩
  | later {s : Stmt} {ss : List Stmt} {σ σ₁ : State} {flow : Flow} {p : Point}
      (first : execute fuel s σ = .ok flow σ₁) (rest : Starts fuel ss σ₁ p) :
      Starts fuel (s :: ss) σ p

/-- At a point, a method is bound to a receiver in a state. -/
inductive Receives : Point → State → Closure → Prop where
  | property {fuel : Nat} {object : Expr} {name : Token} {σ σ₁ : State} {o : Object}
      {method : Closure} (first : evaluate fuel object σ = .ok (.object o) σ₁)
      (missing : σ₁.field? o name.lexeme = none)
      (found : o.type.findMethod? name.lexeme = some method) :
      Receives ⟨fuel + 1, .evaluate (.get object name), σ⟩ σ₁ method
  | superMethod {fuel id nearer : Nat} {keyword name : Token} {σ : State} {c : Class}
      {o : Object} {method : Closure} (recorded : σ.distances.get? id = some (nearer + 1))
      (superclass : σ.scopes.getAt? σ.current (nearer + 1) keyword.lexeme = some (.ofClass c))
      (receiver : σ.scopes.getAt? σ.current nearer "this" = some (.object o))
      (found : c.findMethod? name.lexeme = some method) :
      Receives ⟨fuel + 1, .evaluate (.super id keyword name), σ⟩ σ method
  | initializer {fuel line : Nat} {c : Class} {values : List Value} {σ σ₁ : State} {o : Object}
      {method : Closure} (arity : values.length = c.arity) (made : allocate c σ = .ok o σ₁)
      (found : c.findMethod? initializerName = some method) :
      Receives ⟨fuel + 1, .call (.ofClass c) values line, σ⟩ σ₁ method

/-- A point opens a scope, known by its number, for a construct.  The number is that of the next
scope in the state in which it is opened. -/
inductive Opens : Point → Nat → Site → Prop where
  | block (fuel : Nat) (body : List Stmt) (σ : State) :
      Opens ⟨fuel + 1, .execute (.block body), σ⟩ σ.scopes.size (.block body)
  | body (fuel : Nat) (f : Closure) (values : List Value) (σ : State) :
      Opens ⟨fuel + 1, .invoke f values, σ⟩ σ.scopes.size (.body f.declaration)
  | receiver {p : Point} {σ : State} {method : Closure} {methods : List FunctionDecl}
      (receives : Receives p σ method) (declared : method.declaration ∈ methods) :
      Opens p σ.scopes.size (.this methods)
  | superclass {fuel : Nat} {name : Token} {e : Expr} {methods : List FunctionDecl}
      {σ σ₁ : State} {c : Class} (first : evaluate fuel e σ = .ok (.ofClass c) σ₁) :
      Opens ⟨fuel + 1, .execute (.classDecl name (some e) methods), σ⟩ σ₁.scopes.size
        (.super methods)

end ClassScript
