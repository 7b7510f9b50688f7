import ClassScript.Binding.Resolve
import ClassScript.Evaluation.Evaluate
import ClassScript.Token.Scan
import ClassScript.Tree.Parse
import ClassScript.Tree.Walk

set_option autoImplicit false

/-!
# Sessions

A session runs one source after another.  Globals, instances and everything reachable from them
stay from one source to the next, and so do the recorded distances, since functions of earlier
sources may still be called.  A source runs only if it has no static fault; what its reading and
binding left in the session then does no harm, because every node number is used once.
-/

namespace ClassScript

/-! ## Sessions -/

/-- A running session. -/
structure Session where
  state : State
  /-- The first node number that no tree has. -/
  nextId : Nat

/-- How running a source ends. -/
inductive Outcome where
  | finished
  /-- nothing ran, because of these faults -/
  | rejected (faults : List Diagnostic)
  | failed (e : RuntimeError)
  /-- more steps were needed than allowed -/
  | outOfFuel
  /-- the tree is none that reading a source makes -/
  | malformed

namespace Outcome

/-- The outcome of a run that stopped early. -/
def ofInterrupt : Interrupt → Outcome
  | .error e => failed e
  | .outOfFuel => outOfFuel
  | .malformed => malformed

/-- The code with which a command ends: bad input and failed runs are told apart. -/
def exitCode : Outcome → Nat
  | finished => 0
  | rejected _ => 65
  | failed _ => 70
  | outOfFuel => 70
  | malformed => 70

/-- The outcome in one line. -/
def summary : Outcome → String
  | finished => ""
  | rejected faults => toString faults.length ++ " static error(s)"
  | failed e => e.message
  | outOfFuel => "Out of fuel."
  | malformed => "Malformed tree."

end Outcome

namespace Session

/-- A session before its first source. -/
def start (host : Host) (natives : List Native) : Session where
  state := State.start host natives
  nextId := 0

/-- Read a source.  Its tokens are parsed even if some of its characters are no token, so that all
faults are reported at once, the lexical ones first. -/
def read (source : String) (s : Session) : ParseOutcome × Session :=
  let items := scan source
  let lexical := faultsOf items
  let parsed := parse (tokensOf items) s.nextId
  let outcome :=
    match parsed.outcome with
    | .program statements =>
      if lexical.isEmpty then .program statements else .rejected lexical
    | .rejected faults => .rejected (lexical ++ faults)
    | .exhausted => .exhausted
  (outcome, { s with nextId := parsed.nextId })

/-- Bind the references of a program.  The distances stay recorded whatever faults there are. -/
def resolve (program : List Stmt) (s : Session) : List Diagnostic × Session :=
  let (distances, faults) := ClassScript.resolve program s.state.distances
  (faults, { s with state := { s.state with distances } })

/-- Record distances for references, one after the other, where one is given. -/
def setDistances : List Reference → List (Option Nat) → Session → Session
  | r :: rs, some distance :: ds, s =>
    setDistances rs ds
      { s with state := { s.state with distances := s.state.distances.insert r.id distance } }
  | _ :: rs, none :: ds, s => setDistances rs ds s
  | _, _, s => s

/-- Carry out an action; what it did stays even if it stops early. -/
def perform {α : Type} (action : Eval α) (s : Session) : Except Interrupt α × Session :=
  match action s.state with
  | .ok a state => (.ok a, { s with state })
  | .error e state => (.error e, { s with state })

/-- Run a program whose references are bound. -/
def interpret (fuel : Nat) (program : List Stmt) (s : Session) : Outcome × Session :=
  match s.perform (Eval.interpret fuel program) with
  | (.ok (), s) => (.finished, s)
  | (.error e, s) => (.ofInterrupt e, s)

/-- Run a source: nothing of it runs unless it is free of static faults. -/
def run (fuel : Nat) (source : String) (s : Session) : Outcome × Session :=
  match s.read source with
  | (.rejected faults, s) => (.rejected faults, s)
  | (.exhausted, s) => (.outOfFuel, s)
  | (.program program, s) =>
    match s.resolve program with
    | ([], s) => s.interpret fuel program
    | (faults, s) => (.rejected faults, s)

/-! ## Steps of a host

A host may run a program in other ways than a whole source at a time. -/

/-- How the references of a program are bound before it runs. -/
inductive BindingMode where
  /-- a fault keeps the program from running -/
  | strict
  /-- faults are set aside, and what is bound stays bound -/
  | lenient
  /-- nothing is bound, so that every name is looked up among the globals -/
  | skipped
  deriving DecidableEq, Repr

/-- A program that may run, and the faults that were set aside. -/
structure Loaded where
  program : List Stmt
  ignored : List Diagnostic

/-- Read a source and bind its references, then record the given distances for its references in
reading order. -/
def load (mode : BindingMode) (distances : List (Option Nat)) (source : String) (s : Session) :
    Except Outcome Loaded × Session :=
  match s.read source with
  | (.rejected faults, s) => (.error (.rejected faults), s)
  | (.exhausted, s) => (.error .outOfFuel, s)
  | (.program program, s) =>
    let (faults, s) := if mode = .skipped then ([], s) else s.resolve program
    if mode = .strict && !faults.isEmpty then (.error (.rejected faults), s)
    else
      (.ok { program, ignored := faults }, s.setDistances (references program) distances)

/-- What a statement by itself comes to. -/
inductive Finding where
  | value (v : Value)
  | flow (f : Flow)

/-- Evaluate a statement that is an expression, execute any other. -/
def finding (fuel : Nat) (statement : Stmt) : Eval Finding :=
  match statement with
  | .expression e => Finding.value <$> Eval.evaluate fuel e
  | other => Finding.flow <$> Eval.execute fuel other

/-- What each statement of a program comes to, up to the first that stops early. -/
def performEach (fuel : Nat) : List Stmt → Session → List (Except Interrupt Finding) × Session
  | [], s => ([], s)
  | statement :: rest, s =>
    match s.perform (finding fuel statement) with
    | (.ok f, s) =>
      let (others, s) := performEach fuel rest s
      (.ok f :: others, s)
    | (.error e, s) => ([.error e], s)

/-! ## Output -/

/-- What was printed after the first `count` lines, each line with its end. -/
def printedSince (count : Nat) (s : Session) : String :=
  String.join ((s.state.printed.toList.drop count).map (· ++ "\n"))

end Session

/-- More fuel than any run uses that ends within a lifetime. -/
def ampleFuel : Nat := Nat.pow 2 62

end ClassScript
