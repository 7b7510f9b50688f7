import ClassScript.Session
import ClassScript.Text.Quoted
import ClassScript.Text.Utf8
import ClassScript.Token.Text
import ClassScript.Tree.Listing

set_option autoImplicit false

/-!
# Commands

What the command line asks for, and what it answers: the text for the output, the text for the
errors, and the exit code.  A command reads one source file or, for the prompt, lines of input; how
files are read and made is the host's part, which here is a record of what the host answers.
-/

namespace ClassScript

/-! ## Command lines -/

/-- What to do. -/
inductive Task where
  | tokenize (file : String) (exchange : Bool)
  | parse (file : String)
  | run (file : String)
  | prompt
  deriving DecidableEq, Repr

/-- A task, and the file to log to if there is to be a log. -/
structure Command where
  task : Task
  log : Option String
  deriving DecidableEq, Repr

namespace Command

/-- The log file, unless the command line names another. -/
def defaultLog : String := "app.log"

/-- The options of a command line and the words that are none. -/
structure Options where
  log : Bool
  logFile : String
  exchange : Bool
  words : List String

/-- Sort the words of a command line. -/
def options : List String → Options
  | [] => { log := false, logFile := defaultLog, exchange := false, words := [] }
  | "--log-file" :: path :: rest => { options rest with logFile := path }
  | "--log" :: rest => { options rest with log := true }
  | "--json" :: rest => { options rest with exchange := true }
  | word :: rest =>
    let others := options rest
    { others with words := word :: others.words }

/-- The command of a command line, if it is one. -/
def ofArguments? (arguments : List String) : Option Command :=
  let o := options arguments
  let log := if o.log then some o.logFile else none
  match o.words with
  | ["tokenize", file] => some { task := .tokenize file o.exchange, log }
  | ["parse", file] => if o.exchange then none else some { task := .parse file, log }
  | ["run", file] => if o.exchange then none else some { task := .run file, log }
  | ["repl"] => if o.exchange then none else some { task := .prompt, log }
  | _ => none

/-- The forms of a command line. -/
def usage : String :=
  "Usage: [--log] [--log-file PATH] tokenize [--json] FILE | parse FILE | run FILE | repl\n"

end Command

/-! ## Reports -/

/-- What a command leaves. -/
structure Report where
  output : String
  errors : String
  exitCode : Nat
  deriving DecidableEq, Repr

/-- Parts of a text, each on a line of its own. -/
def lines (parts : List String) : String :=
  String.join (parts.map (· ++ "\n"))

namespace Report

/-- The report on something outside the language that went wrong, and why. -/
def trouble (what : String) (cause : Option String) : Report where
  output := ""
  errors :=
    match cause with
    | some why => lines ["Error: " ++ what, "", "Caused by:", "    " ++ why]
    | none => lines ["Error: " ++ what]
  exitCode := 1

/-- The report of static faults. -/
def faults (output : List String) (ds : List Diagnostic) : Report where
  output := lines output
  errors := lines (ds.map Diagnostic.text)
  exitCode := if ds.isEmpty then 0 else 65

end Report

/-- What the errors of an outcome look like. -/
def Outcome.errors : Outcome → String
  | .finished => ""
  | .rejected ds => lines (ds.map Diagnostic.text)
  | .failed e => lines [e.report]
  | o => lines [o.summary]

/-! ## Tasks on one source -/

/-- Every token on a line, faults apart. -/
def tokenizeReport (source : String) (exchange : Bool) : Report :=
  let items := scan source
  Report.faults ((tokensOf items).map fun t => if exchange then t.exchange else t.listing)
    (faultsOf items)

/-- Every statement of a program on a line, unless there is a fault. -/
def parseReport (source : String) (s : Session) : Report :=
  match (s.read source).1 with
  | .program statements => Report.faults (statements.map Stmt.listing) []
  | .rejected ds => Report.faults [] ds
  | .exhausted => { output := "", errors := Outcome.outOfFuel.errors, exitCode := 70 }

/-- What running a source prints. -/
def runReport (source : String) (s : Session) : Report :=
  let (outcome, after) := s.run ampleFuel source
  { output := after.printedSince s.state.printed.size
    errors := outcome.errors
    exitCode := outcome.exitCode }

/-! ## The prompt -/

/-- What stands before each line of input. -/
def promptText : String := "> "

/-- Run one line of input; all that is wrong with it is reported, and the session goes on.  Input
that is no text ends it. -/
def promptLine (bytes : List UInt8) (s : Session) : Report × Option Session :=
  match Text.decodeUtf8 bytes with
  | .error _ => (Report.trouble "stream did not contain valid UTF-8" none, none)
  | .ok line =>
    let (outcome, after) := s.run ampleFuel line
    ({ output := after.printedSince s.state.printed.size, errors := outcome.errors, exitCode := 0 },
      some after)

/-- Cut bytes after each line end. -/
def cutLines (bytes : List UInt8) : List (List UInt8) :=
  bytes.foldr (fun b cut =>
    match b == 10, cut with
    | true, cut => [b] :: cut
    | false, line :: rest => (b :: line) :: rest
    | false, [] => [[b]]) []

/-- Run lines of input one after the other, with a prompt before each and a line end after the
last. -/
def promptReport : List (List UInt8) → Session → Report
  | [], _ => { output := promptText ++ "\n", errors := "", exitCode := 0 }
  | line :: rest, s =>
    match promptLine line s with
    | (r, none) => { r with output := promptText ++ r.output }
    | (r, some s) =>
      let others := promptReport rest s
      { output := promptText ++ r.output ++ others.output
        errors := r.errors ++ others.errors
        exitCode := others.exitCode }

/-! ## Commands -/

/-- What the host answers. -/
structure Files where
  /-- The bytes of a file, or why it cannot be opened. -/
  read : String → Except String (List UInt8)
  /-- Why a file cannot be made, if it cannot. -/
  refusal? : String → Option String
  /-- The bytes of the standard input. -/
  input : List UInt8

/-- The source in a file, or the report on why there is none. -/
def Files.source (files : Files) (file : String) : Except Report String :=
  match files.read file with
  | .error why => .error (Report.trouble ("Failed to open file " ++ Text.inspected file) (some why))
  | .ok bytes =>
    match Text.decodeUtf8 bytes with
    | .ok source => .ok source
    | .error fault =>
      .error (Report.trouble (Text.inspected file ++ " is not valid UTF-8") (some fault.message))

/-- The report on the log file, if it is asked for and cannot be made. -/
def Files.logTrouble? (files : Files) (log : Option String) : Option Report :=
  match log with
  | none => none
  | some file =>
    (files.refusal? file).map fun why =>
      Report.trouble ("Failed to create " ++ Text.inspected file) (some why)

/-- Carry out a task. -/
def Task.report (task : Task) (files : Files) (s : Session) : Report :=
  let onSource (file : String) (make : String → Report) : Report :=
    match files.source file with
    | .ok source => make source
    | .error r => r
  match task with
  | .tokenize file exchange => onSource file fun source => tokenizeReport source exchange
  | .parse file => onSource file fun source => parseReport source s
  | .run file => onSource file fun source => runReport source s
  | .prompt => promptReport (cutLines files.input) s

/-- Carry out a command: the log file comes first. -/
def Command.report (command : Command) (files : Files) (s : Session) : Report :=
  match files.logTrouble? command.log with
  | some r => r
  | none => command.task.report files s

end ClassScript
