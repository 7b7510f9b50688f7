import ClassScript.Command

set_option autoImplicit false

/-!
# The command line

Reads files and input, lets `ClassScript.Command` decide, and writes what it answers.
-/

namespace ClassScript.Console

/-- Write a report and pass its exit code on. -/
def writeReport (r : Report) : IO UInt32 := do
  (← IO.getStdout).putStr r.output
  (← IO.getStdout).flush
  (← IO.getStderr).putStr r.errors
  return r.exitCode.toUInt32

/-- Seconds on a clock of the machine. -/
def machineSeconds : IO Float := do
  return Float.ofNat (← IO.monoNanosNow) / 1000000000.0

/-- A session whose clock starts now and moves on with every reading. -/
def newSession : IO Session := do
  let now ← machineSeconds
  return Session.start
    { clock := fun readings => now + Float.ofNat readings / 1000000.0, capacity := none } [.clock]

/-- How the host words the reason of a failed file operation. -/
def reason (e : IO.Error) : String :=
  match e with
  | .noFileOrDirectory _ _ _ => "No such file or directory (os error 2)"
  | .permissionDenied _ _ _ => "Permission denied (os error 13)"
  | e => toString e

/-- The bytes of a file, or why it cannot be opened. -/
def readFile (file : String) : IO (Except String (List UInt8)) := do
  try
    let bytes ← IO.FS.readBinFile file
    return .ok bytes.toList
  catch e => return .error (reason e)

/-- Make an empty file; yields why it cannot be made, if it cannot. -/
def makeFile (file : String) : IO (Option String) := do
  try
    IO.FS.writeFile file ""
    return none
  catch e => return some (reason e)

/-- Read a line of input with its end; nothing is left once it is empty. -/
partial def readLine (input : IO.FS.Stream) (line : ByteArray) : IO ByteArray := do
  let byte ← input.read 1
  if byte.isEmpty then return line
  else if byte.toList == [10] then return line ++ byte
  else readLine input (line ++ byte)

/-- The prompt, line by line. -/
partial def prompt (s : Session) : IO UInt32 := do
  let output ← IO.getStdout
  output.putStr promptText
  output.flush
  let line ← readLine (← IO.getStdin) ByteArray.empty
  if line.isEmpty then
    output.putStr "\n"
    return 0
  else
    match promptLine line.toList s with
    | (r, none) => writeReport r
    | (r, some s) =>
      let _ ← writeReport r
      prompt s

/-- The file that a task reads. -/
def sourceFile? : Task → Option String
  | .tokenize file _ => some file
  | .parse file => some file
  | .run file => some file
  | .prompt => none

end ClassScript.Console

open ClassScript ClassScript.Console

/-- Runs the command of the command line. -/
def main (arguments : List String) : IO UInt32 := do
  match Command.ofArguments? arguments with
  | none =>
    (← IO.getStderr).putStr Command.usage
    return 2
  | some command =>
    let refusal ←
      match command.log with
      | some file => makeFile file
      | none => pure none
    let s ← newSession
    match command.task, refusal with
    | .prompt, none => prompt s
    | task, _ =>
      let content ←
        match sourceFile? task with
        | some file => readFile file
        | none => pure (.ok [])
      let files : Files := { read := fun _ => content, refusal? := fun _ => refusal, input := [] }
      writeReport (command.report files s)
