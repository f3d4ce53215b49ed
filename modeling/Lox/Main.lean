import Lox.CommandLine.Perform

/-!
# The program

Reads the arguments, the file and standard input, and writes what serving the request gives.
-/
namespace Lox.CommandLine

/-- Whether a code stands for the system error `number`; some are given with their sign turned. -/
def isError (code number : UInt32) : Bool := code == number || code == -number

/-- The failure that a system error stands for. -/
def failureOf : IO.Error → FileFailure
  | .noFileOrDirectory .. => .missing
  | .inappropriateType _ code _ => if isError code 20 then .notDirectory else .directory
  | .invalidArgument _ code _ =>
    if isError code 36 then .nameTooLong else .other "Invalid argument (os error 22)"
  | .permissionDenied .. => .other "Permission denied (os error 13)"
  | error => .other error.toString

/-- The text of a file, read from the file system. -/
def readFile (file : String) : IO (Except FileFailure String) := do
  try
    match String.fromUTF8? (← IO.FS.readBinFile file) with
    | some text => return .ok text
    | none => return .error .notText
  catch error => return .error (failureOf error)

/-- Writes a result and returns its code. -/
def write (result : Result) : IO UInt32 := do
  IO.print result.output
  IO.eprint result.errors
  (← IO.getStdout).flush
  return result.exitCode.toUInt32

/-- The bytes of the next line of standard input, after those in `line`. It is read byte by byte,
so that no more is taken than the line. -/
partial def nextLine (line : ByteArray) : IO ByteArray := do
  let next ← (← IO.getStdin).read 1
  if next.isEmpty || next.data.contains 10 then return line ++ next else nextLine (line ++ next)

/-- Prompts for lines and runs each as it comes. -/
partial def interact (session : Session) : IO UInt32 := do
  IO.print promptMark
  (← IO.getStdout).flush
  match inputLines (← nextLine .empty) with
  | [] => write { exitCode := 0, output := "\n" }
  | none :: _ => write { promptLines session [none] with output := "" }
  | some line :: _ =>
    let (outcome, session) := session.run line
    IO.print outcome.output
    IO.eprint (Diagnostic.renderAll outcome.diagnostics)
    interact session

/-- The text of the file that a command names, if it names one. -/
def commandFile? : Request → Option String
  | .perform (.tokenize file _) _ | .perform (.parse file) _ | .perform (.run file) _ => file
  | _ => none

end Lox.CommandLine

open Lox Lox.CommandLine in
/-- Serves the request that the arguments make. -/
def main (arguments : List String) : IO UInt32 := do
  let fuel := Evaluation.ampleFuel
  let request := ofArguments false arguments
  for file in filesMade request do
    IO.FS.writeFile file ""
  match request, commandFile? request with
  | .perform (.run none) _, _ => interact (.initial fuel)
  | request, some file =>
    let source ← readFile file
    write (serve fuel (fun _ => source) .empty request)
  | request, none => write (serve fuel (fun _ => .error .missing) .empty request)
