import Lox.CommandLine.Arguments
import Lox.CommandLine.Files
import Lox.CommandLine.Quotation
import Lox.Session
import Lox.Syntax.PrefixForm
import Lox.Token.Json
import Lox.Token.Text

/-!
# Performing commands

What each command writes and the code with which it ends, given the contents of its file or of
standard input. A file that cannot be had and input that is no text are failures of their own; all
other errors are those of the source.
-/
namespace Lox.CommandLine

/-- What a program writes and the code with which it ends. -/
structure Result where
  exitCode : Nat
  output : String := ""
  errors : String := ""
  deriving Repr

def versionText : String := "rox 0.1.0\n"

/-- The code for arguments that are not understood. -/
def usageExitCode : Nat := 64

/-- The failure of a command whose file cannot be had. -/
def fileFailure (file : String) (failure : FileFailure) : Result :=
  { exitCode := 1
    errors := "Error: Failed to " ++ failure.attempt ++ " file " ++ quotedFile file ++
      "\n\nCaused by:\n    " ++ failure.reason ++ "\n" }

/-- Texts as they are written out, each on a line of its own. -/
def lines (texts : List String) : String := String.join (texts.map (· ++ "\n"))

def tokenize (source : String) (json : Bool) : Result :=
  let items := Lexer.items source
  let tokens := Lexer.tokens items
  let errors := Lexer.errors items
  { exitCode := if errors.isEmpty then 0 else Status.staticError.exitCode
    output := if json then lines [Token.listJson tokens] else lines (tokens.map Token.display)
    errors := Diagnostic.renderAll (errors.map LexError.diagnostic) }

/-- The trees of a source; none if it has an error. -/
def parse (source : String) : Result :=
  let reading := Reading.ofSource source 0
  let diagnostics := reading.diagnostics
  if reading.program.fault?.isSome then
    { exitCode := Status.abandoned.exitCode }
  else if diagnostics.isEmpty then
    { exitCode := 0, output := lines (reading.program.statements.map Stmt.prefixForm) }
  else
    { exitCode := Status.staticError.exitCode, errors := Diagnostic.renderAll diagnostics }

def run (fuel : Nat) (source : String) : Result :=
  let (outcome, _) := (Session.initial fuel).run source
  { exitCode := outcome.status.exitCode
    output := outcome.output
    errors := Diagnostic.renderAll outcome.diagnostics }

def promptMark : String := "> "

/-- Runs the lines of standard input one by one, until the input or the text in it ends. A line
that is no text is `none`. -/
def promptLines (session : Session) : List (Option String) → Result
  | [] => { exitCode := 0, output := promptMark ++ "\n" }
  | none :: _ =>
    { exitCode := 1
      output := promptMark
      errors := "Error: " ++ FileFailure.notText.reason ++ "\n" }
  | some line :: rest =>
    let (outcome, session) := session.run line
    let result := promptLines session rest
    { result with
      output := promptMark ++ outcome.output ++ result.output
      errors := Diagnostic.renderAll outcome.diagnostics ++ result.errors }

/-- Cuts bytes into lines, without the line ends; a carriage return before a line end belongs to
it. -/
def splitLines : (line : List UInt8) → List UInt8 → List (List UInt8)
  | [], [] => []
  | line, [] => [line.reverse]
  | 13 :: line, 10 :: rest => line.reverse :: splitLines [] rest
  | line, 10 :: rest => line.reverse :: splitLines [] rest
  | line, byte :: rest => splitLines (byte :: line) rest

/-- The lines of standard input; `none` for one that is no text. -/
def inputLines (input : ByteArray) : List (Option String) :=
  (splitLines [] input.toList).map fun line => String.fromUTF8? ⟨line.toArray⟩

def prompt (fuel : Nat) (input : ByteArray) : Result :=
  promptLines (.initial fuel) (inputLines input)

/-- Performs a command, with a way to get the text of a file and the bytes of standard input. -/
def perform (fuel : Nat) (read : String → Except FileFailure String) (input : ByteArray) :
    Command → Result
  | .tokenize file json => onFile file fun source => tokenize source json
  | .parse file => onFile file parse
  | .run (some file) => onFile file (run fuel)
  | .run none => prompt fuel input
where
  onFile (file : String) (use : String → Result) : Result :=
    match read file with
    | .ok source => use source
    | .error failure => fileFailure file failure

/-- The line for each command in the list of commands. -/
def commandSummary : CommandName → String
  | .tokenize => "Tokenizes input from a file, printing each token"
  | .parse => "Parses input from a file and prints each statement's syntax tree"
  | .run => "Runs a Lox program from a file, or an interactive prompt without one"

def helpSummary : String := "Print this message or the help of the given subcommand(s)"

/-- The help text of the program. -/
def programHelp : String :=
  lines
    ["Lox language interpreter", "", "Usage: rox [OPTIONS] <COMMAND>", "", "Commands:",
      "  tokenize  " ++ commandSummary .tokenize, "  parse     " ++ commandSummary .parse,
      "  run       " ++ commandSummary .run, "  help      " ++ helpSummary, "", "Options:",
      "      --log      Enable logging to app.log", "  -h, --help     Print help",
      "  -V, --version  Print version"]

/-- The help text of a command. -/
def commandHelp (name : CommandName) : String :=
  let file :=
    match name with
    | .run => "[FILENAME]"
    | .tokenize | .parse => "<FILENAME>"
  let json :=
    match name with
    | .tokenize => ["      --json  Print the tokens as a JSON array"]
    | .parse | .run => []
  lines
    ([commandSummary name, "", "Usage: rox " ++ name.text ++ " [OPTIONS] " ++ file, "",
        "Arguments:", "  " ++ file ++ "  ", "", "Options:"] ++ json ++
      ["      --log   Enable logging to app.log", "  -h, --help  Print help"])

/-- The help text of the `help` command. -/
def helpOfHelp : String :=
  lines
    [helpSummary, "", "Usage: rox help [COMMAND]...", "", "Arguments:",
      "  [COMMAND]...  Print help for the subcommand(s)"]

/-- Serves a request. -/
def serve (fuel : Nat) (read : String → Except FileFailure String) (input : ByteArray) :
    Request → Result
  | .perform command _ => perform fuel read input command
  | .version => { exitCode := 0, output := versionText }
  | .help none => { exitCode := 0, output := programHelp }
  | .help (some name) => { exitCode := 0, output := commandHelp name }
  | .helpOfHelp => { exitCode := 0, output := helpOfHelp }
  | .usageError =>
    { exitCode := usageExitCode, errors := "error: unexpected arguments\n\n" ++ programHelp }

/-- The file that the log is written to. -/
def logFile : String := "app.log"

/-- The files that serving a request makes. -/
def filesMade : Request → List String
  | .perform _ true => [logFile]
  | _ => []

end Lox.CommandLine
