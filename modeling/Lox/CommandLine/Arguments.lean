/-!
# Command-line arguments

The commands, and which argument lists stand for them. Flags may stand before and after file
names; after two dashes every argument is a file name. The flag for the log may stand once before
and once after the name of the command. Anything else that is not expected is a usage error.
-/
namespace Lox.CommandLine

inductive Command where
  /-- Lists the tokens of a file. -/
  | tokenize (file : String) (json : Bool)
  /-- Prints the syntax trees of a file. -/
  | parse (file : String)
  /-- Runs a file, or a prompt without one. -/
  | run (file : Option String)
  deriving DecidableEq, Repr

/-- The names of the commands. -/
inductive CommandName where
  | tokenize
  | parse
  | run
  deriving DecidableEq, Repr

/-- What an argument list asks for. -/
inductive Request where
  | perform (command : Command) (log : Bool)
  | version
  /-- The help text of a command, or that of the program. -/
  | help (command : Option CommandName)
  /-- The help text of the `help` command itself. -/
  | helpOfHelp
  | usageError
  deriving DecidableEq, Repr

namespace CommandName

def text : CommandName → String
  | tokenize => "tokenize"
  | parse => "parse"
  | run => "run"

def ofText? (text : String) : Option CommandName :=
  [tokenize, parse, run].find? (·.text == text)

/-- The command of this name with the given file and flags, if its file is there. -/
def command? (name : CommandName) (file : Option String) (json : Bool) : Option Command :=
  match name, file with
  | tokenize, some file => some (.tokenize file json)
  | parse, some file => some (.parse file)
  | run, file => some (.run file)
  | tokenize, none | parse, none => none

end CommandName

/-- What the arguments of a command have said so far. -/
structure Seen where
  file : Option String := none
  json : Bool := false
  log : Bool := false
  /-- Whether two dashes came by. -/
  filesOnly : Bool := false

/-- Whether an argument has the form of a flag. A single dash does not. -/
def isFlag (argument : String) : Bool := argument.startsWith "-" && argument != "-"

/-- Whether an argument is a single dash and letters, of which the first is this one. The first
letter decides, whatever follows it. -/
def hasFirstLetter (argument letter : String) : Bool := argument.startsWith ("-" ++ letter)

def asksForHelp (argument : String) : Bool := argument = "--help" || hasFirstLetter argument "h"

def asksForVersion (argument : String) : Bool :=
  argument = "--version" || hasFirstLetter argument "V"

/-- Adds a file name; each command has room for one, and it must not be empty. -/
def Seen.addFile? (seen : Seen) (file : String) : Option Seen :=
  if seen.file.isNone && file != "" then some { seen with file := some file } else none

/-- The request of a command's arguments; `globalLog` tells whether the log was asked for before. -/
def ofCommand (name : CommandName) (globalLog : Bool) : Seen → List String → Request
  | seen, [] =>
    match name.command? seen.file seen.json with
    | some command => .perform command (globalLog || seen.log)
    | none => .usageError
  | seen, argument :: rest =>
    if seen.filesOnly || !isFlag argument then
      match seen.addFile? argument with
      | some seen => ofCommand name globalLog seen rest
      | none => .usageError
    else if argument = "--" then
      ofCommand name globalLog { seen with filesOnly := true } rest
    else if asksForHelp argument then
      .help (some name)
    else if argument = "--log" && !seen.log then
      ofCommand name globalLog { seen with log := true } rest
    else if argument = "--json" && name = .tokenize && !seen.json then
      ofCommand name globalLog { seen with json := true } rest
    else
      .usageError

/-- The request of what follows the `help` command. -/
def ofHelp : List String → Request
  | [] => .help none
  | "help" :: [] => .helpOfHelp
  | [name] =>
    match CommandName.ofText? name with
    | some name => .help (some name)
    | none => .usageError
  | _ => .usageError

/-- The request of an argument list; `log` tells whether the log was asked for already. -/
def ofArguments (log : Bool) : List String → Request
  | [] => .usageError
  | argument :: rest =>
    if argument = "--log" then
      if log then .usageError else ofArguments true rest
    else if asksForHelp argument then
      .help none
    else if asksForVersion argument then
      .version
    else if argument = "help" then
      ofHelp rest
    else
      match CommandName.ofText? argument with
      | some name => ofCommand name log {} rest
      | none => .usageError

end Lox.CommandLine
