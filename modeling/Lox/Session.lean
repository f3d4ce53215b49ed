import Lox.Evaluation.Evaluator
import Lox.Parser.Statement
import Lox.Resolution.Walk
import Lox.Token.Lexer

/-!
# Sessions

A session runs one source after another. Its global variables, the objects they lead to, and the
distances of earlier references live on, so that later sources can use what earlier ones declared.
A source with a static error is not executed.
-/
namespace Lox

/-- What is found in the text of a source alone. -/
structure Reading where
  lexErrors : List LexError
  program : Program

/-- Cuts a source into tokens and parses them, those of a source with lexical errors too. -/
def Reading.ofSource (source : String) (first : NodeId) : Reading :=
  let items := Lexer.items source
  { lexErrors := Lexer.errors items
    program := .ofTokens (Lexer.tokens items) first }

/-- The lexical errors in order, then the syntax errors in order. -/
def Reading.diagnostics (reading : Reading) : List Diagnostic :=
  reading.lexErrors.map LexError.diagnostic ++
    reading.program.errors.map SyntaxError.diagnostic

/-- How the run of a source ends. -/
inductive Status where
  | success
  /-- Nothing was executed. -/
  | staticError
  | runtimeError
  /-- The evaluation was given up. -/
  | abandoned
  deriving DecidableEq, Repr

/-- The code with which a program ends that has run a source. -/
def Status.exitCode : Status → Nat
  | success => 0
  | staticError => 65
  | runtimeError => 70
  | abandoned => 1

/-- What the run of a source shows. -/
structure Outcome where
  status : Status
  diagnostics : List Diagnostic := []
  output : String := ""
  /-- The fault that ended the run. -/
  fault? : Option Fault := none
  deriving Repr

structure Session where
  machine : Evaluation.Machine
  /-- The first number that no reference has. -/
  next : NodeId
  /-- How deep evaluations may nest and how often loops may repeat. -/
  fuel : Nat

namespace Session
open Evaluation

/-- A session in which nothing was run yet. -/
def initial (fuel : Nat) : Session := { machine := .initial, next := 0, fuel }

/-- Whether a global variable has a value. -/
def knows (session : Session) (name : String) : Bool :=
  (session.machine.store.findLocal? session.machine.globals name).isSome

/-- The value of a global variable. -/
def global? (session : Session) (name : String) : Option Value :=
  session.machine.store.findLocal? session.machine.globals name

/-- Gives a global variable a value. -/
def define (session : Session) (name : String) (value : Value) : Session :=
  let ⟨m, next, fuel⟩ := session
  ⟨{ m with store := m.store.define m.globals name value }, next, fuel⟩

/-- Reads a source; its references get new numbers. -/
def read (session : Session) (source : String) : Reading × Session :=
  let reading := Reading.ofSource source session.next
  (reading, { session with next := reading.program.next })

/-- Resolves the references of a program. The distances found are kept even if there are errors. -/
def resolve (session : Session) (program : List Stmt) : List ResolutionError × Session :=
  let resolution := Resolution.ofProgram session.knows session.machine.distances program
  let ⟨m, next, fuel⟩ := session
  (resolution.errors, ⟨{ m with distances := resolution.distances }, next, fuel⟩)

/-- Evaluates in the machine of the session; the result, and the text printed meanwhile. -/
def perform {α : Type} (session : Session) (step : Eval α) : Except Halt α × String × Session :=
  let ⟨m, next, fuel⟩ := session
  match step { m with output := "" } with
  | .ok a m => (.ok a, m.output, ⟨{ m with output := "" }, next, fuel⟩)
  | .error halt m => (.error halt, m.output, ⟨{ m with output := "" }, next, fuel⟩)

/-- How a run ends whose execution has the result `result`. -/
def outcome (result : Except Halt Unit) (output : String) : Outcome :=
  match result with
  | .ok () => { status := .success, output }
  | .error (.failure error) =>
    { status := .runtimeError, diagnostics := [error.diagnostic], output }
  | .error (.fault fault) => { status := .abandoned, output, fault? := some fault }
  | .error .outOfFuel => { status := .abandoned, output }

/-- Reads, resolves and executes a source. Lexical and syntax errors are reported together;
resolution errors only if there are no such errors. -/
def run (session : Session) (source : String) : Outcome × Session :=
  let (reading, session) := session.read source
  match reading.program.fault? with
  | some fault => ({ status := .abandoned, fault? := some fault }, session)
  | none =>
    if !reading.diagnostics.isEmpty then
      ({ status := .staticError, diagnostics := reading.diagnostics }, session)
    else
      let (errors, session) := session.resolve reading.program.statements
      if !errors.isEmpty then
        ({ status := .staticError, diagnostics := errors.map ResolutionError.diagnostic }, session)
      else
        let (result, output, session) :=
          session.perform (interpret session.fuel reading.program.statements)
        (outcome result output, session)

/-- Runs sources one after another. -/
def runAll (session : Session) : List String → List Outcome × Session
  | [] => ([], session)
  | source :: rest =>
    let (first, session) := session.run source
    let (others, session) := session.runAll rest
    (first :: others, session)

/-- What a source shows that is executed whatever its errors are. -/
structure Forced where
  staticErrors : List Diagnostic
  result : Except Halt Unit
  output : String

/-- Executes what of a source can be parsed, whatever errors there are. References are resolved
only if `resolving`; otherwise all names are global. -/
def force (session : Session) (source : String) (resolving : Bool) : Forced × Session :=
  let (reading, session) := session.read source
  match reading.program.fault? with
  | some fault =>
    ({ staticErrors := reading.diagnostics, result := .error (.fault fault), output := "" }, session)
  | none =>
    let statements := reading.program.statements
    let (errors, session) := if resolving then session.resolve statements else ([], session)
    let (result, output, session) := session.perform (interpret session.fuel statements)
    ({ staticErrors := reading.diagnostics ++ errors.map ResolutionError.diagnostic
       result, output }, session)

/-- What the evaluation of an expression shows. -/
structure Evaluated where
  result : Except Halt Value
  output : String

/-- Evaluates an expression; nothing if the text is none. Resolution errors do not matter. -/
def evaluate? (session : Session) (expression : String) : Option Evaluated × Session :=
  let (reading, session) := session.read (expression ++ ";")
  match reading.program.statements.head? with
  | some (.expression e) =>
    let (_, session) := session.resolve [.expression e]
    let (result, output, session) := session.perform (Evaluation.evaluate session.fuel e)
    (some { result, output }, session)
  | _ => (none, session)

end Session
end Lox
