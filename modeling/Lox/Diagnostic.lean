/-!
# Diagnostics

What is reported to the user: the kind of failure, the line, where on the line it points, and the
message. Each pass has its own type of errors and turns them into diagnostics.
-/
namespace Lox

/-- A reported failure. -/
inductive Diagnostic where
  | lexical (line : Nat) (message : String)
  | syntactic (line : Nat) (location message : String)
  | resolution (line : Nat) (location message : String)
  | runtime (line : Nat) (message : String)
  /-- A failure of input or output, which has no place in the source. -/
  | inputOutput (message : String)
  deriving DecidableEq, Repr

namespace Diagnostic

def line? : Diagnostic → Option Nat
  | lexical line _ | syntactic line _ _ | resolution line _ _ | runtime line _ => some line
  | inputOutput _ => none

/-- What the failure points at; empty if it points at a whole line. -/
def location : Diagnostic → String
  | syntactic _ location _ | resolution _ location _ => location
  | lexical .. | runtime .. | inputOutput .. => ""

def message : Diagnostic → String
  | lexical _ message | syntactic _ _ message | resolution _ _ message | runtime _ message
  | inputOutput message => message

/-- The text of a diagnostic that the program text itself causes. -/
def renderStatic (line : Nat) (location message : String) : String :=
  "[line " ++ toString line ++ "] Error" ++ location ++ ": " ++ message

/-- The text that the user sees. A runtime failure names its line last. -/
def render : Diagnostic → String
  | lexical line message => renderStatic line "" message
  | syntactic line location message => renderStatic line location message
  | resolution line location message => renderStatic line location message
  | runtime line message => message ++ "\n[line " ++ toString line ++ "]"
  | inputOutput message => message

/-- The form in which a session keeps a diagnostic: always with a line, so a failure of input or
output is kept as a runtime failure on line zero. -/
def kept : Diagnostic → Diagnostic
  | inputOutput message => runtime 0 message
  | diagnostic => diagnostic

/-- Diagnostics as they are written out, each on lines of its own. -/
def renderAll (diagnostics : List Diagnostic) : String :=
  String.join (diagnostics.map fun d => d.render ++ "\n")

end Diagnostic
end Lox
