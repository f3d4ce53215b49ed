import Lox.Diagnostic
import Lox.Fault
import Lox.Syntax.Tree
import Lox.Token

/-!
# Parsing steps

A parsing step reads tokens from the front of the list that is left, records errors that do not
stop it, and either has a result or fails with the error that stops it. What was read, recorded and
numbered before a failure stays so. A look past the last token or before the first one is a fault,
from which no step recovers. The steps of this module look at one token at most.
-/
namespace Lox

/-- What is wrong with the token at which an error is reported. -/
inductive SyntaxError.Cause where
  /-- Something else has to stand here; `what` describes it. -/
  | missing (what : String)
  | invalidAssignmentTarget
  | tooManyParameters
  | tooManyArguments
  deriving DecidableEq, Repr

structure SyntaxError where
  cause : SyntaxError.Cause
  token : Token
  deriving Repr

namespace SyntaxError

def message (error : SyntaxError) : String :=
  match error.cause with
  | .missing what => "Expect " ++ what ++ "."
  | .invalidAssignmentTarget => "Invalid assignment target."
  | .tooManyParameters => "Can't have more than 255 parameters."
  | .tooManyArguments => "Can't have more than 255 arguments."

def diagnostic (error : SyntaxError) : Diagnostic :=
  .syntactic error.token.line error.token.location error.message

end SyntaxError

namespace Parser

/-- Why a step has no result. -/
inductive Stop where
  | error (error : SyntaxError)
  | fault (fault : Fault)
  deriving Repr

structure State where
  /-- The tokens that are left, the end of the input last. -/
  rest : List Token
  /-- The token that was read last. -/
  previous? : Option Token := none
  /-- The errors recorded so far. -/
  errors : Array SyntaxError := #[]
  /-- The number of the next reference. -/
  next : NodeId := 0

/-- A parsing step with a result of type `α`. -/
abbrev Parse := EStateM Stop State

/-- The token that comes next. -/
def peek : Parse Token := fun s =>
  match s.rest with
  | [] => .error (.fault .pastLastToken) s
  | token :: _ => .ok token s

/-- Reads the next token if `f` has a value for it. -/
def accept? {α : Type} (f : Token → Option α) : Parse (Option α) := fun s =>
  match s.rest with
  | [] => .error (.fault .pastLastToken) s
  | token :: rest =>
    match f token with
    | some a => .ok (some a) { s with rest, previous? := some token }
    | none => .ok none s

/-- The token itself if it is `symbol`. -/
def only (symbol : Symbol) (token : Token) : Option Token :=
  match token.kind with
  | .symbol s => if s = symbol then some token else none
  | _ => none

/-- The name that an identifier token stands for. -/
def name? (token : Token) : Option Name :=
  match token.kind with
  | .identifier => some ⟨token.lexeme, token.line⟩
  | _ => none

/-- Reads `symbol` if it comes next. -/
def accept (symbol : Symbol) : Parse Bool := do
  return (← accept? (only symbol)).isSome

/-- Whether `symbol` comes next. -/
def check (symbol : Symbol) : Parse Bool := do
  return (only symbol (← peek)).isSome

/-- Whether all tokens but the end of the input are read. -/
def atEnd : Parse Bool := do
  return (← peek).kind.isEnd

/-- Fails at the next token. -/
def fail {α : Type} (cause : SyntaxError.Cause) : Parse α := do
  throw (.error ⟨cause, ← peek⟩)

/-- Records an error and goes on. -/
def record (error : SyntaxError) : Parse Unit :=
  modify fun s => { s with errors := s.errors.push error }

/-- Reads a token for which `f` has a value; `what` describes such tokens. -/
def require {α : Type} (f : Token → Option α) (what : String) : Parse α := do
  match ← accept? f with
  | some a => return a
  | none => fail (.missing what)

/-- Reads `symbol`; `what` describes it and its place. -/
def expect (symbol : Symbol) (what : String) : Parse Token := require (only symbol) what

/-- Reads an identifier. -/
def expectName (what : String) : Parse Name := require name? what

/-- A number that no other reference has. -/
def freshId : Parse NodeId := modifyGet fun s => (s.next, { s with next := s.next + 1 })

/-- The most items that a parameter or argument list should have. -/
def maxItems : Nat := 255

/-- Items with commas between them, at least one. Each item after the first `maxItems` is an error
that is recorded at its first token and does not stop the list. `count` items stand before. At
most `limit` items are read. -/
def commaSeparated {α : Type} (tooMany : SyntaxError.Cause) (item : Parse α) :
    (limit count : Nat) → Parse (List α)
  | 0, _ => return []
  | limit + 1, count => do
    if maxItems ≤ count then record ⟨tooMany, ← peek⟩
    let first ← item
    if ← accept .comma then
      return first :: (← commaSeparated tooMany item limit (count + 1))
    else
      return [first]

/-- The items of a list in parentheses, up to the closing one, which is not read. -/
def listItems {α : Type} (tooMany : SyntaxError.Cause) (item : Parse α) (limit : Nat) :
    Parse (List α) := do
  if ← check .rightParen then return [] else commaSeparated tooMany item limit 0

/-- The items up to a closing brace, which is not read, or up to the end of the input. At most
`limit` items are read. -/
def untilRightBrace {α : Type} (item : Parse α) : (limit : Nat) → Parse (List α)
  | 0 => return []
  | limit + 1 => do
    if (← check .rightBrace) || (← atEnd) then
      return []
    else
      let first ← item
      return first :: (← untilRightBrace item limit)

end Parser
end Lox
