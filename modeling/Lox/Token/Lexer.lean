import Lox.Diagnostic
import Lox.Number.Reading
import Lox.Token

/-!
# From characters to tokens

A source is cut into pieces, each the longest that starts where the piece before it ends: blanks,
comments, tokens, and stretches that form no token. The pieces cover the source without a gap.
The items of a source are its tokens and lexical errors in order, each with the line on which its
piece ends, and last the token that stands for the end.
-/
namespace Lox

/-- Why a stretch of the source forms no token. -/
inductive LexError.Cause where
  | unexpectedCharacter
  | unterminatedString
  | unterminatedComment
  deriving DecidableEq, Repr

structure LexError where
  cause : LexError.Cause
  line : Nat
  deriving DecidableEq, Repr

def LexError.message (error : LexError) : String :=
  match error.cause with
  | .unexpectedCharacter => "Unexpected character."
  | .unterminatedString => "Unterminated string."
  | .unterminatedComment => "Unterminated block comment."

def LexError.diagnostic (error : LexError) : Diagnostic := .lexical error.line error.message

namespace Lexer

/-- What a piece of the source is. -/
inductive Content where
  /-- White space or a comment. -/
  | blank
  | token (kind : Kind)
  | error (cause : LexError.Cause)

/-- A stretch of the source. -/
structure Piece where
  span : List Char
  content : Content

def isBlank (c : Char) : Bool := c == ' ' || c == '\r' || c == '\t' || c == '\n'

/-- The characters that start an identifier or a reserved word: ASCII letters and the underscore. -/
def isWordStart (c : Char) : Bool := c.isAlpha || c == '_'

def isWordPart (c : Char) : Bool := c.isAlphanum || c == '_'

/-- The symbols of one character. -/
def single? : Char → Option Symbol
  | '(' => some .leftParen
  | ')' => some .rightParen
  | '\x7b' => some .leftBrace
  | '\x7d' => some .rightBrace
  | ',' => some .comma
  | '.' => some .dot
  | '-' => some .minus
  | '+' => some .plus
  | ';' => some .semicolon
  | '/' => some .slash
  | '*' => some .star
  | '!' => some .bang
  | '=' => some .equal
  | '<' => some .less
  | '>' => some .greater
  | _ => none

/-- The symbols of a character and an equals sign. -/
def withEqual? : Char → Option Symbol
  | '!' => some .bangEqual
  | '=' => some .equalEqual
  | '<' => some .lessEqual
  | '>' => some .greaterEqual
  | _ => none

/-- What is left of a block comment inside `depth` openers, the last closer included; nothing if a
closer is missing. -/
def commentRest? : (depth : Nat) → List Char → Option (List Char)
  | 0, _ => some []
  | _ + 1, [] => none
  | depth + 1, '/' :: '*' :: cs => (commentRest? (depth + 2) cs).map ('/' :: '*' :: ·)
  | depth + 1, '*' :: '/' :: cs => (commentRest? depth cs).map ('*' :: '/' :: ·)
  | depth + 1, c :: cs => (commentRest? (depth + 1) cs).map (c :: ·)

/-- A comment that starts with a slash; `cs` is what follows the slash. -/
def comment? (cs : List Char) : Option Piece :=
  match cs with
  | '/' :: _ => some ⟨'/' :: cs.takeWhile (· != '\n'), .blank⟩
  | '*' :: body =>
    match commentRest? 1 body with
    | some rest => some ⟨'/' :: '*' :: rest, .blank⟩
    | none => some ⟨'/' :: cs, .error .unterminatedComment⟩
  | _ => none

/-- A string literal; `cs` is what follows the opening quote. There are no escapes. -/
def string (cs : List Char) : Piece :=
  let text := cs.takeWhile (· != '"')
  if text.length = cs.length then
    ⟨'"' :: cs, .error .unterminatedString⟩
  else
    ⟨'"' :: (text ++ ['"']), .token (.string (String.ofList text))⟩

/-- A number literal. A point belongs to it only if a digit follows. -/
def number (cs : List Char) : Piece :=
  let whole := cs.takeWhile Char.isDigit
  match cs.dropWhile Char.isDigit with
  | '.' :: d :: rest =>
    if d.isDigit then
      let fraction := d :: rest.takeWhile Char.isDigit
      ⟨whole ++ '.' :: fraction, .token (.number (Number.ofLiteral whole fraction))⟩
    else
      ⟨whole, .token (.number (Number.ofLiteral whole []))⟩
  | _ => ⟨whole, .token (.number (Number.ofLiteral whole []))⟩

/-- An identifier or a reserved word. -/
def word (cs : List Char) : Piece :=
  let span := cs.takeWhile isWordPart
  match Symbol.reservedWord? (String.ofList span) with
  | some symbol => ⟨span, .token (.symbol symbol)⟩
  | none => ⟨span, .token .identifier⟩

/-- An operator or a punctuation mark, the longer one where there is a choice. -/
def symbol? (c : Char) (cs : List Char) : Option Piece :=
  match cs, withEqual? c with
  | '=' :: _, some symbol => some ⟨[c, '='], .token (.symbol symbol)⟩
  | _, _ => (single? c).map fun symbol => ⟨[c], .token (.symbol symbol)⟩

/-- The piece at the start of a source of the character `c` and the characters `cs`. -/
def next (c : Char) (cs : List Char) : Piece :=
  if isBlank c then ⟨[c], .blank⟩
  else if c = '"' then string cs
  else if c.isDigit then number (c :: cs)
  else if isWordStart c then word (c :: cs)
  else
    match if c = '/' then comment? cs else none with
    | some piece => piece
    | none => (symbol? c cs).getD ⟨[c], .error .unexpectedCharacter⟩

/-- The pieces of a source after its first `skip` characters. -/
def piecesFrom : (skip : Nat) → List Char → List Piece
  | _, [] => []
  | skip + 1, _ :: cs => piecesFrom skip cs
  | 0, c :: cs =>
    let piece := next c cs
    piece :: piecesFrom (piece.span.length - 1) cs

/-- The pieces of a source, in order. -/
def pieces (source : List Char) : List Piece := piecesFrom 0 source

/-- A token or a lexical error. -/
abbrev Item := Except LexError Token

/-- The item of a piece that ends on `line`; white space and comments have none. -/
def Piece.item? (piece : Piece) (line : Nat) : Option Item :=
  match piece.content with
  | .blank => none
  | .token kind => some (.ok ⟨kind, String.ofList piece.span, line⟩)
  | .error cause => some (.error ⟨cause, line⟩)

/-- The items of pieces that start on `line`, and the end of the input. -/
def itemsFrom (line : Nat) : List Piece → List Item
  | [] => [.ok (.endOfInput line)]
  | piece :: rest =>
    let line := line + piece.span.count '\n'
    (piece.item? line).toList ++ itemsFrom line rest

/-- The tokens and lexical errors of a source, in order, the end of the input last. -/
def items (source : String) : List Item := itemsFrom 1 (pieces source.toList)

def tokens (items : List Item) : List Token := items.filterMap Except.toOption

def errors (items : List Item) : List LexError :=
  items.filterMap fun
    | .error error => some error
    | .ok _ => none

end Lexer
end Lox
