/-!
# Tokens

The kinds of token of the language. Operators, punctuation and reserved words are symbols: each is
written in one way only. Identifiers and literals are the kinds whose text varies. Every source
ends with one end token, which has no text.
-/
namespace Lox

/-- The operators, the punctuation and the sixteen reserved words. -/
inductive Symbol where
  | leftParen | rightParen | leftBrace | rightBrace
  | comma | dot | minus | plus | semicolon | slash | star
  | bang | bangEqual | equal | equalEqual
  | greater | greaterEqual | less | lessEqual
  | kwAnd | kwClass | kwElse | kwFalse | kwFun | kwFor | kwIf | kwNil
  | kwOr | kwPrint | kwReturn | kwSuper | kwThis | kwTrue | kwVar | kwWhile
  deriving DecidableEq, Repr, Inhabited

namespace Symbol

/-- The one way in which the symbol is written. -/
def lexeme : Symbol → String
  | leftParen => "(" | rightParen => ")"
  | leftBrace => "\x7b" | rightBrace => "\x7d"
  | comma => "," | dot => "." | minus => "-" | plus => "+"
  | semicolon => ";" | slash => "/" | star => "*"
  | bang => "!" | bangEqual => "!=" | equal => "=" | equalEqual => "=="
  | greater => ">" | greaterEqual => ">=" | less => "<" | lessEqual => "<="
  | kwAnd => "and" | kwClass => "class" | kwElse => "else" | kwFalse => "false"
  | kwFun => "fun" | kwFor => "for" | kwIf => "if" | kwNil => "nil"
  | kwOr => "or" | kwPrint => "print" | kwReturn => "return" | kwSuper => "super"
  | kwThis => "this" | kwTrue => "true" | kwVar => "var" | kwWhile => "while"

/-- The name under which the symbol is listed. -/
def name : Symbol → String
  | leftParen => "LEFT_PAREN" | rightParen => "RIGHT_PAREN"
  | leftBrace => "LEFT_BRACE" | rightBrace => "RIGHT_BRACE"
  | comma => "COMMA" | dot => "DOT" | minus => "MINUS" | plus => "PLUS"
  | semicolon => "SEMICOLON" | slash => "SLASH" | star => "STAR"
  | bang => "BANG" | bangEqual => "BANG_EQUAL"
  | equal => "EQUAL" | equalEqual => "EQUAL_EQUAL"
  | greater => "GREATER" | greaterEqual => "GREATER_EQUAL"
  | less => "LESS" | lessEqual => "LESS_EQUAL"
  | kwAnd => "AND" | kwClass => "CLASS" | kwElse => "ELSE" | kwFalse => "FALSE"
  | kwFun => "FUN" | kwFor => "FOR" | kwIf => "IF" | kwNil => "NIL"
  | kwOr => "OR" | kwPrint => "PRINT" | kwReturn => "RETURN" | kwSuper => "SUPER"
  | kwThis => "THIS" | kwTrue => "TRUE" | kwVar => "VAR" | kwWhile => "WHILE"

/-- The symbols that look like identifiers. -/
def reservedWords : List Symbol :=
  [kwAnd, kwClass, kwElse, kwFalse, kwFun, kwFor, kwIf, kwNil,
    kwOr, kwPrint, kwReturn, kwSuper, kwThis, kwTrue, kwVar, kwWhile]

/-- The reserved word written `word`. -/
def reservedWord? (word : String) : Option Symbol := reservedWords.find? (·.lexeme == word)

/-- The reserved words that open a declaration or a statement. -/
def startsStatement : Symbol → Bool
  | kwClass | kwFun | kwVar | kwFor | kwIf | kwWhile | kwPrint | kwReturn => true
  | _ => false

end Symbol

/-- What a token is, apart from how and where it is written. -/
inductive Kind where
  | symbol (symbol : Symbol)
  | identifier
  | string (text : String)
  | number (value : Float)
  | endOfInput
  deriving Repr, Inhabited

namespace Kind

def name : Kind → String
  | symbol s => s.name
  | identifier => "IDENTIFIER"
  | string _ => "STRING"
  | number _ => "NUMBER"
  | endOfInput => "EOF"

def startsStatement : Kind → Bool
  | symbol s => s.startsStatement
  | _ => false

def isEnd : Kind → Bool
  | endOfInput => true
  | _ => false

end Kind

/-- A token with its text and the line on which it ends. -/
structure Token where
  kind : Kind
  lexeme : String
  line : Nat
  deriving Repr, Inhabited

namespace Token

/-- The token that ends a source whose last line is `line`. -/
def endOfInput (line : Nat) : Token := ⟨.endOfInput, "", line⟩

/-- Where a diagnostic about the token points. -/
def location (token : Token) : String :=
  if token.kind.isEnd then " at end" else s!" at '{token.lexeme}'"

end Token
end Lox
