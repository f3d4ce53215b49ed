import Lox.Number.Text
import Lox.Token

/-!
# Tokens as JSON

A token list written as an indented JSON array: one object for each token, its fields in the order
kind, lexeme, line, two spaces for each level. A kind without a value is a string, a kind with a
value an object with one field.
-/
namespace Lox.Json

/-- Numbers have their shortest digits and always a fraction or an exponent; exponents are written
with a sign, from `10 ^ 16` upwards and below `10 ^ -5`. -/
def numberStyle : Number.Style where
  infinity := "inf"
  tie := .toEven
  signedZero := true
  allDigits _ := false
  positional exponent := -5 ≤ exponent ∧ exponent < 16
  wholeFraction := true
  mark := "e"
  plus := "+"
  mantissaFraction := false

/-- The text of a number; JSON has none for the infinities and for what is not a number. -/
def number (value : Float) : String :=
  if value.isFinite then numberStyle.write value else "null"

/-- The four hexadecimal digits of a control character. -/
def controlCode (c : Char) : String :=
  String.ofList ['\\', 'u', '0', '0', Nat.digitChar (c.toNat / 16), Nat.digitChar (c.toNat % 16)]

/-- A character inside a JSON string: quotes, backslashes and control characters are escaped. -/
def escape (c : Char) : String :=
  match c with
  | '"' => "\\\""
  | '\\' => "\\\\"
  | '\x08' => "\\b"
  | '\x0c' => "\\f"
  | '\n' => "\\n"
  | '\r' => "\\r"
  | '\t' => "\\t"
  | _ => if c.toNat < 0x20 then controlCode c else c.toString

def string (text : String) : String :=
  "\"" ++ String.join (text.toList.map escape) ++ "\""

end Lox.Json

namespace Lox.Token
open Json

/-- A kind that has a value, one level inside the object of its token. -/
def valueJson (name value : String) : String :=
  "\x7b\n      " ++ string name ++ ": " ++ value ++ "\n    \x7d"

def kindJson : Kind → String
  | .string text => valueJson (Kind.string text).name (string text)
  | .number value => valueJson (Kind.number value).name (number value)
  | kind => string kind.name

/-- The token as an object, one level inside the array. -/
def json (token : Token) : String :=
  "  \x7b\n" ++
  "    \"token_type\": " ++ kindJson token.kind ++ ",\n" ++
  "    \"lexeme\": " ++ string token.lexeme ++ ",\n" ++
  "    \"line\": " ++ toString token.line ++ "\n" ++
  "  \x7d"

/-- The whole list as an array. -/
def listJson : List Token → String
  | [] => "[]"
  | tokens => "[\n" ++ ",\n".intercalate (tokens.map json) ++ "\n]"

end Lox.Token
