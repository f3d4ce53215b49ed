import Lox.Character.Extending
import Lox.Character.Ignorable
import Lox.Character.Unprintable

/-!
# File names in quotes

A file name in a diagnostic stands in double quotes, and each of its characters can be told from
the others: what would be invisible or would join its neighbour is escaped.
-/
namespace Lox.CommandLine

/-- Whether a character could be overlooked where it is written as it is. -/
def isHardToSee (c : Char) : Bool :=
  Character.isExtending c || Character.isUnprintable c || Character.isIgnorable c

/-- A character by its code point. -/
def codePointEscape (c : Char) : String :=
  "\\u\x7b" ++ String.ofList (Nat.toDigits 16 c.toNat) ++ "\x7d"

/-- A character of a file name in quotes. -/
def quoteChar (c : Char) : String :=
  match c with
  | '"' => "\\\""
  | '\\' => "\\\\"
  | '\n' => "\\n"
  | '\r' => "\\r"
  | '\t' => "\\t"
  | '\x00' => "\\0"
  | _ => if isHardToSee c then codePointEscape c else c.toString

def quotedFile (file : String) : String :=
  "\"" ++ String.join (file.toList.map quoteChar) ++ "\""

end Lox.CommandLine
