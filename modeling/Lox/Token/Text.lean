import Lox.Number.Text
import Lox.Token

/-!
# Token listings

The line that is printed for a token: its kind, its lexeme and the value of its literal.
-/
namespace Lox.Token

/-- Whole literals below `2 ^ 63` are listed with all their digits and a zero fraction, all others
in full by their shortest digits. -/
def numberStyle : Number.Style where
  infinity := "inf"
  tie := .upward
  signedZero := false
  allDigits n := n < Nat.pow 2 63
  positional _ := true
  wholeFraction := false
  mark := "e"
  plus := ""
  mantissaFraction := false

/-- The value of a literal, and `null` for a token without one. -/
def literal (token : Token) : String :=
  match token.kind with
  | .string text => text
  | .number value => numberStyle.write value
  | _ => "null"

def display (token : Token) : String :=
  s!"{token.kind.name} {token.lexeme} {token.literal}"

end Lox.Token
