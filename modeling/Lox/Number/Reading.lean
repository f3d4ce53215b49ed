/-!
# Reading numbers

A number literal is a row of digits, with a second row after a point. Its value is the double
nearest to the decimal that it writes. In other decimals one of the two rows may be missing.
-/
namespace Lox.Number

/-- The natural number that a row of decimal digits writes. -/
def ofDigits (digits : List Char) : Nat :=
  digits.foldl (fun n c => 10 * n + (c.toNat - '0'.toNat)) 0

/-- The value of the digits `whole`, a point and the digits `fraction`. -/
def ofLiteral (whole fraction : List Char) : Float :=
  Float.ofScientific (ofDigits (whole ++ fraction)) true fraction.length

/-- The value of a decimal without a sign and an exponent; no other text has one. -/
def ofDecimal? (text : List Char) : Option Float :=
  let whole := text.takeWhile Char.isDigit
  match text.dropWhile Char.isDigit with
  | [] => if whole = [] then none else some (ofLiteral whole [])
  | '.' :: fraction =>
    if (whole ++ fraction ≠ []) ∧ fraction.all Char.isDigit then some (ofLiteral whole fraction)
    else none
  | _ => none

end Lox.Number
