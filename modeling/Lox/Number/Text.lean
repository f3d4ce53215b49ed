import Lox.Number.Shortest

/-!
# Number texts

A double has a text for every style of writing. A style settles which values are written with all
their digits, when an exponent is written and how, and what stands for the infinities; the digits
themselves are the shortest ones. The styles in use are defined where the texts are produced.
-/
namespace Lox.Number

/-- How many digits `n` has. -/
def digitCount (n : Nat) : Nat := (Nat.toDigits 10 n).length

/-- The exponent of the first digit in scientific writing. -/
def Decimal.leading (d : Decimal) : Int := d.exponent + digitCount d.digits - 1

/-- All digits in place, with zeros where the decimal has none, and no exponent. -/
def Decimal.positional (d : Decimal) : String :=
  let digits := Nat.toDigits 10 d.digits
  if 0 ≤ d.exponent then
    String.ofList (digits ++ List.replicate d.exponent.toNat '0')
  else
    let places := (-d.exponent).toNat
    let padded := List.replicate (places + 1 - digits.length) '0' ++ digits
    let whole := padded.length - places
    String.ofList (padded.take whole ++ '.' :: padded.drop whole)

/-- A way of writing numbers. -/
structure Style where
  /-- What stands for a positive infinity. -/
  infinity : String
  /-- Which of two equally near shortest decimals is written. -/
  tie : Tie
  /-- Whether the zero below zero keeps its sign. -/
  signedZero : Bool
  /-- The whole magnitudes that are written with all their digits and a zero fraction. -/
  allDigits : Nat → Bool
  /-- The exponents of the first digit for which no exponent is written. -/
  positional : Int → Bool
  /-- Whether a whole number without an exponent gets a zero fraction. -/
  wholeFraction : Bool
  /-- What stands before an exponent. -/
  mark : String
  /-- What stands between the mark and an exponent from zero on. -/
  plus : String
  /-- Whether a single digit before an exponent gets a zero fraction. -/
  mantissaFraction : Bool

namespace Style

/-- One digit, the fraction, the mark and the exponent. -/
def scientific (style : Style) (d : Decimal) : String :=
  let mantissa :=
    match Nat.toDigits 10 d.digits with
    | first :: second :: rest => first :: '.' :: second :: rest
    | digits => digits ++ if style.mantissaFraction then ['.', '0'] else []
  let plus := if 0 ≤ d.leading then style.plus else ""
  String.ofList mantissa ++ style.mark ++ plus ++ toString d.leading

def shortest (style : Style) (x : Magnitude) : String :=
  let d := x.shortest style.tie
  if d.digits = 0 ∨ style.positional d.leading then
    d.positional ++ if style.wholeFraction ∧ 0 ≤ d.exponent then ".0" else ""
  else
    style.scientific d

def magnitude (style : Style) (x : Magnitude) : String :=
  match x.toNat?.filter style.allDigits with
  | some n => toString n ++ ".0"
  | none => style.shortest x

def sign (negative : Bool) : String := if negative then "-" else ""

def binary (style : Style) : Binary → String
  | .nan => "NaN"
  | .infinite negative => sign negative ++ style.infinity
  | .finite negative x =>
    sign (negative && (style.signedZero || x.mantissa != 0)) ++ style.magnitude x

/-- The text of a double. -/
def write (style : Style) (x : Float) : String := style.binary (.ofFloat x)

end Style
end Lox.Number
