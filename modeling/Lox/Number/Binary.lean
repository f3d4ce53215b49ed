/-!
# Doubles as exact binary fractions

A finite double is a sign and a magnitude, the magnitude a natural number times a power of two.
Everything that is written about a number is worked out on these exact parts, so no rounding
takes place on the way to its text.
-/
namespace Lox.Number

/-- The magnitude `mantissa * 2 ^ exponent` of a finite double. -/
structure Magnitude where
  mantissa : Nat
  exponent : Int
  /-- The gap to the next double below is half the gap to the one above. -/
  narrowBelow : Bool := false
  deriving Repr, DecidableEq

/-- What the bits of a double stand for. -/
inductive Binary where
  | nan
  | infinite (negative : Bool)
  | finite (negative : Bool) (magnitude : Magnitude)
  deriving Repr, DecidableEq

/-- Reads the sign bit, the eleven exponent bits and the 52 fraction bits. -/
def Binary.ofBits (bits : UInt64) : Binary :=
  let negative := bits >>> 63 == 1
  let exponent := ((bits >>> 52) &&& 0x7FF).toNat
  let fraction := (bits &&& 0xFFFFFFFFFFFFF).toNat
  if exponent = 0x7FF then
    if fraction = 0 then .infinite negative else .nan
  else if exponent = 0 then
    .finite negative { mantissa := fraction, exponent := -1074 }
  else
    .finite negative
      { mantissa := Nat.pow 2 52 + fraction
        exponent := (exponent : Int) - 1075
        narrowBelow := fraction == 0 && exponent > 1 }

def Binary.ofFloat (x : Float) : Binary := .ofBits x.toBits

/-- The magnitude as a natural number, if it is one. -/
def Magnitude.toNat? (x : Magnitude) : Option Nat :=
  let divisor := Nat.pow 2 (-x.exponent).toNat
  if x.mantissa % divisor = 0 then
    some (x.mantissa / divisor * Nat.pow 2 x.exponent.toNat)
  else
    none

end Lox.Number
