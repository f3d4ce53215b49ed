import Lox.Number.Binary

/-!
# Shortest decimals

Among the decimals that round to a given double, `shortest` finds the one with the fewest digits,
and of several the nearest. The search goes through the grids of multiples of powers of ten, from
coarse to fine; on each grid only the two neighbours of the value need a test, because the decimals
that round to a double form an interval around it. The first grid with a neighbour in that
interval gives the answer.
-/
namespace Lox.Number

/-- The decimal `digits * 10 ^ exponent`. -/
structure Decimal where
  digits : Nat
  exponent : Int
  deriving Repr, DecidableEq

/-- Which of two equally near neighbours is taken. -/
inductive Tie where
  | toEven
  | upward
  deriving Repr, DecidableEq

namespace Magnitude

/-- One unit of the mantissa and the unit of the grid of multiples of `10 ^ grid`, both in a
common measure. -/
def units (x : Magnitude) (grid : Int) : Nat × Nat :=
  (Nat.pow 2 x.exponent.toNat * Nat.pow 10 (-grid).toNat,
    Nat.pow 2 (-x.exponent).toNat * Nat.pow 10 grid.toNat)

/-- Whether `digits * 10 ^ grid` lies among the reals that round to `x`: from half way to the
neighbour below to half way to the neighbour above, ends included when the mantissa is even. -/
def rounds (x : Magnitude) (digits : Nat) (grid : Int) : Bool :=
  let (one, step) := x.units grid
  let value := 4 * digits * step
  let low := (if x.narrowBelow then 4 * x.mantissa - 1 else 4 * x.mantissa - 2) * one
  let high := (4 * x.mantissa + 2) * one
  if x.mantissa % 2 = 0 then low ≤ value && value ≤ high else low < value && value < high

/-- The neighbour of `x` on the grid of multiples of `10 ^ grid` that rounds to `x`; of two such
neighbours the nearer. -/
def onGrid? (x : Magnitude) (tie : Tie) (grid : Int) : Option Decimal :=
  let (one, step) := x.units grid
  let below := x.mantissa * one / step
  let above := below + 1
  match x.rounds below grid, x.rounds above grid with
  | false, false => none
  | true, false => some ⟨below, grid⟩
  | false, true => some ⟨above, grid⟩
  | true, true =>
    match compare (2 * (x.mantissa * one)) ((below + above) * step), tie with
    | .lt, _ => some ⟨below, grid⟩
    | .gt, _ => some ⟨above, grid⟩
    | .eq, .upward => some ⟨above, grid⟩
    | .eq, .toEven => some ⟨if below % 2 = 0 then below else above, grid⟩

/-- A power of ten above the magnitude: `10 ^ coarsestGrid` exceeds it. -/
def coarsestGrid (x : Magnitude) : Int :=
  ((Nat.log2 x.mantissa : Int) + 1 + x.exponent) * 30103 / 100000 + 1

/-- The exact value as a decimal. -/
def exact (x : Magnitude) : Decimal :=
  ⟨x.mantissa * Nat.pow 2 x.exponent.toNat * Nat.pow 5 (-x.exponent).toNat, min x.exponent 0⟩

/-- Tries the grids from `10 ^ grid` down, `steps` of them. -/
def search (x : Magnitude) (tie : Tie) : Nat → Int → Decimal
  | 0, _ => x.exact
  | steps + 1, grid => (x.onGrid? tie grid).getD (search x tie steps (grid - 1))

/-- The decimal with the fewest digits that rounds to `x`. The grid of the exact value is the last
one tried, so the search never ends without an answer. -/
def shortest (x : Magnitude) (tie : Tie) : Decimal :=
  if x.mantissa = 0 then
    ⟨0, 0⟩
  else
    let start := x.coarsestGrid
    x.search tie (start - min x.exponent 0 + 1).toNat start

end Magnitude
end Lox.Number
