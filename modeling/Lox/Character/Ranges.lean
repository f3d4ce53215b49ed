/-!
# Ranges of code points

Properties of characters are kept as closed ranges of code points, ascending and apart.
-/
namespace Lox.Character

/-- The first and the last code point of a range. -/
abbrev Range := Nat × Nat

def Range.contains (range : Range) (codePoint : Nat) : Bool :=
  range.1 ≤ codePoint && codePoint ≤ range.2

def inRanges (ranges : List Range) (codePoint : Nat) : Bool :=
  ranges.any fun range => range.contains codePoint

/-- Whether ranges ascend and leave a gap between each other. -/
def ascend : List Range → Bool
  | [] => true
  | [range] => range.1 ≤ range.2
  | range :: next :: rest => range.1 ≤ range.2 && range.2 + 1 < next.1 && ascend (next :: rest)

theorem inRanges_eq_true_iff {ranges : List Range} {codePoint : Nat} :
    inRanges ranges codePoint = true ↔
      ∃ range ∈ ranges, range.1 ≤ codePoint ∧ codePoint ≤ range.2 := by
  simp [inRanges, Range.contains]

end Lox.Character
