import Mathlib.Algebra.Order.Field.Power
import Mathlib.Algebra.Order.Field.Rat
import Mathlib.Data.Nat.Cast.Field
import Mathlib.Tactic.FieldSimp
import Mathlib.Tactic.Linarith
import Lox.Number.Shortest
import Lox.Proofs.Number.Bits

/-!
# What rounds to a double

The decimals that round to a double form an interval around it, with its ends if the mantissa is
even. The intervals of two doubles have no decimal in common, so a decimal rounds to one double
only. The shortest decimal of a double rounds to it.
-/
namespace Lox.Number

/-- The rational number that the decimal writes. -/
def Decimal.value (d : Decimal) : ℚ := d.digits * 10 ^ d.exponent

theorem pow_toNat {b : ℚ} (hb : b ≠ 0) (e : ℤ) : b ^ e.toNat = b ^ e * b ^ (-e).toNat := by
  obtain ⟨n, rfl | rfl⟩ := e.eq_nat_or_neg
  · simp
  · simp [hb]

namespace Magnitude
variable {x y : Magnitude} {v : ℚ}

def value (x : Magnitude) : ℚ := x.mantissa * 2 ^ x.exponent

@[simp] theorem value_scaled (m : Nat) (e : ℤ) : (scaled m e).value = m * 2 ^ e := rfl

/-- Half way from `x` to the neighbour below. -/
def low (x : Magnitude) : ℚ :=
  (x.mantissa - if x.narrowBelow then 1 / 4 else 1 / 2) * 2 ^ x.exponent

/-- Half way from `x` to the neighbour above. -/
def high (x : Magnitude) : ℚ := (x.mantissa + 1 / 2) * 2 ^ x.exponent

/-- The number rounds to `x`. -/
def Attracts (x : Magnitude) (v : ℚ) : Prop :=
  if x.mantissa % 2 = 0 then x.low ≤ v ∧ v ≤ x.high else x.low < v ∧ v < x.high

/-- What a unit of the measure of `units` stands for. -/
def measure (x : Magnitude) (grid : ℤ) : ℚ := 2 ^ (-x.exponent).toNat * 10 ^ (-grid).toNat

theorem measure_pos (x : Magnitude) (grid : ℤ) : 0 < x.measure grid := by
  unfold measure
  positivity

theorem units_fst (x : Magnitude) (grid : ℤ) :
    ((x.units grid).1 : ℚ) = 2 ^ x.exponent * x.measure grid := by
  unfold units measure
  push_cast
  rw [Nat.pow_eq, Nat.pow_eq]
  push_cast
  rw [pow_toNat (by norm_num) x.exponent, mul_assoc]

theorem units_snd (x : Magnitude) (grid : ℤ) :
    ((x.units grid).2 : ℚ) = 10 ^ grid * x.measure grid := by
  unfold units measure
  push_cast
  rw [Nat.pow_eq, Nat.pow_eq]
  push_cast
  rw [pow_toNat (by norm_num) grid]
  ring

theorem cast_quarters (x : Magnitude) (quarters : Nat) (grid : ℤ) :
    ((quarters * (x.units grid).1 : Nat) : ℚ) =
      quarters / 4 * 2 ^ x.exponent * (4 * x.measure grid) := by
  rw [Nat.cast_mul, units_fst]
  ring

theorem cast_digits (x : Magnitude) (digits : Nat) (grid : ℤ) :
    ((4 * digits * (x.units grid).2 : Nat) : ℚ) =
      digits * 10 ^ grid * (4 * x.measure grid) := by
  rw [Nat.cast_mul, units_snd]
  push_cast
  ring

/-- Natural numbers compare like what they stand for in a measure. -/
theorem le_iff_of_measure {a b : Nat} {p q c : ℚ} (hc : 0 < c) (ha : (a : ℚ) = p * c)
    (hb : (b : ℚ) = q * c) : a ≤ b ↔ p ≤ q := by
  rw [← Nat.cast_le (α := ℚ), ha, hb, mul_le_mul_iff_left₀ hc]

theorem lt_iff_of_measure {a b : Nat} {p q c : ℚ} (hc : 0 < c) (ha : (a : ℚ) = p * c)
    (hb : (b : ℚ) = q * c) : a < b ↔ p < q := by
  rw [← Nat.cast_lt (α := ℚ), ha, hb, mul_lt_mul_iff_left₀ hc]

/-- How many quarters of a unit of the mantissa `low` is, zero if it is below zero. -/
def lowQuarters (x : Magnitude) : Nat :=
  if x.narrowBelow then 4 * x.mantissa - 1 else 4 * x.mantissa - 2

theorem low_eq_lowQuarters (h : 0 < x.mantissa) :
    x.low = (x.lowQuarters / 4 : ℚ) * 2 ^ x.exponent := by
  unfold low lowQuarters
  split
  · rw [Nat.cast_sub (by lia)]
    push_cast
    ring
  · rw [Nat.cast_sub (by lia)]
    push_cast
    ring

theorem low_nonpos (h : x.mantissa = 0) : x.low ≤ 0 := by
  unfold low
  rw [h]
  refine mul_nonpos_of_nonpos_of_nonneg ?_ (by positivity)
  split <;> norm_num

theorem high_eq_quarters (x : Magnitude) :
    x.high = ((4 * x.mantissa + 2 : Nat) / 4 : ℚ) * 2 ^ x.exponent := by
  unfold high
  push_cast
  ring

/-- The test of a decimal is that of its value. -/
theorem rounds_iff (x : Magnitude) (digits : Nat) (grid : ℤ) :
    x.rounds digits grid = true ↔ x.Attracts (digits * 10 ^ grid) := by
  have hpos : 0 < 4 * x.measure grid := mul_pos four_pos (x.measure_pos grid)
  have hdigits := x.cast_digits digits grid
  have hhigh := x.cast_quarters (4 * x.mantissa + 2) grid
  have hlow := x.cast_quarters x.lowQuarters grid
  unfold rounds Attracts
  change (if x.mantissa % 2 = 0 then
      decide (x.lowQuarters * (x.units grid).1 ≤ 4 * digits * (x.units grid).2) &&
        decide (4 * digits * (x.units grid).2 ≤ (4 * x.mantissa + 2) * (x.units grid).1)
    else
      decide (x.lowQuarters * (x.units grid).1 < 4 * digits * (x.units grid).2) &&
        decide (4 * digits * (x.units grid).2 < (4 * x.mantissa + 2) * (x.units grid).1)) = true ↔ _
  rw [high_eq_quarters]
  split
  · rw [Bool.and_eq_true, decide_eq_true_eq, decide_eq_true_eq,
      le_iff_of_measure hpos hdigits hhigh]
    refine and_congr_left fun _ => ?_
    obtain hzero | hmantissa := x.mantissa.eq_zero_or_pos
    · -- the lower end is below zero, and so are no decimals
      have hbelow : x.low ≤ digits * 10 ^ grid :=
        (low_nonpos hzero).trans (by positivity)
      have hquarters : x.lowQuarters = 0 := by
        unfold lowQuarters
        rw [hzero]
        split <;> rfl
      simp [hquarters, hbelow]
    · rw [low_eq_lowQuarters hmantissa, le_iff_of_measure hpos hlow hdigits]
  · next hodd =>
    rw [Bool.and_eq_true, decide_eq_true_eq, decide_eq_true_eq,
      lt_iff_of_measure hpos hdigits hhigh, lt_iff_of_measure hpos hlow hdigits,
      low_eq_lowQuarters (by lia)]

theorem Attracts.low_le (h : x.Attracts v) : x.low ≤ v := by
  unfold Attracts at h
  split at h
  · exact h.1
  · exact h.1.le

theorem Attracts.le_high (h : x.Attracts v) : v ≤ x.high := by
  unfold Attracts at h
  split at h
  · exact h.2
  · exact h.2.le

/-- Only even mantissas attract the ends of their intervals. -/
theorem Attracts.even_of_high_le (h : x.Attracts v) (hv : x.high ≤ v) : x.mantissa % 2 = 0 := by
  unfold Attracts at h
  split at h
  · assumption
  · exact absurd h.2 hv.not_gt

theorem Attracts.even_of_le_low (h : x.Attracts v) (hv : v ≤ x.low) : x.mantissa % 2 = 0 := by
  unfold Attracts at h
  split at h
  · assumption
  · exact absurd h.1 hv.not_gt

theorem attracts_value (x : Magnitude) : x.Attracts x.value := by
  have hpos : (0 : ℚ) < 2 ^ x.exponent := by positivity
  have hlow : x.low < x.value := by
    unfold low value
    refine mul_lt_mul_of_pos_right ?_ hpos
    split <;> norm_num
  have hhigh : x.value < x.high := by
    unfold high value
    exact mul_lt_mul_of_pos_right (by norm_num) hpos
  unfold Attracts
  split
  · exact ⟨hlow.le, hhigh.le⟩
  · exact ⟨hlow, hhigh⟩

/-- In one binade the lower end is at most half a unit away. -/
theorem half_le_low (x : Magnitude) : (x.mantissa - 1 / 2) * 2 ^ x.exponent ≤ x.low := by
  unfold low
  gcongr
  split <;> norm_num

/-- A canonical magnitude with a larger exponent starts where the other binade ends. -/
theorem top_le_low (hy : y.Canonical) (h : x.exponent < y.exponent) (hlowest : -1074 ≤ x.exponent) :
    (2 ^ 53 - 1 / 2 : ℚ) * 2 ^ x.exponent ≤ y.low := by
  have hne : y.exponent ≠ -1074 := by lia
  have hnormal := hy.normal hne
  have hdouble : (2 ^ x.exponent : ℚ) ≤ 2 ^ y.exponent / 2 := by
    rw [div_eq_mul_inv, ← zpow_sub_one₀ (by norm_num)]
    exact zpow_le_zpow_right₀ (by norm_num) (by lia)
  have hquarter : (2 ^ 52 - 1 / 4 : ℚ) * 2 ^ y.exponent ≤ y.low := by
    unfold low
    refine mul_le_mul_of_nonneg_right ?_ (by positivity)
    split
    · have : (2 ^ 52 : ℚ) ≤ y.mantissa := by exact_mod_cast hnormal
      linarith
    · next hwide =>
      have hnarrow := mt hy.narrow.mpr hwide
      have : (2 ^ 52 + 1 : ℚ) ≤ y.mantissa := by
        have : 2 ^ 52 + 1 ≤ y.mantissa := by lia
        exact_mod_cast this
      linarith
  linarith

/-- Of two magnitudes with one exponent, none has the greater mantissa. -/
theorem mantissa_le_of_attracts (h : x.Attracts v) (h' : y.Attracts v)
    (heq : x.exponent = y.exponent) : x.mantissa ≤ y.mantissa := by
  by_contra! hgt
  have hpos : (0 : ℚ) < 2 ^ y.exponent := by positivity
  have hbelow := x.half_le_low
  rw [heq] at hbelow
  have hle : (x.mantissa - 1 / 2 : ℚ) * 2 ^ y.exponent ≤ (y.mantissa + 1 / 2) * 2 ^ y.exponent :=
    hbelow.trans (h.low_le.trans h'.le_high)
  have hnext : x.mantissa = y.mantissa + 1 := by
    have hle := (mul_le_mul_iff_left₀ hpos).mp hle
    have : (x.mantissa : ℚ) ≤ y.mantissa + 1 := by linarith
    have : x.mantissa ≤ y.mantissa + 1 := by exact_mod_cast this
    lia
  -- the intervals meet in one end, but neighbours are not both even
  have hend : y.high ≤ x.low := by
    refine le_trans (le_of_eq ?_) hbelow
    unfold high
    rw [hnext]
    push_cast
    ring
  have hx := h.even_of_le_low (h'.le_high.trans hend)
  have hy := h'.even_of_high_le (hend.trans h.low_le)
  lia

theorem exponent_le_of_attracts (hx : x.Canonical) (hy : y.Canonical) (h : x.Attracts v)
    (h' : y.Attracts v) : y.exponent ≤ x.exponent := by
  by_contra! hlt
  have hpos : (0 : ℚ) < 2 ^ x.exponent := by positivity
  have htop : (2 ^ 53 - 1 / 2 : ℚ) * 2 ^ x.exponent ≤ v :=
    (top_le_low hy hlt hx.lowest).trans h'.low_le
  have hmantissa : x.mantissa = 2 ^ 53 - 1 := by
    have hle := (mul_le_mul_iff_left₀ hpos).mp (htop.trans h.le_high)
    have : (2 ^ 53 : ℚ) ≤ x.mantissa + 1 := by linarith
    have : 2 ^ 53 ≤ x.mantissa + 1 := by exact_mod_cast this
    have := hx.bounded
    lia
  -- the intervals can only meet in the end of one with an odd mantissa
  have hend : x.high ≤ v := by
    refine le_trans (le_of_eq ?_) htop
    unfold high
    rw [hmantissa]
    norm_num
  have := h.even_of_high_le hend
  lia

/-- A number rounds to one canonical magnitude only. -/
theorem eq_of_attracts (hx : x.Canonical) (hy : y.Canonical) (h : x.Attracts v)
    (h' : y.Attracts v) : x = y := by
  have hexponent : x.exponent = y.exponent :=
    le_antisymm (exponent_le_of_attracts hy hx h' h) (exponent_le_of_attracts hx hy h h')
  have hmantissa : x.mantissa = y.mantissa :=
    le_antisymm (mantissa_le_of_attracts h h' hexponent)
      (mantissa_le_of_attracts h' h hexponent.symm)
  exact ext_of_canonical hx hy hmantissa hexponent

theorem value_exact (x : Magnitude) : x.exact.value = x.value := by
  unfold exact Decimal.value value
  obtain ⟨n, hn | hn⟩ := x.exponent.eq_nat_or_neg
  · simp [hn]
  · have hten : (10 : ℚ) ^ n = 2 ^ n * 5 ^ n := by rw [← mul_pow]; norm_num
    simp only [hn, neg_neg, Int.toNat_natCast, Int.toNat_neg_natCast, Nat.pow_eq]
    push_cast
    rw [min_eq_left (by simp), zpow_neg, zpow_neg, zpow_natCast, zpow_natCast, hten]
    field_simp

/-- A neighbour on a grid is taken only if it rounds to `x`. -/
theorem rounds_of_onGrid? {tie : Tie} {grid : ℤ} {d : Decimal} (h : x.onGrid? tie grid = some d) :
    x.rounds d.digits d.exponent = true := by
  unfold onGrid? at h
  dsimp only at h
  split at h
  · exact absurd h (by simp)
  · next hbelow habove =>
    cases h
    exact hbelow
  · next hbelow habove =>
    cases h
    exact habove
  · next hbelow habove =>
    split at h <;> cases h
    · exact hbelow
    · exact habove
    · exact habove
    · dsimp only
      split
      · exact hbelow
      · exact habove

/-- The decimal that the search ends with rounds to `x`. -/
theorem attracts_search (x : Magnitude) (tie : Tie) (steps : Nat) (grid : ℤ) :
    x.Attracts (x.search tie steps grid).value := by
  induction steps generalizing grid with
  | zero =>
    rw [search, value_exact]
    exact x.attracts_value
  | succ steps ih =>
    rw [search]
    cases h : x.onGrid? tie grid with
    | none => exact ih (grid - 1)
    | some d => exact (x.rounds_iff d.digits d.exponent).mp (rounds_of_onGrid? h)

/-- The shortest decimal rounds to `x`. -/
theorem attracts_shortest (x : Magnitude) (tie : Tie) : x.Attracts (x.shortest tie).value := by
  unfold shortest
  split
  · next hzero =>
    have hvalue : Decimal.value ⟨0, 0⟩ = x.value := by simp [Decimal.value, value, hzero]
    rw [hvalue]
    exact x.attracts_value
  · exact x.attracts_search tie _ _

/-- The natural number that a magnitude is. -/
theorem cast_toNat? {n : Nat} (h : x.toNat? = some n) : (n : ℚ) = x.value := by
  unfold toNat? at h
  dsimp only at h
  split at h
  · next hdvd =>
    cases h
    unfold value
    obtain ⟨k, hk | hk⟩ := x.exponent.eq_nat_or_neg
    · simp [hk]
    · simp only [hk, neg_neg, Int.toNat_natCast, Nat.pow_eq] at hdvd ⊢
      rw [Nat.cast_mul, Nat.cast_div (Nat.dvd_of_mod_eq_zero hdvd) (by positivity)]
      simp [div_eq_mul_inv]
  · exact absurd h (by simp)

end Magnitude
end Lox.Number
