import Lox.Proofs.Number.Intervals

/-!
# The nearest double

The numbers in the interval of a double are those that are nearer to it than to any other double,
or half way to a neighbour if the mantissa is even. Magnitudes of any size take part here, so a
number far beyond the largest finite double is not near it. A larger number never rounds to a
smaller double.
-/
namespace Lox.Number

/-- Of two numbers, the smaller is the nearer if the mean of both is not reached. -/
theorem abs_sub_lt_iff_of_lt {a b v : ℚ} (h : a < b) : |v - a| < |v - b| ↔ 2 * v < a + b := by
  rw [← sq_lt_sq]
  constructor <;> intro <;> nlinarith

theorem abs_sub_lt_iff_of_gt {a b v : ℚ} (h : b < a) : |v - a| < |v - b| ↔ a + b < 2 * v := by
  rw [← sq_lt_sq]
  constructor <;> intro <;> nlinarith

theorem abs_sub_eq_iff {a b v : ℚ} (h : a ≠ b) : |v - a| = |v - b| ↔ 2 * v = a + b := by
  rw [abs_eq_abs]
  constructor
  · rintro (heq | heq)
    · exact absurd (by linarith) h
    · linarith
  · intro heq
    exact .inr (by linarith)

namespace Magnitude
variable {x y : Magnitude} {v w : ℚ}

/-- No other magnitude is nearer to the number, and none is as near unless the mantissa is even. -/
def Nearest (x : Magnitude) (v : ℚ) : Prop :=
  ∀ y : Magnitude, y.Canonical → y ≠ x →
    |v - x.value| < |v - y.value| ∨ |v - x.value| = |v - y.value| ∧ x.mantissa % 2 = 0

theorem value_add_le_of_exponent_lt (hx : x.Canonical) (hy : y.Canonical)
    (h : x.exponent < y.exponent) : x.value + 2 ^ x.exponent ≤ y.value := by
  have hnormal : (2 ^ 52 : ℚ) ≤ y.mantissa := by
    exact_mod_cast hy.normal (by have := hx.lowest; lia)
  have hbounded : (x.mantissa + 1 : ℚ) ≤ 2 ^ 53 := by exact_mod_cast hx.bounded
  have hdouble : (2 : ℚ) * 2 ^ x.exponent ≤ 2 ^ y.exponent := by
    rw [← zpow_one_add₀ (by norm_num)]
    exact zpow_le_zpow_right₀ (by norm_num) (by lia)
  unfold value
  calc (x.mantissa * 2 ^ x.exponent + 2 ^ x.exponent : ℚ)
      = (x.mantissa + 1) * 2 ^ x.exponent := by ring
    _ ≤ 2 ^ 53 * 2 ^ x.exponent := by gcongr
    _ = 2 ^ 52 * (2 * 2 ^ x.exponent) := by ring
    _ ≤ y.mantissa * 2 ^ y.exponent := by gcongr

theorem exponent_le_of_value_lt (hx : x.Canonical) (hy : y.Canonical) (h : x.value < y.value) :
    x.exponent ≤ y.exponent := by
  by_contra! hlt
  have hle := value_add_le_of_exponent_lt hy hx hlt
  have hpos : (0 : ℚ) < 2 ^ y.exponent := by positivity
  linarith

theorem mantissa_lt_of_value_lt (heq : x.exponent = y.exponent) (h : x.value < y.value) :
    (x.mantissa + 1 : ℚ) ≤ y.mantissa := by
  have hpos : (0 : ℚ) < 2 ^ y.exponent := by positivity
  unfold value at h
  rw [heq] at h
  exact_mod_cast (mul_lt_mul_iff_left₀ hpos).mp h

/-- Half way up from a magnitude is not beyond half way to a larger one. -/
theorem two_high_le (hx : x.Canonical) (hy : y.Canonical) (h : x.value < y.value) :
    2 * x.high ≤ x.value + y.value := by
  have hstep : x.value + 2 ^ x.exponent ≤ y.value := by
    obtain hlt | heq := (exponent_le_of_value_lt hx hy h).lt_or_eq
    · exact value_add_le_of_exponent_lt hx hy hlt
    · have hmantissa := mantissa_lt_of_value_lt heq h
      unfold value
      rw [heq]
      calc (x.mantissa * 2 ^ y.exponent + 2 ^ y.exponent : ℚ)
          = (x.mantissa + 1) * 2 ^ y.exponent := by ring
        _ ≤ y.mantissa * 2 ^ y.exponent := by gcongr
  have hhigh : 2 * x.high = x.value + (x.value + 2 ^ x.exponent) := by
    unfold high value
    ring
  linarith

/-- Half way down from a magnitude is not beyond half way to a smaller one. -/
theorem le_two_low (hx : x.Canonical) (hy : y.Canonical) (h : y.value < x.value) :
    y.value + x.value ≤ 2 * x.low := by
  obtain hlt | heq := (exponent_le_of_value_lt hy hx h).lt_or_eq
  · have hne : x.exponent ≠ -1074 := by have := hy.lowest; lia
    have hnormal : (2 ^ 52 : ℚ) ≤ x.mantissa := by exact_mod_cast hx.normal hne
    have hbelow : y.value ≤ (2 ^ 52 - 1 / 2) * 2 ^ x.exponent := by
      have hbounded : (y.mantissa : ℚ) ≤ 2 ^ 53 - 1 := by
        have : (y.mantissa + 1 : ℚ) ≤ 2 ^ 53 := by exact_mod_cast hy.bounded
        linarith
      have hdouble : (2 : ℚ) * 2 ^ y.exponent ≤ 2 ^ x.exponent := by
        rw [← zpow_one_add₀ (by norm_num)]
        exact zpow_le_zpow_right₀ (by norm_num) (by lia)
      unfold value
      calc (y.mantissa * 2 ^ y.exponent : ℚ)
          ≤ (2 ^ 53 - 1) * 2 ^ y.exponent := by gcongr
        _ = (2 ^ 52 - 1 / 2) * (2 * 2 ^ y.exponent) := by ring
        _ ≤ (2 ^ 52 - 1 / 2) * 2 ^ x.exponent := by gcongr
    have hlow : x.value + (2 ^ 52 - 1 / 2) * 2 ^ x.exponent ≤ 2 * x.low := by
      have hpos : (0 : ℚ) < 2 ^ x.exponent := by positivity
      unfold value low
      split
      · nlinarith
      · next hwide =>
        have hnarrow := mt hx.narrow.mpr hwide
        have hnext : (2 ^ 52 + 1 : ℚ) ≤ x.mantissa := by
          have : 2 ^ 52 + 1 ≤ x.mantissa := by have := hx.normal hne; lia
          exact_mod_cast this
        nlinarith
    linarith
  · have hmantissa := mantissa_lt_of_value_lt heq h
    have hhalf := x.half_le_low
    have hpos : (0 : ℚ) < 2 ^ x.exponent := by positivity
    unfold value
    rw [heq]
    nlinarith

/-- Every magnitude has a neighbour above. -/
theorem exists_above (hx : x.Canonical) :
    ∃ y : Magnitude, y.Canonical ∧ x.value < y.value ∧ x.value + y.value = 2 * x.high := by
  have hbounded := hx.bounded
  have hlowest := hx.lowest
  have hnormal := hx.normal
  have hpos : (0 : ℚ) < 2 ^ x.exponent := by positivity
  have hhigh : 2 * x.high = x.value + (x.value + 2 ^ x.exponent) := by
    unfold high value
    ring
  suffices hnext : ∃ y : Magnitude, y.Canonical ∧ y.value = x.value + 2 ^ x.exponent by
    obtain ⟨y, hy, hvalue⟩ := hnext
    exact ⟨y, hy, by linarith, by linarith⟩
  obtain hlt | heq := (Nat.succ_le_of_lt hbounded).lt_or_eq
  · refine ⟨.scaled (x.mantissa + 1) x.exponent, canonical_scaled hlt hlowest ?_, ?_⟩
    · exact fun hne => (hnormal hne).trans (Nat.le_succ _)
    · rw [value_scaled, value]
      push_cast
      ring
  · refine ⟨.scaled (2 ^ 52) (x.exponent + 1),
      canonical_scaled (by norm_num) (by lia) fun _ => le_rfl, ?_⟩
    have hmantissa : (x.mantissa : ℚ) = 2 ^ 53 - 1 := by
      have : (x.mantissa + 1 : ℚ) = 2 ^ 53 := by exact_mod_cast heq
      linarith
    rw [value_scaled, value, zpow_add_one₀ (by norm_num), hmantissa]
    push_cast
    ring

/-- Every magnitude but zero has a neighbour below. -/
theorem exists_below (hx : x.Canonical) (h : 0 < x.mantissa) :
    ∃ y : Magnitude, y.Canonical ∧ y.value < x.value ∧ x.value + y.value = 2 * x.low := by
  have hbounded := hx.bounded
  have hlowest := hx.lowest
  have hnormal := hx.normal
  have hpos : (0 : ℚ) < 2 ^ x.exponent := by positivity
  by_cases hnarrow : x.narrowBelow = true
  · obtain ⟨hmantissa, hne⟩ := hx.narrow.mp hnarrow
    have hmantissa' : (x.mantissa : ℚ) = 2 ^ 52 := by exact_mod_cast hmantissa
    have hvalue : (scaled (2 ^ 53 - 1) (x.exponent - 1)).value =
        x.value - 1 / 2 * 2 ^ x.exponent := by
      rw [value_scaled, value, zpow_sub_one₀ (by norm_num), hmantissa']
      push_cast
      ring
    refine ⟨_, canonical_scaled (by norm_num) (by lia) fun _ => by norm_num,
      hvalue.trans_lt (by linarith), ?_⟩
    rw [hvalue, low, value, if_pos hnarrow]
    ring
  · have hwide := mt hx.narrow.mpr hnarrow
    have hvalue : (scaled (x.mantissa - 1) x.exponent).value = x.value - 2 ^ x.exponent := by
      rw [value_scaled, value, Nat.cast_sub h]
      push_cast
      ring
    refine ⟨_, canonical_scaled (by lia) hlowest (by lia), hvalue.trans_lt (by linarith), ?_⟩
    rw [hvalue, low, value, if_neg hnarrow]
    ring

/-- The interval without its ends, and the ends if the mantissa is even. -/
theorem attracts_iff : x.Attracts v ↔
    (x.low < v ∨ x.low = v ∧ x.mantissa % 2 = 0) ∧
      (v < x.high ∨ v = x.high ∧ x.mantissa % 2 = 0) := by
  unfold Attracts
  split
  · next heven => simp only [heven, and_true, ← le_iff_lt_or_eq]
  · next hodd => simp only [hodd, and_false, or_false]

theorem value_injective (hx : x.Canonical) (hy : y.Canonical) (h : x.value = y.value) : x = y :=
  eq_of_attracts hx hy x.attracts_value (h ▸ y.attracts_value)

theorem Attracts.nearest (hx : x.Canonical) (h : x.Attracts v) : x.Nearest v := by
  obtain ⟨hlow, hhigh⟩ := attracts_iff.mp h
  intro y hy hne
  have hvalue : x.value ≠ y.value := fun heq => hne (value_injective hx hy heq).symm
  rw [abs_sub_eq_iff hvalue]
  obtain hlt | hgt := hvalue.lt_or_gt
  · rw [abs_sub_lt_iff_of_lt hlt]
    have hmean := two_high_le hx hy hlt
    obtain hhigh | ⟨hhigh, heven⟩ := hhigh
    · exact .inl (by linarith)
    · obtain hmean | hmean := hmean.lt_or_eq
      · exact .inl (by linarith)
      · exact .inr ⟨by linarith, heven⟩
  · rw [abs_sub_lt_iff_of_gt hgt]
    have hmean := le_two_low hx hy hgt
    obtain hlow | ⟨hlow, heven⟩ := hlow
    · exact .inl (by linarith)
    · obtain hmean | hmean := hmean.lt_or_eq
      · exact .inl (by linarith)
      · exact .inr ⟨by linarith, heven⟩

theorem Nearest.attracts (hx : x.Canonical) (hv : 0 ≤ v) (h : x.Nearest v) : x.Attracts v := by
  refine attracts_iff.mpr ⟨?_, ?_⟩
  · obtain hzero | hpos := x.mantissa.eq_zero_or_pos
    · -- below zero there is no number to round
      have hwide : x.narrowBelow = false := by
        rw [Bool.eq_false_iff]
        intro hnarrow
        have := (hx.narrow.mp hnarrow).1
        lia
      have hunit : (0 : ℚ) < 2 ^ x.exponent := by positivity
      refine .inl (lt_of_lt_of_le ?_ hv)
      unfold low
      rw [hzero, hwide]
      norm_num [hunit]
    · obtain ⟨y, hy, hlt, hmean⟩ := exists_below hx hpos
      have hnear := h y hy (fun heq => hlt.ne (congrArg value heq))
      rw [abs_sub_lt_iff_of_gt hlt, abs_sub_eq_iff hlt.ne'] at hnear
      exact hnear.imp (fun _ => by linarith) (And.imp_left fun _ => by linarith)
  · obtain ⟨y, hy, hlt, hmean⟩ := exists_above hx
    have hnear := h y hy (fun heq => hlt.ne' (congrArg value heq))
    rw [abs_sub_lt_iff_of_lt hlt, abs_sub_eq_iff hlt.ne] at hnear
    exact hnear.imp (fun _ => by linarith) (And.imp_left fun _ => by linarith)

/-- The numbers that round to a magnitude are those to which it is nearest. -/
theorem nearest_iff_attracts (hx : x.Canonical) (hv : 0 ≤ v) : x.Nearest v ↔ x.Attracts v :=
  ⟨Nearest.attracts hx hv, Attracts.nearest hx⟩

/-- A larger number does not round to a smaller magnitude. -/
theorem value_le_of_attracts (hx : x.Canonical) (hy : y.Canonical) (h : x.Attracts v)
    (h' : y.Attracts w) (hle : v ≤ w) : x.value ≤ y.value := by
  by_contra! hlt
  -- both numbers are half way between the magnitudes, so both round to one
  have hhigh := two_high_le hy hx hlt
  have hlow := le_two_low hx hy hlt
  have hv := h.low_le
  have hw := h'.le_high
  have heq : v = w := by linarith
  exact hlt.ne' (congrArg value (eq_of_attracts hx hy h (heq ▸ h')))

end Magnitude
end Lox.Number
