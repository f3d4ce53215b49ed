import Lox.Number.Text
import Lox.Proofs.Number.Nearest

/-!
# The size of a shortest decimal

The shortest decimal of a double differs from the double, yet it is on the same side of a power of
ten if that power is the shortest decimal of a double that is not below it. The shortest decimal of
a whole number is whole.
-/
namespace Lox.Number

theorem lt_pow_digitCount (n : Nat) : n < 10 ^ digitCount n :=
  (Nat.length_toDigits_le_iff (by norm_num) Nat.length_toDigits_pos).mp le_rfl

theorem pow_digitCount_le {n : Nat} (h : 0 < n) : 10 ^ (digitCount n - 1) ≤ n := by
  obtain hone | hmore := Nat.eq_zero_or_pos (digitCount n - 1)
  · rw [hone, pow_zero]
    exact h
  · by_contra! hlt
    have hcount : digitCount n ≤ digitCount n - 1 :=
      (Nat.length_toDigits_le_iff (by norm_num) hmore).mpr hlt
    lia

namespace Decimal
variable {d : Decimal}

theorem value_lt_pow (d : Decimal) : d.value < 10 ^ (d.leading + 1) := by
  have hdigits : (d.digits : ℚ) < 10 ^ digitCount d.digits := by exact_mod_cast lt_pow_digitCount _
  have hpower : (10 : ℚ) ^ (d.leading + 1) = 10 ^ digitCount d.digits * 10 ^ d.exponent := by
    rw [← zpow_natCast, ← zpow_add₀ (by norm_num)]
    congr 1
    unfold leading
    ring
  rw [hpower]
  exact mul_lt_mul_of_pos_right hdigits (by positivity)

theorem pow_leading_le (h : 0 < d.digits) : (10 : ℚ) ^ d.leading ≤ d.value := by
  have hdigits : (10 ^ (digitCount d.digits - 1) : ℚ) ≤ d.digits := by
    exact_mod_cast pow_digitCount_le h
  have hcount : 0 < digitCount d.digits := Nat.length_toDigits_pos
  have hpower : (10 : ℚ) ^ d.leading = 10 ^ (digitCount d.digits - 1) * 10 ^ d.exponent := by
    rw [← zpow_natCast, ← zpow_add₀ (by norm_num)]
    congr 1
    unfold leading
    lia
  rw [hpower]
  exact mul_le_mul_of_nonneg_right hdigits (by positivity)

/-- The exponent of the first digit tells which powers of ten the decimal reaches. -/
theorem le_leading_iff (h : 0 < d.digits) (k : ℤ) : k ≤ d.leading ↔ (10 : ℚ) ^ k ≤ d.value := by
  constructor
  · exact fun hle => (zpow_le_zpow_right₀ (by norm_num) hle).trans (pow_leading_le h)
  · intro hle
    have hlt := (zpow_lt_zpow_iff_right₀ (by norm_num)).mp (hle.trans_lt d.value_lt_pow)
    lia

end Decimal

namespace Magnitude
variable {x t : Magnitude} {tie : Tie}

theorem low_pos (h : 0 < x.mantissa) : 0 < x.low := by
  have hone : (1 : ℚ) ≤ x.mantissa := by exact_mod_cast h
  have hpos : (0 : ℚ) < 2 ^ x.exponent := by positivity
  exact lt_of_lt_of_le (mul_pos (by linarith) hpos) x.half_le_low

theorem digits_shortest_pos (h : 0 < x.mantissa) (tie : Tie) : 0 < (x.shortest tie).digits := by
  rw [Nat.pos_iff_ne_zero]
  intro hzero
  have hvalue := (low_pos h).trans_le (x.attracts_shortest tie).low_le
  rw [Decimal.value, hzero, Nat.cast_zero, zero_mul] at hvalue
  exact lt_irrefl _ hvalue

/-- The shortest decimal of a double reaches the powers of ten that the double reaches. -/
theorem pow_le_shortest_iff {k : ℤ} (hx : x.Canonical) (ht : t.Canonical)
    (hshortest : t.shortest tie = ⟨1, k⟩) (hle : (10 : ℚ) ^ k ≤ t.value) :
    (10 : ℚ) ^ k ≤ (x.shortest tie).value ↔ (10 : ℚ) ^ k ≤ x.value := by
  have hpower : (t.shortest tie).value = 10 ^ k := by
    rw [hshortest, Decimal.value, Nat.cast_one, one_mul]
  have hround := t.attracts_shortest tie
  have hround' := x.attracts_shortest tie
  rw [hpower] at hround
  constructor
  · exact fun h => hle.trans (value_le_of_attracts ht hx hround hround' h)
  · intro h
    by_contra! hlt
    -- then the double is the one whose shortest decimal is the power itself
    have heq : x = t := value_injective hx ht
      (le_antisymm (value_le_of_attracts hx ht hround' hround hlt.le)
        (value_le_of_attracts ht hx hround x.attracts_value h))
    rw [heq, hpower] at hlt
    exact lt_irrefl _ hlt

theorem exponent_onGrid? {grid : ℤ} {d : Decimal} (h : x.onGrid? tie grid = some d) :
    d.exponent = grid := by
  unfold onGrid? at h
  dsimp only at h
  split at h
  · cases h
  · cases h
    rfl
  · cases h
    rfl
  · split at h <;> cases h <;> rfl

/-- A whole number is its own neighbour on the grid of whole numbers. -/
theorem isSome_onGrid?_zero {n : Nat} (h : x.value = n) (tie : Tie) :
    (x.onGrid? tie 0).isSome = true := by
  have hunits : x.mantissa * (x.units 0).1 = n * (x.units 0).2 := by
    have hcast : ((x.mantissa * (x.units 0).1 : Nat) : ℚ) = (n * (x.units 0).2 : Nat) := by
      push_cast
      rw [units_fst, units_snd, ← h, value]
      ring
    exact_mod_cast hcast
  have hstep : 0 < (x.units 0).2 := by
    have hcast : (0 : ℚ) < (x.units 0).2 := by
      rw [units_snd]
      exact mul_pos (by positivity) (x.measure_pos 0)
    exact_mod_cast hcast
  have hrounds : x.rounds (x.mantissa * (x.units 0).1 / (x.units 0).2) 0 = true := by
    rw [hunits, Nat.mul_div_cancel _ hstep, rounds_iff, zpow_zero, mul_one, ← h]
    exact x.attracts_value
  unfold onGrid?
  dsimp only
  rw [hrounds]
  cases x.rounds (x.mantissa * (x.units 0).1 / (x.units 0).2 + 1) 0 with
  | false => rfl
  | true =>
    dsimp only
    split <;> rfl

/-- The search does not go beyond a grid with a neighbour that rounds to the double. -/
theorem le_exponent_search {steps : Nat} {grid bound : ℤ}
    (hbound : (x.onGrid? tie bound).isSome = true) (hle : bound ≤ grid)
    (hsteps : grid - bound < steps) :
    bound ≤ (x.search tie steps grid).exponent := by
  induction steps generalizing grid with
  | zero => lia
  | succ steps ih =>
    rw [search]
    cases h : x.onGrid? tie grid with
    | none =>
      have hne : bound ≠ grid := by
        rintro rfl
        rw [h] at hbound
        cases hbound
      exact ih (by lia) (by lia)
    | some d => exact hle.trans (exponent_onGrid? h).ge

/-- A whole number has a whole shortest decimal. -/
theorem exponent_shortest_nonneg {n : Nat} (h : x.value = n) (tie : Tie) :
    0 ≤ (x.shortest tie).exponent := by
  unfold shortest
  split
  · exact le_rfl
  · next hne =>
    have hone : (1 : ℚ) ≤ x.value := by
      have hpos : 0 < x.value := by
        unfold value
        positivity
      rw [h] at hpos ⊢
      exact_mod_cast hpos
    have hlog : (0 : ℤ) < x.mantissa.log2 + 1 + x.exponent := by
      have hlt : (2 : ℚ) ^ (0 : ℤ) < 2 ^ (x.mantissa.log2 + 1 + x.exponent : ℤ) := by
        have hmantissa : (x.mantissa : ℚ) < 2 ^ (x.mantissa.log2 + 1) := by
          exact_mod_cast Nat.lt_log2_self
        have hunit : (0 : ℚ) < 2 ^ x.exponent := by positivity
        calc (2 : ℚ) ^ (0 : ℤ) ≤ x.mantissa * 2 ^ x.exponent := by rwa [zpow_zero]
          _ < 2 ^ (x.mantissa.log2 + 1) * 2 ^ x.exponent := by gcongr
          _ = 2 ^ (x.mantissa.log2 + 1 + x.exponent : ℤ) := by
            rw [zpow_add₀ (by norm_num)]
            norm_cast
      exact (zpow_lt_zpow_iff_right₀ (by norm_num)).mp hlt
    dsimp only
    exact le_exponent_search (isSome_onGrid?_zero h tie) (by unfold coarsestGrid; lia)
      (by unfold coarsestGrid; lia)

end Magnitude
end Lox.Number
