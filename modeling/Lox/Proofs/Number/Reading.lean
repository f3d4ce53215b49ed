import Lox.Number.Reading
import Lox.Proofs.Number.Packing

/-!
# Literals are rounded correctly

The value of a number literal is the double to which the decimal rounds that it writes, if that is
not too large for a double. A literal with few digits is the quotient of two doubles that are exact;
for the others a quotient of natural numbers is rounded.
-/
namespace Lox.Number
open Float.Model UnpackedFloat

theorem le_unitExponent {n : Nat} {e : ℤ} (h : -1074 < e → 2 ^ 52 ≤ n) : e ≤ unitExponent n e := by
  unfold unitExponent
  obtain hle | hlt := le_or_gt e (-1074)
  · lia
  · have hlog : 52 ≤ n.log2 := by
      have := h hlt
      exact (Nat.le_log2 (by lia)).mpr this
    lia

/-- The quotient of natural numbers is located by the remainder. -/
theorem Located.fraction (n : Nat) {d : Nat} (hd : 0 < d) :
    Located (.ofMantissaAndAccuracy (n / d) (accuracyOfFraction (n % d) d)) (n / d : ℚ) := by
  have hpos : (0 : ℚ) < d := by exact_mod_cast hd
  have hn : (n / d : ℚ) = (n / d : Nat) + (n % d : Nat) / d := by
    have : (n : ℚ) = d * (n / d : Nat) + (n % d : Nat) := by
      exact_mod_cast (Nat.div_add_mod n d).symm
    field_simp
    linarith
  rw [hn]
  unfold accuracyOfFraction
  split
  · next hzero =>
    rw [hzero, Nat.cast_zero, zero_div, add_zero]
    exact .exact _
  · next hne =>
    have hrest : (0 : ℚ) < (n % d : Nat) / d := by
      have : (0 : ℚ) < (n % d : Nat) := by exact_mod_cast Nat.pos_of_ne_zero hne
      positivity
    have hone : ((n % d : Nat) / d : ℚ) < 1 := by
      rw [div_lt_one hpos]
      exact_mod_cast Nat.mod_lt n hd
    have htwice : ((n % d : Nat) / d : ℚ) = (2 * (n % d) : Nat) / d / 2 := by
      push_cast
      ring
    unfold Located ExtendedMantissa.ofMantissaAndAccuracy
    cases hcompare : compare (2 * (n % d)) d with
    | lt =>
      have hhalf : ((2 * (n % d) : Nat) / d : ℚ) < 1 := by
        rw [div_lt_one hpos]
        exact_mod_cast Nat.compare_eq_lt.mp hcompare
      exact ⟨by linarith, by linarith⟩
    | eq =>
      have hhalf : ((2 * (n % d) : Nat) / d : ℚ) = 1 := by
        rw [div_eq_one_iff_eq hpos.ne']
        exact_mod_cast Nat.compare_eq_eq.mp hcompare
      show _ = _
      linarith
    | gt =>
      have hhalf : (1 : ℚ) < (2 * (n % d) : Nat) / d := by
        rw [one_lt_div hpos]
        exact_mod_cast Nat.compare_eq_gt.mp hcompare
      exact ⟨by linarith, by linarith⟩

/-- The quotient of two magnitudes is rounded. -/
theorem rounds_div (sign₁ sign₂ : Sign) {m₁ m₂ : Nat} (e₁ e₂ : ℤ) (h₁ : 0 < m₁) (h₂ : 0 < m₂) :
    Rounds (div .binary64 (.finite sign₁ m₁ e₁ h₁) (.finite sign₂ m₂ e₂ h₂))
      (isNegative (sign₁ / sign₂)) (m₁ * 2 ^ e₁ / (m₂ * 2 ^ e₂)) := by
  have htarget : Format.binary64.targetExponent (totalExponent m₁ e₁ - totalExponent m₂ e₂) =
      max (m₁.log2 + e₁ - (m₂.log2 + e₂) - 53) (-1074) := by
    unfold Format.targetExponent totalExponent
    rw [show Format.binary64.minExponent = -1074 from rfl,
      show (Format.binary64.mantissaBits : ℤ) = 53 from rfl]
    congr 1
    ring
  unfold UnpackedFloat.div divCore
  dsimp only
  rw [htarget]
  set e := min (e₁ - e₂) (max (m₁.log2 + e₁ - (m₂.log2 + e₂) - 53) (-1074)) with he
  have hle : e ≤ e₁ - e₂ := min_le_left _ _
  -- enough bits: the dividend is shifted until the quotient has 53 of them
  have hbits : e ≤ unitExponent (m₁ <<< (e₁ - e₂ - e).toNat / m₂) e := by
    refine le_unitExponent fun hlt => ?_
    rw [Nat.le_div_iff_mul_le h₂, Nat.shiftLeft_eq]
    calc 2 ^ 52 * m₂ ≤ 2 ^ 52 * 2 ^ (m₂.log2 + 1) := by gcongr; exact Nat.lt_log2_self.le
      _ = 2 ^ (52 + (m₂.log2 + 1)) := (pow_add ..).symm
      _ ≤ 2 ^ (m₁.log2 + (e₁ - e₂ - e).toNat) := Nat.pow_le_pow_right two_pos (by lia)
      _ = 2 ^ m₁.log2 * 2 ^ (e₁ - e₂ - e).toNat := pow_add ..
      _ ≤ m₁ * 2 ^ (e₁ - e₂ - e).toNat := by gcongr; exact Nat.log2_self_le h₁.ne'
  have hvalue : ((m₁ <<< (e₁ - e₂ - e).toNat : Nat) / m₂ * 2 ^ e : ℚ) =
      m₁ * 2 ^ e₁ / (m₂ * 2 ^ e₂) := by
    have hpower : (2 : ℚ) ^ e₁ = 2 ^ e₂ * (2 ^ (e₁ - e₂ - e).toNat * 2 ^ e) := by
      rw [← zpow_natCast, ← zpow_add₀ (by norm_num), ← zpow_add₀ (by norm_num)]
      congr 1
      lia
    rw [Nat.shiftLeft_eq, hpower]
    push_cast
    field_simp
  rw [← hvalue]
  exact rounds_roundWithAccuracy _ (.fraction _ h₂) hbits

/-- The product of two magnitudes is rounded if it has enough bits. -/
theorem rounds_mul (sign₁ sign₂ : Sign) {m₁ m₂ : Nat} {e₁ e₂ : ℤ} (h₁ : 0 < m₁) (h₂ : 0 < m₂)
    (hbits : 2 ^ 52 ≤ m₁ * m₂) :
    Rounds (mul .binary64 (.finite sign₁ m₁ e₁ h₁) (.finite sign₂ m₂ e₂ h₂))
      (isNegative (sign₁ * sign₂)) (m₁ * 2 ^ e₁ * (m₂ * 2 ^ e₂)) := by
  have hrounds := rounds_roundWithAccuracy (sign₁ * sign₂) (.exact (m₁ * m₂))
    (le_unitExponent fun _ : -1074 < e₁ + e₂ => hbits)
  rw [zpow_add₀ (by norm_num)] at hrounds
  push_cast at hrounds
  rwa [mul_mul_mul_comm]

theorem rounds_positive_zero : Rounds (.zero .positive) false 0 := by
  have hrounds := rounds_zero .positive (q := 0) le_rfl (by norm_num)
  rwa [zero_mul] at hrounds

/-- A natural number is rounded. -/
theorem rounds_ofNat (n : Nat) : Rounds (UnpackedFloat.ofNat .binary64 n) false n := by
  unfold UnpackedFloat.ofNat UnpackedFloat.ofInt UnpackedFloat.normalize
  obtain rfl | hpos := n.eq_zero_or_pos
  · exact rounds_positive_zero
  · have hcompare : compare (n : ℤ) 0 = .gt := by
      rw [Int.compare_eq_gt]
      lia
    rw [hcompare]
    dsimp only
    rw [Int.toNat_natCast]
    unfold UnpackedFloat.round decreaseExponent
    rw [targetExponent_eq]
    dsimp only
    set k := (0 - unitExponent n 0).toNat with hk
    have hbits : 2 ^ 52 ≤ n <<< k := by
      unfold unitExponent at hk
      rw [Nat.shiftLeft_eq]
      calc 2 ^ 52 ≤ 2 ^ (n.log2 + k) := Nat.pow_le_pow_right two_pos (by lia)
        _ = 2 ^ n.log2 * 2 ^ k := pow_add ..
        _ ≤ n * 2 ^ k := by gcongr; exact Nat.log2_self_le hpos.ne'
    have hvalue : (n : ℚ) = (n <<< k : Nat) * 2 ^ (0 - k : ℤ) := by
      rw [Nat.shiftLeft_eq, zero_sub, zpow_neg, zpow_natCast]
      push_cast
      field_simp
    rw [hvalue]
    exact rounds_roundWithAccuracy _ (.exact _) (le_unitExponent fun _ => hbits)

/-- A decimal with very many places is below the smallest double. -/
theorem rounds_tiny {m k : Nat} (h : m.log2 + 2048 < k) :
    Rounds (.zero .positive) false (m / 10 ^ k) := by
  have hpos : (0 : ℚ) < 2 ^ (-1074 : ℤ) := by positivity
  have hbound : (m / 10 ^ k : ℚ) ≤ 1 / 2 * 2 ^ (-1074 : ℤ) := by
    have hm : (m : ℚ) ≤ 2 ^ (m.log2 + 1) := by exact_mod_cast Nat.lt_log2_self.le
    calc (m / 10 ^ k : ℚ) ≤ 2 ^ (m.log2 + 1) / 2 ^ k := by gcongr; norm_num
      _ = 2 ^ (m.log2 + 1 - k : ℤ) := by rw [zpow_sub₀ (by norm_num)]; norm_cast
      _ ≤ 2 ^ (-1 + -1074 : ℤ) := zpow_le_zpow_right₀ (by norm_num) (by lia)
      _ = 1 / 2 * 2 ^ (-1074 : ℤ) := by rw [zpow_add₀ (by norm_num), zpow_neg_one, one_div]
  have hrounds := rounds_zero .positive (q := m / 10 ^ k / 2 ^ (-1074 : ℤ)) (by positivity)
    (by rwa [div_le_iff₀ hpos])
  rwa [div_mul_cancel₀ _ hpos.ne'] at hrounds

/-- A natural number over a power of ten is rounded. -/
theorem rounds_ofScientific (m k : Nat) :
    Rounds (UnpackedFloat.ofScientific .binary64 m (.negOfNat k)) false (m / 10 ^ k) := by
  have hexponent : Int.negOfNat k = -k := Int.negOfNat_eq
  have hrange : (2 : ℤ) ^ Format.binary64.exponentBits = 2048 := by norm_num
  unfold UnpackedFloat.ofScientific
  rw [hexponent, hrange]
  obtain rfl | hpos := m.eq_zero_or_pos
  · rw [dif_pos rfl, Nat.cast_zero, zero_div]
    exact rounds_positive_zero
  · rw [dif_neg hpos.ne', if_neg (by lia)]
    split
    · exact rounds_tiny (by lia)
    split
    · next hwhole =>
      obtain rfl : k = 0 := by lia
      have hbits : 2 ^ 52 ≤ m <<< Format.binary64.mantissaBits * 10 ^ (-((0 : Nat) : ℤ)).toNat := by
        have : 2 ^ 52 ≤ 2 ^ Format.binary64.mantissaBits := Nat.pow_le_pow_right two_pos (by decide)
        rw [Nat.shiftLeft_eq, Nat.cast_zero, neg_zero, Int.toNat_zero, pow_zero, mul_one]
        exact this.trans (Nat.le_mul_of_pos_left _ hpos)
      have hvalue : (m / 10 ^ 0 : ℚ) = (m <<< Format.binary64.mantissaBits : Nat) *
          2 ^ (-Format.binary64.mantissaBits : ℤ) *
            ((10 ^ (-((0 : Nat) : ℤ)).toNat : Nat) * 2 ^ (0 : ℤ)) := by
        rw [Nat.shiftLeft_eq, zpow_neg, zpow_natCast]
        push_cast
        simp
      rw [hvalue]
      exact rounds_mul _ _ _ _ hbits
    · have hvalue : (m / 10 ^ k : ℚ) =
          m * 2 ^ (0 : ℤ) / ((10 ^ (- -(k : ℤ)).toNat : Nat) * 2 ^ (0 : ℤ)) := by
        simp
      rw [hvalue]
      exact rounds_div _ _ _ _ _ _

variable {x y z : Magnitude} {v : ℚ}

theorem Rounds.ofFloat_pack {u : UnpackedFloat} {negative : Bool} (h : Rounds u negative v)
    (hx : x.Canonical) (hlargest : x.exponent ≤ 971) (hattracts : x.Attracts v) :
    Binary.ofFloat (.ofModel (pack u)) = .finite negative x := by
  obtain ⟨y, hy, hround, hu⟩ := h
  obtain rfl := Magnitude.eq_of_attracts hx hy hattracts hround
  exact Binary.ofFloat_pack hx hlargest hu

theorem unpacked_of_pos (sign : Sign) (h : 0 < x.mantissa) :
    x.unpacked sign = .finite sign x.mantissa x.exponent h := dif_neg h.ne'

theorem unpacked_of_zero (sign : Sign) (h : x.mantissa = 0) : x.unpacked sign = .zero sign :=
  dif_pos h

theorem eq_unpacked {u : UnpackedFloat} {negative : Bool}
    (h : Binary.ofUnpacked u = .finite negative x) :
    ∃ sign, isNegative sign = negative ∧ u = x.unpacked sign := by
  cases u with
  | notANumber | infinity _ => cases h
  | zero sign =>
    obtain ⟨hsign, rfl⟩ := Binary.finite.inj h
    exact ⟨sign, hsign, rfl⟩
  | finite sign m e hpos =>
    obtain ⟨hsign, rfl⟩ := Binary.finite.inj h
    exact ⟨sign, hsign, (unpacked_of_pos (x := .scaled m e) sign hpos).symm⟩

theorem rounds_div_unpacked (sign sign' : Sign) (x : Magnitude) (hy : 0 < y.mantissa) :
    Rounds (div .binary64 (x.unpacked sign) (y.unpacked sign')) (isNegative (sign / sign'))
      (x.value / y.value) := by
  rw [unpacked_of_pos sign' hy]
  obtain hzero | hpos := x.mantissa.eq_zero_or_pos
  · have hvalue : x.value = 0 := by rw [Magnitude.value, hzero, Nat.cast_zero, zero_mul]
    rw [unpacked_of_zero sign hzero, hvalue, zero_div]
    have hrounds := rounds_zero (sign / sign') (q := 0) le_rfl (by norm_num)
    rwa [zero_mul] at hrounds
  · rw [unpacked_of_pos sign hpos]
    exact rounds_div _ _ _ _ _ _

/-- A quotient of doubles is the double to which the quotient of their values rounds. -/
theorem ofFloat_div {a b : Float} (ha : Binary.ofFloat a = .finite false x)
    (hb : Binary.ofFloat b = .finite false y) (hy : 0 < y.mantissa) (hz : z.Canonical)
    (hlargest : z.exponent ≤ 971) (h : z.Attracts (x.value / y.value)) :
    Binary.ofFloat (a / b) = .finite false z := by
  rw [Binary.ofFloat_eq_ofUnpacked] at ha hb
  obtain ⟨sign, hsign, hunpacked⟩ := eq_unpacked ha
  obtain ⟨sign', hsign', hunpacked'⟩ := eq_unpacked hb
  have hrounds := rounds_div_unpacked sign sign' x hy
  rw [← hunpacked, ← hunpacked'] at hrounds
  have hpositive : isNegative (sign / sign') = false := by
    cases sign <;> cases sign' <;> trivial
  rw [hpositive] at hrounds
  exact hrounds.ofFloat_pack hz hlargest h

/-- A natural number of 53 bits is a double. -/
theorem exists_value_eq {n : Nat} (hn : n < 2 ^ 53) :
    ∃ x : Magnitude, x.Canonical ∧ x.exponent ≤ 0 ∧ x.value = n := by
  obtain rfl | hpos := n.eq_zero_or_pos
  · exact ⟨.scaled 0 (-1074), Magnitude.canonical_scaled (by norm_num) le_rfl (absurd rfl ·),
      by norm_num [Magnitude.scaled], by simp⟩
  · have hlog : n.log2 < 53 := (Nat.log2_lt hpos.ne').mpr hn
    refine ⟨.scaled (n * 2 ^ (52 - n.log2)) (-(52 - n.log2 : Nat)),
      Magnitude.canonical_scaled ?_ (by lia) fun _ => ?_, ?_, ?_⟩
    · calc n * 2 ^ (52 - n.log2) < 2 ^ (n.log2 + 1) * 2 ^ (52 - n.log2) := by
            gcongr
            exact Nat.lt_log2_self
        _ = 2 ^ 53 := by rw [← pow_add]; congr 1; lia
    · calc 2 ^ 52 = 2 ^ n.log2 * 2 ^ (52 - n.log2) := by rw [← pow_add]; congr 1; lia
        _ ≤ n * 2 ^ (52 - n.log2) := by gcongr; exact Nat.log2_self_le hpos.ne'
    · dsimp only [Magnitude.scaled]
      lia
    · rw [Magnitude.value_scaled, zpow_neg, zpow_natCast]
      push_cast
      field_simp

theorem ofFloat_toFloat {n : Nat} (hn : n < 2 ^ 53) :
    ∃ x : Magnitude, Binary.ofFloat n.toUInt64.toFloat = .finite false x ∧ x.value = n := by
  obtain ⟨x, hx, hexponent, hvalue⟩ := exists_value_eq hn
  refine ⟨x, ?_, hvalue⟩
  have hrounds := rounds_ofNat n
  have hround : n.toUInt64.toNat = n := Nat.mod_eq_of_lt (by lia)
  refine Rounds.ofFloat_pack (v := n) ?_ hx (by lia) (hvalue ▸ x.attracts_value)
  unfold UnpackedFloat.ofUInt64
  rwa [hround]

theorem ofFloat_power : ∀ e : Fin 23,
    (match Binary.ofFloat Float.exactlyRepresentablePowersOfTen[e] with
      | .finite false x => x.toNat?
      | _ => none) = some (10 ^ e.val) := by
  decide +kernel

/-- The powers of ten in the table are exact. -/
theorem exists_power (e : Fin 23) :
    ∃ x : Magnitude, Binary.ofFloat Float.exactlyRepresentablePowersOfTen[e] = .finite false x ∧
      x.value = 10 ^ e.val := by
  have h := ofFloat_power e
  split at h
  · next x hfinite =>
    refine ⟨x, hfinite, ?_⟩
    rw [← Magnitude.cast_toNat? h]
    push_cast
    rfl
  · cases h

/-- The value of a literal is the double to which the decimal rounds, if there is one. -/
theorem ofFloat_ofLiteral {whole fraction : List Char} (hx : x.Canonical)
    (hlargest : x.exponent ≤ 971)
    (h : x.Attracts (ofDigits (whole ++ fraction) / 10 ^ fraction.length)) :
    Binary.ofFloat (ofLiteral whole fraction) = .finite false x := by
  unfold ofLiteral Float.ofScientific
  split
  · next hfew =>
    obtain ⟨y, hy, hdividend⟩ := ofFloat_toFloat hfew.1
    obtain ⟨z, hz, hdivisor⟩ := exists_power ⟨fraction.length, by lia⟩
    have hpos : 0 < z.mantissa := by
      rw [Nat.pos_iff_ne_zero]
      intro hzero
      rw [Magnitude.value, hzero, Nat.cast_zero, zero_mul] at hdivisor
      exact absurd hdivisor.symm (by positivity)
    exact ofFloat_div hy hz hpos hx hlargest (by rwa [hdividend, hdivisor])
  · exact (rounds_ofScientific _ _).ofFloat_pack hx hlargest h

end Lox.Number
