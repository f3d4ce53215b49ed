import Lox.Proofs.Number.Nearest

/-!
# Rounding in the arithmetic of doubles

The arithmetic works on a mantissa with two more bits, which say where below the next mantissa the
exact result lies. Dropping bits keeps track of that, so in the end the mantissa is the nearest one,
and the result is the double to which the exact number rounds.
-/
namespace Lox.Number
open Float.Model UnpackedFloat

/-- The mantissa is the whole part of the number. The next bit tells whether the rest is a half or
more, the last one whether the rest is neither zero nor a half. -/
def Located (em : ExtendedMantissa) (q : ℚ) : Prop :=
  match em.roundBit, em.stickyBit with
  | false, false => q = em.mantissa
  | false, true => em.mantissa < q ∧ q < em.mantissa + 1 / 2
  | true, false => q = em.mantissa + 1 / 2
  | true, true => em.mantissa + 1 / 2 < q ∧ q < em.mantissa + 1

/-- The natural number is nearest to the number, and even if it is half way to another. -/
structure RoundsTo (n : Nat) (q : ℚ) : Prop where
  above : n - 1 / 2 < q ∨ n - 1 / 2 = q ∧ n % 2 = 0
  below : q < n + 1 / 2 ∨ q = n + 1 / 2 ∧ n % 2 = 0

namespace Located
variable {em : ExtendedMantissa} {q : ℚ}

theorem exact (m : Nat) : Located (.ofMantissaAndAccuracy m .exact) m := rfl

theorem shiftRightOne (h : Located em q) : Located em.shiftRightOne (q / 2) := by
  obtain ⟨m, roundBit, stickyBit⟩ := em
  have hm : (m : ℚ) = 2 * (m / 2 : Nat) + (m % 2 : Nat) := by
    exact_mod_cast (Nat.div_add_mod m 2).symm
  unfold Located at h
  unfold Located ExtendedMantissa.shiftRightOne
  obtain hbit | hbit := Nat.mod_two_eq_zero_or_one m <;> cases roundBit <;> cases stickyBit <;>
    simp only [hbit, Nat.cast_zero, Nat.cast_one, bne_self_eq_false, Nat.reduceBNe, Bool.or_self,
      Bool.or_true, Bool.or_false] at hm h ⊢ <;>
    first
    | linarith
    | exact ⟨by linarith, by linarith⟩

theorem shiftRight (h : Located em q) (n : Nat) : Located (em >>> n) (q / 2 ^ n) := by
  change Located (n.repeat ExtendedMantissa.shiftRightOne em) _
  induction n with
  | zero => simpa [Nat.repeat] using h
  | succ n ih =>
    rw [Nat.repeat, pow_succ, ← div_div]
    exact ih.shiftRightOne

theorem le (h : Located em q) : em.mantissa ≤ q := by
  obtain ⟨m, roundBit, stickyBit⟩ := em
  unfold Located at h
  cases roundBit <;> cases stickyBit <;> dsimp only at h ⊢ <;> linarith

theorem lt (h : Located em q) : q < em.mantissa + 1 := by
  obtain ⟨m, roundBit, stickyBit⟩ := em
  unfold Located at h
  cases roundBit <;> cases stickyBit <;> dsimp only at h ⊢ <;> linarith

theorem roundsTo (h : Located em q) : RoundsTo em.roundedMantissa q := by
  obtain ⟨m, roundBit, stickyBit⟩ := em
  unfold Located at h
  unfold ExtendedMantissa.roundedMantissa
  cases roundBit <;> cases stickyBit <;>
    dsimp only [ExtendedMantissa.accuracy, Accuracy.roundToNearestEven] at h ⊢
  · exact ⟨.inl (by linarith), .inl (by linarith)⟩
  · exact ⟨.inl (by linarith), .inl (by linarith)⟩
  · -- half way, the even one of both is taken
    obtain heven | hodd := Nat.mod_two_eq_zero_or_one m
    · rw [heven, Nat.add_zero]
      exact ⟨.inl (by linarith), .inr ⟨h, heven⟩⟩
    · rw [hodd]
      refine ⟨.inr ⟨?_, by lia⟩, .inl ?_⟩ <;> push_cast <;> linarith
  · refine ⟨.inl ?_, .inl ?_⟩ <;> push_cast <;> linarith

end Located

theorem mantissa_shiftRight (em : ExtendedMantissa) (n : Nat) :
    (em >>> n).mantissa = em.mantissa / 2 ^ n := by
  change (n.repeat ExtendedMantissa.shiftRightOne em).mantissa = _
  induction n with
  | zero => simp [Nat.repeat]
  | succ n ih =>
    rw [Nat.repeat, pow_succ, ← Nat.div_div_eq_div_mul, ← ih]
    rfl

theorem mantissa_ofMantissaAndAccuracy (m : Nat) (accuracy : Accuracy) :
    (ExtendedMantissa.ofMantissaAndAccuracy m accuracy).mantissa = m := by
  unfold ExtendedMantissa.ofMantissaAndAccuracy
  split <;> rfl

theorem roundedMantissa_cases (em : ExtendedMantissa) :
    em.roundedMantissa = em.mantissa ∨ em.roundedMantissa = em.mantissa + 1 := by
  obtain ⟨m, roundBit, stickyBit⟩ := em
  unfold ExtendedMantissa.roundedMantissa
  cases roundBit <;> cases stickyBit <;>
    dsimp only [ExtendedMantissa.accuracy, Accuracy.roundToNearestEven] <;> lia

namespace Magnitude
variable {m : Nat} {e : ℤ} {q : ℚ}

/-- What rounds to the mantissa rounds to the magnitude if it is not below a power of two. -/
theorem attracts_scaled (hround : RoundsTo m q) (hnormal : m = 2 ^ 52 → e ≠ -1074 → m ≤ q) :
    (scaled m e).Attracts (q * 2 ^ e) := by
  have hpos : (0 : ℚ) < 2 ^ e := by positivity
  have hhigh : (scaled m e).high = (m + 1 / 2) * 2 ^ e := rfl
  refine attracts_iff.mpr ⟨?_, ?_⟩
  · by_cases hnarrow : m = 2 ^ 52 ∧ e ≠ -1074
    · have hlow : (scaled m e).low = (m - 1 / 4) * 2 ^ e := by
        unfold low scaled
        rw [if_pos (decide_eq_true hnarrow)]
      have hm := hnormal hnarrow.1 hnarrow.2
      rw [hlow]
      exact .inl (mul_lt_mul_of_pos_right (by linarith) hpos)
    · have hlow : (scaled m e).low = (m - 1 / 2) * 2 ^ e := by
        unfold low scaled
        rw [if_neg (by simpa using hnarrow)]
      rw [hlow]
      exact hround.above.imp (mul_lt_mul_of_pos_right · hpos)
        (And.imp_left (congrArg (· * (2 : ℚ) ^ e)))
  · rw [hhigh]
    exact hround.below.imp (mul_lt_mul_of_pos_right · hpos)
      (And.imp_left (congrArg (· * (2 : ℚ) ^ e)))

/-- A mantissa with one bit too many is taken to the next exponent. -/
theorem attracts_scaled_succ (hq : 2 ^ 53 - 1 / 2 ≤ q) (hq' : q < 2 ^ 53) (hlowest : -1074 ≤ e) :
    (scaled (2 ^ 52) (e + 1)).Attracts (q * 2 ^ e) := by
  have hlow : (scaled (2 ^ 52) (e + 1)).low = (2 ^ 53 - 1 / 2) * 2 ^ e := by
    unfold low scaled
    rw [if_pos (decide_eq_true ⟨rfl, by lia⟩), zpow_add_one₀ (by norm_num)]
    push_cast
    ring
  have hhigh : (scaled (2 ^ 52) (e + 1)).high = (2 ^ 53 + 1) * 2 ^ e := by
    unfold high scaled
    rw [zpow_add_one₀ (by norm_num)]
    push_cast
    ring
  have heven : (scaled (2 ^ 52) (e + 1)).mantissa % 2 = 0 := by norm_num [scaled]
  unfold Attracts
  rw [if_pos heven, hlow, hhigh]
  constructor <;> gcongr
  linarith

end Magnitude

/-- The exponent of the doubles of the size of `m * 2 ^ e`. -/
def unitExponent (m : Nat) (e : ℤ) : ℤ := max (m.log2 + e - 52) (-1074)

theorem lowest_le_unitExponent (m : Nat) (e : ℤ) : -1074 ≤ unitExponent m e := le_max_right _ _

theorem targetExponent_eq (m : Nat) (e : ℤ) :
    Format.binary64.targetExponent (totalExponent m e) = unitExponent m e := by
  unfold Format.targetExponent totalExponent unitExponent
  rw [show Format.binary64.minExponent = -1074 from rfl,
    show (Format.binary64.mantissaBits : ℤ) = 53 from rfl]
  congr 1
  ring

theorem shiftToTargetExponent_eq (m : Nat) (e : ℤ) (accuracy : Accuracy) :
    shiftToTargetExponent .binary64 m e accuracy =
      (ExtendedMantissa.ofMantissaAndAccuracy m accuracy >>> (unitExponent m e - e).toNat,
        e + (unitExponent m e - e).toNat) := by
  unfold shiftToTargetExponent shiftToExponent
  rw [targetExponent_eq]

/-- Dropping bits down to the exponent of the doubles leaves 53 of them, and fewer only at the
lowest exponent. -/
theorem mantissa_bounds {m : Nat} {e : ℤ} (he : e ≤ unitExponent m e) :
    m / 2 ^ (unitExponent m e - e).toNat < 2 ^ 53 ∧
      (unitExponent m e ≠ -1074 → 2 ^ 52 ≤ m / 2 ^ (unitExponent m e - e).toNat) := by
  unfold unitExponent at he ⊢
  constructor
  · rw [Nat.div_lt_iff_lt_mul (by positivity), ← pow_add]
    refine Nat.lt_log2_self.trans_le (Nat.pow_le_pow_right two_pos ?_)
    lia
  · intro hne
    rw [Nat.le_div_iff_mul_le (by positivity), ← pow_add]
    have hlog : 52 + (max (m.log2 + e - 52) (-1074) - e).toNat = m.log2 := by lia
    have hm : m ≠ 0 := by
      rintro rfl
      rw [Nat.log2_zero] at hlog
      lia
    rw [hlog]
    exact Nat.log2_self_le hm

theorem unitExponent_le {n : Nat} {e : ℤ} (hn : n < 2 ^ 53) (hlowest : -1074 ≤ e) :
    unitExponent n e ≤ e := by
  have hlog : n.log2 ≤ 52 := by
    obtain rfl | hne := eq_or_ne n 0
    · simp
    · exact Nat.lt_succ_iff.mp ((Nat.log2_lt hne).mpr hn)
  unfold unitExponent
  lia

theorem shiftToTargetExponent_small {n : Nat} {e : ℤ} (hn : n < 2 ^ 53) (hlowest : -1074 ≤ e) :
    shiftToTargetExponent .binary64 n e .exact = (⟨n, false, false⟩, e) := by
  have hshift : (unitExponent n e - e).toNat = 0 := by
    have := unitExponent_le hn hlowest
    lia
  rw [shiftToTargetExponent_eq, hshift]
  exact congrArg (Prod.mk _) (add_zero e)

theorem shiftToTargetExponent_top {e : ℤ} (hlowest : -1074 ≤ e) :
    shiftToTargetExponent .binary64 (2 ^ 53) e .exact = (⟨2 ^ 52, false, false⟩, e + 1) := by
  have hshift : (unitExponent (2 ^ 53) e - e).toNat = 1 := by
    unfold unitExponent
    rw [Nat.log2_two_pow]
    lia
  rw [shiftToTargetExponent_eq, hshift]
  rfl

/-- Whether the sign is that of the numbers below zero. -/
def isNegative : Sign → Bool
  | .negative => true
  | .positive => false

/-- What a result of the arithmetic stands for. -/
def Binary.ofUnpacked : UnpackedFloat → Binary
  | .notANumber => .nan
  | .infinity sign => .infinite (isNegative sign)
  | .zero sign => .finite (isNegative sign) (.scaled 0 (-1074))
  | .finite sign m e _ => .finite (isNegative sign) (.scaled m e)

/-- The number of the arithmetic that stands for the magnitude. -/
def Magnitude.unpacked (sign : Sign) (x : Magnitude) : UnpackedFloat :=
  if h : x.mantissa = 0 then .zero sign
  else .finite sign x.mantissa x.exponent (Nat.pos_of_ne_zero h)

theorem Magnitude.Canonical.ofUnpacked_unpacked {x : Magnitude} (hx : x.Canonical) (sign : Sign) :
    Binary.ofUnpacked (x.unpacked sign) = .finite (isNegative sign) x := by
  unfold unpacked
  split
  · next hzero =>
    have hexponent : x.exponent = -1074 := by
      by_contra hne
      have := hx.normal hne
      lia
    rw [hx.eq_scaled, hzero, hexponent]
    rfl
  · exact congrArg (Binary.finite _) hx.eq_scaled.symm

/-- The result of the arithmetic stands for a magnitude to which the number rounds. -/
def Rounds (u : UnpackedFloat) (negative : Bool) (v : ℚ) : Prop :=
  ∃ x : Magnitude, x.Canonical ∧ x.Attracts v ∧ Binary.ofUnpacked u = .finite negative x

/-- A number that is at most half of the smallest magnitude rounds to zero. -/
theorem rounds_zero (sign : Sign) {q : ℚ} (hq : 0 ≤ q) (h : q ≤ 1 / 2) :
    Rounds (.zero sign) (isNegative sign) (q * 2 ^ (-1074 : ℤ)) := by
  refine ⟨_, Magnitude.canonical_scaled (by norm_num) le_rfl (absurd rfl ·),
    Magnitude.attracts_scaled ⟨.inl ?_, ?_⟩ (by norm_num), rfl⟩
  · push_cast
    linarith
  · rw [Nat.cast_zero, zero_add]
    exact h.lt_or_eq.imp_right (⟨·, rfl⟩)

/-- What is left of a located number when bits are dropped gives the double to which it rounds. -/
theorem exists_magnitude {em : ExtendedMantissa} {e : ℤ} {q : ℚ} (h : Located em q)
    (hbounded : em.mantissa < 2 ^ 53) (hlowest : -1074 ≤ e)
    (hnormal : e ≠ -1074 → 2 ^ 52 ≤ em.mantissa) :
    ∃ x : Magnitude, x.Canonical ∧ x.Attracts (q * 2 ^ e) ∧
      shiftToTargetExponent .binary64 em.roundedMantissa e .exact =
        (⟨x.mantissa, false, false⟩, x.exponent) := by
  have hround := h.roundsTo
  have hle := h.le
  have hlt := h.lt
  obtain hsmall | hlarge := Nat.lt_or_ge em.roundedMantissa (2 ^ 53)
  · refine ⟨.scaled em.roundedMantissa e, Magnitude.canonical_scaled hsmall hlowest ?_,
      Magnitude.attracts_scaled hround ?_, shiftToTargetExponent_small hsmall hlowest⟩
    · intro hne
      have := hnormal hne
      obtain hcase | hcase := roundedMantissa_cases em <;> lia
    · intro htop hne
      have : em.roundedMantissa ≤ em.mantissa := htop.trans_le (hnormal hne)
      exact le_trans (by exact_mod_cast this) hle
  · -- the mantissa before was the largest one, and it was rounded up
    have hcase := (roundedMantissa_cases em).resolve_left (by lia)
    have htop : em.roundedMantissa = 2 ^ 53 := by lia
    have hmantissa : (em.mantissa + 1 : ℚ) = 2 ^ 53 := by
      have : em.mantissa + 1 = 2 ^ 53 := by lia
      exact_mod_cast this
    have hhalf : (2 ^ 53 - 1 / 2 : ℚ) ≤ q := by
      have habove := hround.above
      rw [htop] at habove
      push_cast at habove
      exact habove.elim le_of_lt (·.1.le)
    refine ⟨.scaled (2 ^ 52) (e + 1),
      Magnitude.canonical_scaled (by norm_num) (by lia) fun _ => le_rfl,
      Magnitude.attracts_scaled_succ hhalf (by linarith) hlowest, ?_⟩
    rw [htop]
    exact shiftToTargetExponent_top hlowest

/-- Rounding a located number gives the double to which it rounds. -/
theorem rounds_roundWithAccuracy (sign : Sign) {m : Nat} {e : ℤ} {accuracy : Accuracy} {q : ℚ}
    (hq : Located (.ofMantissaAndAccuracy m accuracy) q) (he : e ≤ unitExponent m e) :
    Rounds (roundWithAccuracy .binary64 sign m e accuracy) (isNegative sign) (q * 2 ^ e) := by
  obtain ⟨hbounded, hnormal⟩ := mantissa_bounds he
  have hexponent : e + (unitExponent m e - e).toNat = unitExponent m e := by lia
  have hvalue : q / 2 ^ (unitExponent m e - e).toNat *
      2 ^ (e + (unitExponent m e - e).toNat) = q * 2 ^ e := by
    rw [zpow_add₀ (by norm_num), zpow_natCast]
    field_simp
  rw [← mantissa_ofMantissaAndAccuracy m accuracy, ← mantissa_shiftRight,
    mantissa_ofMantissaAndAccuracy] at hbounded hnormal
  obtain ⟨x, hx, hattracts, hfinal⟩ := exists_magnitude
    (hq.shiftRight (unitExponent m e - e).toNat) hbounded (lowest_le_unitExponent m e) hnormal
  refine ⟨x, hx, ?_, ?_⟩
  · rwa [← hvalue, hexponent]
  · rw [← hx.ofUnpacked_unpacked]
    unfold roundWithAccuracy
    rw [shiftToTargetExponent_eq, hexponent]
    dsimp only
    rw [hfinal]
    rfl

end Lox.Number
