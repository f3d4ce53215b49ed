import Mathlib
import Lox.Number.Binary

/-!
# The bits of a double

A finite double has one sign and one canonical magnitude, and no other double has the same two. A
double is never read as a number if it is no number for the arithmetic, and the other way round.
-/
namespace Lox.Number

/-- The magnitudes that the bits of doubles stand for: the mantissa has at most 53 bits, and fewer
only if the exponent is the lowest one. -/
structure Magnitude.Canonical (x : Magnitude) : Prop where
  bounded : x.mantissa < 2 ^ 53
  lowest : -1074 ≤ x.exponent
  normal : x.exponent ≠ -1074 → 2 ^ 52 ≤ x.mantissa
  narrow : x.narrowBelow = true ↔ x.mantissa = 2 ^ 52 ∧ x.exponent ≠ -1074

theorem Magnitude.ext_of_canonical {x y : Magnitude} (hx : x.Canonical) (hy : y.Canonical)
    (hmantissa : x.mantissa = y.mantissa) (hexponent : x.exponent = y.exponent) : x = y := by
  have hnarrow : x.narrowBelow = y.narrowBelow := by
    rw [Bool.eq_iff_iff, hx.narrow, hy.narrow, hmantissa, hexponent]
  cases x
  cases y
  subst hmantissa hexponent hnarrow
  rfl

/-- The magnitude with the mantissa and the exponent. -/
def Magnitude.scaled (m : Nat) (e : ℤ) : Magnitude := ⟨m, e, decide (m = 2 ^ 52 ∧ e ≠ -1074)⟩

theorem Magnitude.canonical_scaled {m : Nat} {e : ℤ} (hbounded : m < 2 ^ 53) (hlowest : -1074 ≤ e)
    (hnormal : e ≠ -1074 → 2 ^ 52 ≤ m) : (scaled m e).Canonical :=
  ⟨hbounded, hlowest, hnormal, decide_eq_true_iff⟩

theorem Magnitude.Canonical.eq_scaled {x : Magnitude} (h : x.Canonical) :
    x = scaled x.mantissa x.exponent :=
  ext_of_canonical h (canonical_scaled h.bounded h.lowest h.normal) rfl rfl

namespace Binary
variable {bits : UInt64}

/-- The eleven bits of the exponent. -/
def exponentField (bits : UInt64) : Nat := bits.toNat / 2 ^ 52 % 2 ^ 11

/-- The 52 bits of the fraction. -/
def fractionField (bits : UInt64) : Nat := bits.toNat % 2 ^ 52

/-- The bit of the sign. -/
def signField (bits : UInt64) : Nat := bits.toNat / 2 ^ 63

theorem toNat_exponent (bits : UInt64) :
    ((bits >>> 52) &&& 0x7FF).toNat = exponentField bits := by
  rw [UInt64.toNat_and, UInt64.toNat_shiftRight, show (0x7FF : UInt64).toNat = 2 ^ 11 - 1 from rfl,
    Nat.and_two_pow_sub_one_eq_mod, Nat.shiftRight_eq_div_pow]
  rfl

theorem toNat_fraction (bits : UInt64) : (bits &&& 0xFFFFFFFFFFFFF).toNat = fractionField bits := by
  rw [UInt64.toNat_and, show (0xFFFFFFFFFFFFF : UInt64).toNat = 2 ^ 52 - 1 from rfl,
    Nat.and_two_pow_sub_one_eq_mod]
  rfl

theorem negative_iff (bits : UInt64) : (bits >>> 63 == 1) = true ↔ signField bits = 1 := by
  rw [beq_iff_eq, ← UInt64.toNat_inj, UInt64.toNat_shiftRight, Nat.shiftRight_eq_div_pow]
  rfl

theorem signField_lt (bits : UInt64) : signField bits < 2 := by
  have := bits.toNat_lt
  unfold signField
  lia

theorem fractionField_lt (bits : UInt64) : fractionField bits < 2 ^ 52 :=
  Nat.mod_lt _ (by decide)

theorem toNat_eq_fields (bits : UInt64) :
    bits.toNat = (signField bits * 2 ^ 11 + exponentField bits) * 2 ^ 52 + fractionField bits := by
  unfold signField exponentField fractionField
  lia

/-- The fields settle the bits. -/
theorem eq_of_fields {bits bits' : UInt64} (hsign : signField bits = signField bits')
    (hexponent : exponentField bits = exponentField bits')
    (hfraction : fractionField bits = fractionField bits') : bits = bits' := by
  rw [← UInt64.toNat_inj, toNat_eq_fields bits, toNat_eq_fields bits', hsign, hexponent, hfraction]

theorem sign_eq {bits bits' : UInt64} (h : (bits >>> 63 == 1) = (bits' >>> 63 == 1)) :
    signField bits = signField bits' := by
  have hiff := Bool.eq_iff_iff.mp h
  rw [negative_iff, negative_iff] at hiff
  have := signField_lt bits
  have := signField_lt bits'
  lia

/-- The magnitude that the exponent and the fraction stand for. -/
def fieldsMagnitude (exponent fraction : Nat) : Magnitude :=
  if exponent = 0 then
    { mantissa := fraction, exponent := -1074 }
  else
    { mantissa := 2 ^ 52 + fraction
      exponent := (exponent : Int) - 1075
      narrowBelow := fraction == 0 && exponent > 1 }

/-- What the bits stand for, by their fields. -/
theorem ofBits_eq (bits : UInt64) :
    ofBits bits =
      if exponentField bits = 0x7FF then
        if fractionField bits = 0 then .infinite (bits >>> 63 == 1) else .nan
      else .finite (bits >>> 63 == 1)
        (fieldsMagnitude (exponentField bits) (fractionField bits)) := by
  unfold ofBits fieldsMagnitude
  simp only [toNat_exponent, toNat_fraction]
  split_ifs <;> rfl

theorem canonical_fieldsMagnitude {exponent fraction : Nat} (h : fraction < 2 ^ 52) :
    (fieldsMagnitude exponent fraction).Canonical := by
  unfold fieldsMagnitude
  split
  · exact ⟨by dsimp only; lia, by simp, by simp, by simp⟩
  · refine ⟨?_, ?_, fun _ => ?_, ?_⟩ <;> dsimp only
    · lia
    · lia
    · lia
    · rw [Bool.and_eq_true, beq_iff_eq, decide_eq_true_eq]
      lia

theorem fields_of_magnitude {exponent exponent' fraction fraction' : Nat}
    (h : fraction < 2 ^ 52) (h' : fraction' < 2 ^ 52)
    (heq : fieldsMagnitude exponent fraction = fieldsMagnitude exponent' fraction') :
    exponent = exponent' ∧ fraction = fraction' := by
  have hmantissa := congrArg Magnitude.mantissa heq
  have hexponent := congrArg Magnitude.exponent heq
  unfold fieldsMagnitude at hmantissa hexponent
  split_ifs at hmantissa hexponent <;> dsimp only at hmantissa hexponent <;> lia

theorem canonical_of_ofBits {negative : Bool} {x : Magnitude}
    (h : ofBits bits = .finite negative x) : x.Canonical := by
  rw [ofBits_eq] at h
  split_ifs at h
  cases h
  exact canonical_fieldsMagnitude (fractionField_lt bits)

theorem eq_of_ofBits {bits' : UInt64} {negative : Bool} {x : Magnitude}
    (h : ofBits bits = .finite negative x) (h' : ofBits bits' = .finite negative x) :
    bits = bits' := by
  rw [ofBits_eq] at h h'
  split_ifs at h h'
  rw [← h', Binary.finite.injEq] at h
  obtain ⟨hexponent, hfraction⟩ :=
    fields_of_magnitude (fractionField_lt bits) (fractionField_lt bits') h.2
  exact eq_of_fields (sign_eq h.1) hexponent hfraction

theorem canonical_of_ofFloat {value : Float} {negative : Bool} {x : Magnitude}
    (h : ofFloat value = .finite negative x) : x.Canonical := canonical_of_ofBits h

/-- A finite double is settled by its sign and its magnitude. -/
theorem eq_of_ofFloat {value value' : Float} {negative : Bool} {x : Magnitude}
    (h : ofFloat value = .finite negative x) (h' : ofFloat value' = .finite negative x) :
    value = value' := by
  have hbits : value.toModel.toBits = value'.toModel.toBits := eq_of_ofBits h h'
  obtain ⟨⟨bits, hvalid⟩⟩ := value
  obtain ⟨⟨bits', hvalid'⟩⟩ := value'
  dsimp only at hbits
  subst hbits
  rfl

end Binary

/-- The double is a number and not infinite. -/
def IsFinite (x : Float) : Prop :=
  ∃ negative magnitude, Binary.ofFloat x = .finite negative magnitude

namespace Binary

open Float.Model UnpackedFloat

theorem toNat_unpackExponent (bits : UInt64) :
    (@unpackExponent .binary64 bits.toBitVec).toNat = exponentField bits := by
  simp only [unpackExponent, BitVec.toNat_cast, BitVec.extractLsb, BitVec.extractLsb'_toNat,
    Nat.shiftRight_eq_div_pow]
  rfl

theorem toNat_unpackMantissa (bits : UInt64) :
    (@unpackMantissa .binary64 bits.toBitVec).toNat = fractionField bits := by
  simp only [unpackMantissa, BitVec.toNat_cast, BitVec.extractLsb, BitVec.extractLsb'_toNat,
    Nat.shiftRight_eq_div_pow, Nat.pow_zero, Nat.div_one]
  rfl

/-- The bits are those of no number if the exponent is the highest one and the fraction is not
zero. -/
theorem ofBits_eq_nan_iff (bits : UInt64) :
    ofBits bits = .nan ↔
      @unpackExponent .binary64 bits.toBitVec = -1#_ ∧
        @unpackMantissa .binary64 bits.toBitVec ≠ 0#_ := by
  rw [ofBits_eq, ← BitVec.toNat_inj, Ne, ← BitVec.toNat_inj, toNat_unpackExponent,
    toNat_unpackMantissa, show (-1#(Format.binary64.exponentBits)).toNat = 0x7FF from rfl,
    show (0#(Format.binary64.mantissaBitsWithoutImplicit)).toNat = 0 from rfl]
  split_ifs <;> simp_all

/-- Whatever is packed, if it is a number, then its bits stand for one. -/
theorem ofFloat_pack_ne_nan {u : UnpackedFloat} (h : u ≠ .notANumber) :
    ofFloat (.ofModel (pack u)) ≠ .nan := by
  show ofBits (.ofBitVec (UnpackedFloat.pack .binary64 u)) ≠ .nan
  rw [Ne, ofBits_eq_nan_iff]
  rintro ⟨hexponent, hmantissa⟩
  revert hexponent hmantissa
  dsimp only
  fun_cases UnpackedFloat.pack with
  | case1 => exact absurd rfl h
  | case2 s => simp [packedInfinity]
  | case3 s => simp [packedZero]
  | case4 s m e hm biasedExponent hlarge => simp [packedInfinity]
  | case5 s m e hm bits biasedExponent hsmall hnormal =>
    -- the biased exponent is too small to have all its bits set
    have hlt : biasedExponent < 2047 := by simpa using hsmall
    have hfield : biasedExponent % 2048 ≠ 2047 := by lia
    simp [BitVec.neg_one_eq_allOnes, ← BitVec.toNat_inj, hfield]
  | case6 s m e hm bits biasedExponent hsmall hnormal => simp

end Binary
end Lox.Number
