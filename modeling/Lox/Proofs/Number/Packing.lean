import Lox.Proofs.Number.Rounding

/-!
# The bits of a result

The arithmetic takes the bits of doubles apart and packs its results into bits again. What the bits
of a double stand for is what the arithmetic takes them for, and the bits of a result that is not
too large stand for that result.
-/
namespace Lox.Number.Binary
open Float.Model UnpackedFloat

theorem toNat_unpackSign (bits : UInt64) :
    (@unpackSign .binary64 bits.toBitVec).toNat = signField bits := by
  have hlt := signField_lt bits
  unfold signField at hlt ⊢
  simp only [unpackSign, BitVec.toNat_cast, BitVec.extractLsb, BitVec.extractLsb'_toNat,
    Nat.shiftRight_eq_div_pow]
  exact Nat.mod_eq_of_lt hlt

theorem isNegative_unpackSign (bits : UInt64) :
    isNegative (.ofBitVec (@unpackSign .binary64 bits.toBitVec)) = (bits >>> 63 == 1) := by
  rw [Bool.eq_iff_iff, negative_iff, ← toNat_unpackSign]
  generalize @unpackSign .binary64 bits.toBitVec = sign
  revert sign
  decide

theorem fieldsMagnitude_zero {fraction : Nat} (h : fraction < 2 ^ 52) :
    fieldsMagnitude 0 fraction = .scaled fraction (-1074) := by
  rw [(canonical_fieldsMagnitude h).eq_scaled]
  rfl

theorem fieldsMagnitude_of_ne_zero {exponent fraction : Nat} (h : fraction < 2 ^ 52)
    (hne : exponent ≠ 0) :
    fieldsMagnitude exponent fraction = .scaled (2 ^ 52 + fraction) (exponent - 1075) := by
  rw [(canonical_fieldsMagnitude h).eq_scaled]
  unfold fieldsMagnitude
  rw [if_neg hne]

theorem toNat_one_append (fraction : BitVec 52) :
    (1#1 ++ fraction).toNat = 2 ^ 52 + fraction.toNat := by
  rw [BitVec.toNat_append, ← Nat.shiftLeft_add_eq_or_of_lt fraction.isLt]
  rfl

/-- The bits stand for what the arithmetic takes them for. -/
theorem ofBits_eq_ofUnpacked (bits : UInt64) :
    ofBits bits = ofUnpacked (UnpackedFloat.unpack .binary64 bits.toBitVec) := by
  have hfraction := fractionField_lt bits
  have hone := toNat_one_append (@unpackMantissa .binary64 bits.toBitVec)
  have hbias : (Format.binary64.exponentBias + (52 : Nat) : ℤ) = 1075 := rfl
  rw [toNat_unpackMantissa] at hone
  rw [ofBits_eq]
  unfold UnpackedFloat.unpack
  dsimp only
  simp only [← BitVec.toNat_inj, toNat_unpackExponent, toNat_unpackMantissa, hone, hbias,
    show (-1#11).toNat = 2047 from rfl, show (0#11).toNat = 0 from rfl,
    show (0#52).toNat = 0 from rfl]
  split_ifs with htop hinfinite hlowest hzero <;>
    simp only [ofUnpacked, isNegative_unpackSign]
  · rw [hlowest, hzero, fieldsMagnitude_zero (by norm_num)]
  · rw [hlowest, fieldsMagnitude_zero hfraction]
    rfl
  · rw [fieldsMagnitude_of_ne_zero hfraction hlowest]

theorem ofFloat_eq_ofUnpacked (x : Float) : ofFloat x = ofUnpacked x.toModel.unpack :=
  ofBits_eq_ofUnpacked _

variable {sign : Sign} {exponent : BitVec 11} {fraction : BitVec 52}

theorem unpackSign_packComponents :
    unpackSign (packComponents .binary64 sign exponent fraction) = sign.toBitVec := by
  ext i hi
  obtain rfl : i = 0 := by lia
  simp only [unpackSign, packComponents, BitVec.extractLsb, BitVec.getElem_cast,
    BitVec.getElem_extractLsb', BitVec.getLsbD_append]
  simp

/-- Components that are not those of an infinity stand for a magnitude. -/
theorem ofBits_packComponents (h : exponent.toNat ≠ 2047) :
    ofBits (.ofBitVec (packComponents .binary64 sign exponent fraction)) =
      .finite (isNegative sign) (fieldsMagnitude exponent.toNat fraction.toNat) := by
  set bits : UInt64 := .ofBitVec (packComponents .binary64 sign exponent fraction)
  have hpacked : bits.toBitVec = packComponents .binary64 sign exponent fraction := rfl
  have hsign : isNegative (.ofBitVec sign.toBitVec) = isNegative sign := by cases sign <;> rfl
  have hexponent : exponent.toNat = exponentField bits := by
    rw [← toNat_unpackExponent, hpacked, unpackExponent_packComponents]
  have hfraction : fraction.toNat = fractionField bits := by
    rw [← toNat_unpackMantissa, hpacked, unpackMantissa_packComponents]
  rw [ofBits_eq, ← isNegative_unpackSign, hpacked, unpackSign_packComponents, hsign, ← hexponent,
    ← hfraction, if_neg h]

/-- A result that is not too large is packed into bits that stand for it. -/
theorem ofFloat_pack {u : UnpackedFloat} {negative : Bool} {x : Magnitude} (hx : x.Canonical)
    (hlargest : x.exponent ≤ 971) (h : ofUnpacked u = .finite negative x) :
    ofFloat (.ofModel (pack u)) = .finite negative x := by
  rw [← h]
  change ofBits (.ofBitVec (UnpackedFloat.pack .binary64 u)) = _
  cases u with
  | notANumber | infinity sign => cases h
  | zero sign =>
    change ofBits (.ofBitVec (packComponents .binary64 sign 0 0)) = _
    rw [ofBits_packComponents (by decide)]
    exact congrArg _ (fieldsMagnitude_zero (by decide))
  | finite sign m e hpos =>
    obtain ⟨-, rfl⟩ := Binary.finite.inj h
    have hbounded : m < 2 ^ 53 := hx.bounded
    have hlowest : -1074 ≤ e := hx.lowest
    have hnormal : e ≠ -1074 → 2 ^ 52 ≤ m := hx.normal
    have hlargest : e ≤ 971 := hlargest
    have hbiased : (e + Format.binary64.exponentBias +
        Format.binary64.mantissaBitsWithoutImplicit).toNat = (e + 1075).toNat := by
      rw [add_assoc]
      rfl
    unfold UnpackedFloat.pack
    dsimp only
    rw [hbiased, if_neg (by norm_num; lia)]
    rw [show Format.binary64.mantissaBits = 53 from rfl]
    split
    · next hbits =>
      have hm : 2 ^ 52 ≤ m := by
        rw [← Nat.le_log2 hpos.ne']
        lia
      have hexponent : (BitVec.ofNat 11 (e + 1075).toNat).toNat = (e + 1075).toNat := by
        rw [BitVec.toNat_ofNat]
        lia
      have hfraction : 2 ^ 52 + (BitVec.ofNat 52 m).toNat = m := by
        rw [BitVec.toNat_ofNat]
        lia
      rw [ofBits_packComponents (by rw [hexponent]; lia), hexponent,
        fieldsMagnitude_of_ne_zero (BitVec.isLt _) (by lia), hfraction]
      exact congrArg (fun e => Binary.finite _ (.scaled m e)) (by lia)
    · next hbits =>
      have hm : m < 2 ^ 52 := by
        rw [← Nat.log2_lt hpos.ne']
        have := (Nat.log2_lt hpos.ne').mpr hbounded
        lia
      have he : e = -1074 := by
        by_contra hne
        have := hnormal hne
        lia
      have hfraction : (BitVec.ofNat 52 m).toNat = m := by
        rw [BitVec.toNat_ofNat]
        lia
      rw [ofBits_packComponents (by decide), he]
      refine (congrArg _ (fieldsMagnitude_zero (BitVec.isLt _))).trans ?_
      rw [hfraction]
      rfl

/-- The exponent of a finite double is not above that of the largest one. -/
theorem exponent_le_of_ofBits {bits : UInt64} {negative : Bool} {x : Magnitude}
    (h : ofBits bits = .finite negative x) : x.exponent ≤ 971 := by
  rw [ofBits_eq] at h
  split_ifs at h with htop
  have hlt : exponentField bits < 2 ^ 11 := Nat.mod_lt _ (by norm_num)
  obtain ⟨-, rfl⟩ := Binary.finite.inj h
  unfold fieldsMagnitude
  split <;> dsimp only <;> lia

end Lox.Number.Binary
