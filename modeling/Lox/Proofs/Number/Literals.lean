import Lox.Number.Reading
import Lox.Proofs.Number.Bits

/-!
# Number literals are numbers

The value of a number literal is the quotient of a natural number and a power of ten, or rounded
from it. It may be too large and so be infinite, but it is never no number.
-/
namespace Lox.Number
open Float.Model UnpackedFloat

variable {spec : Format}

theorem roundWithAccuracy_ne_nan (sign : Sign) (mantissa : Nat) (exponent : Int)
    (accuracy : Accuracy) :
    roundWithAccuracy spec sign mantissa exponent accuracy ≠ .notANumber := by
  unfold roundWithAccuracy
  dsimp only
  split <;> exact nofun

/-- A number divided by a finite one is a number. -/
theorem div_ne_nan {u : UnpackedFloat} (hu : u ≠ .notANumber) (sign : Sign) (mantissa : Nat)
    (exponent : Int) (hpos : 0 < mantissa) :
    div spec u (.finite sign mantissa exponent hpos) ≠ .notANumber := by
  cases u with
  | notANumber => exact absurd rfl hu
  | infinity _ | zero _ => exact nofun
  | finite _ _ _ _ => exact roundWithAccuracy_ne_nan _ _ _ _

theorem mul_ne_nan {m₁ m₂ : Nat} {e₁ e₂ : Int} (s₁ s₂ : Sign) (h₁ : 0 < m₁) (h₂ : 0 < m₂) :
    mul spec (.finite s₁ m₁ e₁ h₁) (.finite s₂ m₂ e₂ h₂) ≠ .notANumber :=
  roundWithAccuracy_ne_nan _ _ _ _

theorem ofScientific_ne_nan (mantissa : Nat) (exponent : Int) :
    UnpackedFloat.ofScientific spec mantissa exponent ≠ .notANumber := by
  unfold UnpackedFloat.ofScientific
  split_ifs
  · exact nofun
  · exact nofun
  · exact nofun
  · exact mul_ne_nan _ _ _ _
  · exact div_ne_nan (by simp) _ _ _ _

theorem ofUInt64_ne_nan (n : UInt64) : UnpackedFloat.ofUInt64 spec n ≠ .notANumber := by
  unfold UnpackedFloat.ofUInt64 UnpackedFloat.ofNat UnpackedFloat.ofInt
    UnpackedFloat.normalize
  split
  · exact roundWithAccuracy_ne_nan _ _ _ _
  · exact nofun
  · exact roundWithAccuracy_ne_nan _ _ _ _

theorem unpack_ne_nan {x : Float} (h : Binary.ofFloat x ≠ .nan) :
    x.toModel.unpack ≠ .notANumber := by
  contrapose h
  refine (Binary.ofBits_eq_nan_iff _).mpr ?_
  unfold Float.Model.unpack UnpackedFloat.unpack at h
  dsimp only at h
  split_ifs at h with hexponent hmantissa
  exact ⟨hexponent, hmantissa⟩

/-- The double is finite and not zero. -/
def isNonzero (x : Float) : Bool :=
  match x.toModel.unpack with
  | .finite _ _ _ _ => true
  | _ => false

theorem isNonzero_power :
    ∀ e : Fin 23, isNonzero Float.exactlyRepresentablePowersOfTen[e] = true := by
  decide

theorem toFloat_ne_nan (n : UInt64) : Binary.ofFloat n.toFloat ≠ .nan :=
  Binary.ofFloat_pack_ne_nan (ofUInt64_ne_nan n)

/-- A quotient by a finite double other than zero is a number if the dividend is. -/
theorem ofFloat_div_ne_nan {x y : Float} (hx : Binary.ofFloat x ≠ .nan)
    (hy : isNonzero y = true) : Binary.ofFloat (x / y) ≠ .nan := by
  refine Binary.ofFloat_pack_ne_nan ?_
  unfold isNonzero at hy
  split at hy
  · next sign mantissa exponent hpos hunpack =>
    rw [hunpack]
    exact div_ne_nan (unpack_ne_nan hx) sign mantissa exponent hpos
  · exact absurd hy (by simp)

/-- The value of a number literal is a number. -/
theorem ofLiteral_ne_nan (whole fraction : List Char) :
    Binary.ofFloat (ofLiteral whole fraction) ≠ .nan := by
  unfold ofLiteral Float.ofScientific
  split
  · next h => exact ofFloat_div_ne_nan (toFloat_ne_nan _) (isNonzero_power ⟨_, by lia⟩)
  · exact Binary.ofFloat_pack_ne_nan (ofScientific_ne_nan _ _)

end Lox.Number
