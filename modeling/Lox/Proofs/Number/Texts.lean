import Lox.Proofs.Number.Intervals
import Lox.Number.Reading
import Lox.Syntax.PrefixForm

/-!
# The numbers that texts write

A row of digits, and two rows with a point between them, write one number each. The digits of a
decimal in place write its value, so in the prefix form the texts of two finite doubles differ.
-/
namespace Lox.Number

/-- A row of digits, or two rows with a point between them, writes the number. -/
inductive Writes : List Char → ℚ → Prop
  | whole {digits : List Char} (hne : digits ≠ []) (hdigits : ∀ c ∈ digits, c.isDigit = true) :
      Writes digits (ofDigits digits)
  | fraction {whole fraction : List Char} (hne : whole ≠ [])
      (hwhole : ∀ c ∈ whole, c.isDigit = true) (hfrac : fraction ≠ [])
      (hfraction : ∀ c ∈ fraction, c.isDigit = true) :
      Writes (whole ++ '.' :: fraction) (ofDigits (whole ++ fraction) / 10 ^ fraction.length)

/-- Digits end where something else begins. -/
theorem digits_append_inj {xs ys rest rest' : List Char} (hx : ∀ c ∈ xs, c.isDigit = true)
    (hy : ∀ c ∈ ys, c.isDigit = true) (hrest : ∀ c ∈ rest.head?, c.isDigit = false)
    (hrest' : ∀ c ∈ rest'.head?, c.isDigit = false) (h : xs ++ rest = ys ++ rest') :
    xs = ys ∧ rest = rest' := by
  have htake {digits after : List Char} (hdigits : ∀ c ∈ digits, c.isDigit = true)
      (hafter : ∀ c ∈ after.head?, c.isDigit = false) :
      (digits ++ after).takeWhile Char.isDigit = digits := by
    rw [List.takeWhile_append_of_pos hdigits]
    cases after with
    | nil => simp
    | cons c after => rw [List.takeWhile_cons_of_neg (by simp [hafter c rfl]), List.append_nil]
  have hfront := congrArg (List.takeWhile Char.isDigit) h
  rw [htake hx hrest, htake hy hrest'] at hfront
  subst hfront
  exact ⟨rfl, List.append_cancel_left h⟩

namespace Writes
variable {text : List Char} {v v' : ℚ}

/-- A text writes one number. -/
theorem unique (h : Writes text v) (h' : Writes text v') : v = v' := by
  generalize htext : text = text' at h'
  cases h with
  | whole hne hdigits =>
    cases h' with
    | whole hne' hdigits' => rw [htext]
    | fraction hne' hwhole' hfrac' hfraction' =>
      have hpoint := hdigits '.' (by simp [htext])
      exact absurd hpoint (by decide)
  | fraction hne hwhole hfrac hfraction =>
    cases h' with
    | whole hne' hdigits' =>
      have hpoint := hdigits' '.' (by simp [← htext])
      exact absurd hpoint (by decide)
    | fraction hne' hwhole' hfrac' hfraction' =>
      have hpoint (cs : List Char) : ∀ c ∈ ('.' :: cs).head?, c.isDigit = false := by
        rintro c ⟨⟩
        rfl
      obtain ⟨rfl, hrest⟩ := digits_append_inj hwhole hwhole' (hpoint _) (hpoint _) htext
      rw [(List.cons.inj hrest).2]

theorem ne_nil (h : Writes text v) : text ≠ [] := by
  cases h with
  | whole hne _ => exact hne
  | fraction hne _ _ _ => simp

/-- The characters of such a text are digits and points. -/
theorem isDigit_or_point (h : Writes text v) {c : Char} (hc : c ∈ text) :
    c.isDigit = true ∨ c = '.' := by
  cases h with
  | whole _ hdigits => exact .inl (hdigits c hc)
  | fraction _ hwhole _ hfraction =>
    rw [List.mem_append, List.mem_cons] at hc
    obtain hc | hc | hc := hc
    · exact .inl (hwhole c hc)
    · exact .inr hc
    · exact .inl (hfraction c hc)

end Writes

theorem ofDigits_toDigits (n : Nat) : ofDigits (Nat.toDigits 10 n) = n :=
  Nat.ofDigitChars_ten_toDigits

theorem ofDigits_append_zeros (digits : List Char) (count : Nat) :
    ofDigits (digits ++ List.replicate count '0') = 10 ^ count * ofDigits digits := by
  show Nat.ofDigitChars 10 _ 0 = _
  rw [Nat.ofDigitChars_append, Nat.ofDigitChars_replicate_zero]
  rfl

theorem ofDigits_zeros_append (digits : List Char) (count : Nat) :
    ofDigits (List.replicate count '0' ++ digits) = ofDigits digits := by
  show Nat.ofDigitChars 10 _ 0 = _
  rw [Nat.ofDigitChars_append, Nat.ofDigitChars_replicate_zero, Nat.mul_zero]
  rfl

theorem isDigit_zeros {count : Nat} {c : Char} (h : c ∈ List.replicate count '0') :
    c.isDigit = true := by
  rw [List.eq_of_mem_replicate h]
  rfl

theorem isDigit_toDigits {n : Nat} {c : Char} (h : c ∈ Nat.toDigits 10 n) : c.isDigit = true :=
  Nat.isDigit_of_mem_toDigits (by decide) (by decide) h

theorem writes_positional (d : Decimal) : Writes d.positional.toList d.value := by
  have hne : Nat.toDigits 10 d.digits ≠ [] := Nat.toDigits_ne_nil
  unfold Decimal.positional Decimal.value
  dsimp only
  split
  · next hwhole =>
    have hvalue : (d.digits * 10 ^ d.exponent : ℚ) =
        ofDigits (Nat.toDigits 10 d.digits ++ List.replicate d.exponent.toNat '0') := by
      rw [ofDigits_append_zeros, ofDigits_toDigits]
      push_cast
      rw [← zpow_natCast, Int.toNat_of_nonneg hwhole, mul_comm]
    rw [String.toList_ofList, hvalue]
    refine .whole (by simp [hne]) fun c hc => ?_
    exact (List.mem_append.mp hc).elim isDigit_toDigits isDigit_zeros
  · next hfraction =>
    set places := (-d.exponent).toNat with hplaces
    set padded := List.replicate (places + 1 - (Nat.toDigits 10 d.digits).length) '0' ++
      Nat.toDigits 10 d.digits with hpadded
    have hlength : places + 1 ≤ padded.length := by
      rw [hpadded, List.length_append, List.length_replicate]
      lia
    have hdigits (c : Char) (hc : c ∈ padded) : c.isDigit = true :=
      (List.mem_append.mp hc).elim isDigit_zeros isDigit_toDigits
    have hdrop : (padded.drop (padded.length - places)).length = places := by
      rw [List.length_drop]
      lia
    have hvalue : (d.digits * 10 ^ d.exponent : ℚ) =
        ofDigits (padded.take (padded.length - places) ++ padded.drop (padded.length - places)) /
          10 ^ (padded.drop (padded.length - places)).length := by
      rw [List.take_append_drop, hdrop, hpadded, ofDigits_zeros_append, ofDigits_toDigits,
        div_eq_mul_inv, ← zpow_natCast, ← zpow_neg]
      congr 2
      lia
    rw [String.toList_ofList, hvalue]
    refine .fraction ?_ (fun c hc => hdigits c (List.mem_of_mem_take hc)) ?_
      fun c hc => hdigits c (List.mem_of_mem_drop hc)
    · rw [← List.length_pos_iff, List.length_take]
      lia
    · rw [← List.length_pos_iff, hdrop]
      lia

theorem writes_natural (n : Nat) : Writes (toString n ++ ".0").toList n := by
  have hvalue : (n : ℚ) = ofDigits (Nat.toDigits 10 n ++ ['0']) / 10 ^ ['0'].length := by
    rw [show ['0'] = List.replicate 1 '0' from rfl, ofDigits_append_zeros, ofDigits_toDigits]
    push_cast
    rw [List.length_singleton]
    ring
  have htext : (toString n ++ ".0").toList = Nat.toDigits 10 n ++ '.' :: ['0'] := by
    rw [String.toList_append, Nat.toString_eq_repr, Nat.toList_repr]
    rfl
  rw [htext, hvalue]
  exact .fraction Nat.toDigits_ne_nil (fun c hc => isDigit_toDigits hc) (by simp) (by simp)

end Lox.Number

namespace Lox.Literal
open Number

/-- In the prefix form, the text of a magnitude writes a number that rounds to it. -/
theorem writes_magnitude (x : Magnitude) :
    ∃ v, Writes (numberStyle.magnitude x).toList v ∧ x.Attracts v := by
  unfold Style.magnitude
  split
  · next n h =>
    refine ⟨n, writes_natural n, ?_⟩
    rw [Magnitude.cast_toNat? (Option.filter_eq_some_iff.mp h).1]
    exact x.attracts_value
  · refine ⟨(x.shortest .upward).value, ?_, x.attracts_shortest _⟩
    have htext : numberStyle.shortest x = (x.shortest .upward).positional := by
      simp [Style.shortest, numberStyle]
    rw [htext]
    exact writes_positional _

theorem not_mem_minus (x : Magnitude) : '-' ∉ (numberStyle.magnitude x).toList := by
  obtain ⟨v, hwrites, -⟩ := writes_magnitude x
  intro hminus
  exact absurd (hwrites.isDigit_or_point hminus) (by decide)

theorem write_eq {x : Float} {negative : Bool} {m : Magnitude}
    (h : Binary.ofFloat x = .finite negative m) :
    (numberStyle.write x).toList =
      (if negative then ['-'] else []) ++ (numberStyle.magnitude m).toList := by
  unfold Style.write
  rw [h]
  cases negative <;> simp [Style.binary, Style.sign, numberStyle]

/-- The texts of different finite doubles are different. -/
theorem write_injective {x y : Float} (hx : IsFinite x) (hy : IsFinite y)
    (h : numberStyle.write x = numberStyle.write y) : x = y := by
  obtain ⟨negative, m, hx⟩ := hx
  obtain ⟨negative', m', hy⟩ := hy
  have htext := congrArg String.toList h
  rw [write_eq hx, write_eq hy] at htext
  have hsign : negative = negative' := by
    have hminus (m m' : Magnitude) :
        '-' :: (numberStyle.magnitude m).toList ≠ (numberStyle.magnitude m').toList :=
      fun h => not_mem_minus m' (h ▸ List.mem_cons_self)
    cases negative <;> cases negative'
    · rfl
    · exact absurd htext.symm (hminus m' m)
    · exact absurd htext (hminus m m')
    · rfl
  subst hsign
  rw [List.append_cancel_left_eq] at htext
  -- both magnitudes round from the number that the one text writes
  obtain ⟨v, hwrites, hattracts⟩ := writes_magnitude m
  obtain ⟨v', hwrites', hattracts'⟩ := writes_magnitude m'
  obtain rfl := hwrites.unique (htext ▸ hwrites')
  obtain rfl := Magnitude.eq_of_attracts (Binary.canonical_of_ofFloat hx)
    (Binary.canonical_of_ofFloat hy) hattracts hattracts'
  exact Binary.eq_of_ofFloat hx hy

/-- The text of a finite double consists of digits and points, with a minus in front of it or
without one. -/
theorem mem_write {x : Float} (hx : IsFinite x) {c : Char} (h : c ∈ (numberStyle.write x).toList) :
    c.isDigit = true ∨ c = '.' ∨ c = '-' := by
  obtain ⟨negative, m, hx⟩ := hx
  obtain ⟨v, hwrites, -⟩ := writes_magnitude m
  rw [write_eq hx, List.mem_append] at h
  obtain h | h := h
  · refine .inr (.inr ?_)
    cases negative
    · exact absurd h (by simp)
    · exact List.mem_singleton.mp h
  · exact (hwrites.isDigit_or_point h).imp_right .inl

theorem write_ne_nil {x : Float} (hx : IsFinite x) : (numberStyle.write x).toList ≠ [] := by
  obtain ⟨negative, m, hx⟩ := hx
  obtain ⟨v, hwrites, -⟩ := writes_magnitude m
  rw [write_eq hx]
  simp [hwrites.ne_nil]

end Lox.Literal
