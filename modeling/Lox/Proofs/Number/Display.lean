import Lox.Proofs.Number.Numerals
import Lox.Proofs.Number.Reading
import Lox.Proofs.Number.Sizes
import Lox.Proofs.Token.Rescanning
import Lox.Value.Text

/-!
# Printed numbers

The text that is printed for a finite double is a numeral that stands for that double and for no
other one. An exponent is written for the doubles below a thousandth and from ten millions on; the
other texts are number literals if there is no sign, and scanning them gives the double back.
-/
namespace Lox.Number

theorem head_toDigits_ne_zero {n : Nat} (h : 0 < n) {first : Char} {rest : List Char}
    (hn : Nat.toDigits 10 n = first :: rest) : first ≠ '0' := by
  induction n using Nat.strongRecOn generalizing first rest with
  | ind n ih =>
    obtain hlt | hge := Nat.lt_or_ge n 10
    · have hdigit : ∀ k : Fin 10, 0 < k.val → k.val.digitChar ≠ '0' := by decide
      rw [Nat.toDigits_of_lt_base hlt] at hn
      rw [← (List.cons.inj hn).1]
      exact hdigit ⟨n, hlt⟩ h
    · rw [Nat.toDigits_of_base_le (by norm_num) hge] at hn
      obtain ⟨first', rest', hfront⟩ := List.exists_cons_of_ne_nil
        (Nat.toDigits_ne_nil (n := n / 10) (b := 10))
      rw [hfront, List.cons_append] at hn
      rw [← (List.cons.inj hn).1]
      exact ih (n / 10) (by lia) (by lia) hfront

/-- A text of digits with or without a point is that of a numeral. -/
theorem Writes.exists_numeral {chars : List Char} {v : ℚ} (h : Writes chars v) (negative : Bool) :
    ∃ n : Numeral, n.negative = negative ∧ n.exponent = none ∧ n.whole ++ n.point = chars ∧
      n.size = v := by
  cases h with
  | whole hne hdigits =>
    refine ⟨⟨negative, chars, [], none, hne, hdigits, by simp⟩, rfl, rfl, ?_, ?_⟩
    · simp [Numeral.point]
    · simp [Numeral.size]
  | @fraction whole fraction hne hwhole hfrac hfraction =>
    refine ⟨⟨negative, whole, fraction, none, hne, hwhole, hfraction⟩, rfl, rfl, ?_, ?_⟩
    · simp [Numeral.point, hfrac]
    · simp [Numeral.size]

theorem point_not_mem_positional {d : Decimal} (h : 0 ≤ d.exponent) :
    '.' ∉ d.positional.toList := by
  unfold Decimal.positional
  dsimp only
  rw [if_pos h, String.toList_ofList, List.mem_append, not_or]
  exact ⟨fun hmem => absurd (isDigit_toDigits hmem) (by decide),
    fun hmem => absurd (isDigit_zeros hmem) (by decide)⟩

theorem exists_numeral_positional (d : Decimal) (negative : Bool) :
    ∃ n : Numeral, n.negative = negative ∧ n.exponent = none ∧
      n.whole ++ n.point = d.positional.toList ∧ n.size = d.value ∧
        (0 ≤ d.exponent → n.fraction = []) := by
  obtain ⟨n, hnegative, hexponent, htext, hsize⟩ := (writes_positional d).exists_numeral negative
  refine ⟨n, hnegative, hexponent, htext, hsize, fun hwhole => ?_⟩
  by_contra hne
  refine point_not_mem_positional hwhole ?_
  rw [← htext, Numeral.point, if_neg hne]
  simp

theorem exists_numeral_scientific {d : Decimal} (h : 0 < d.digits) (negative : Bool) :
    ∃ n : Numeral, n.negative = negative ∧ n.exponent = some d.leading ∧
      n.whole ++ (n.point ++ n.power) = (Value.numberStyle.scientific d).toList ∧ n.size = d.value ∧
        ∃ first, n.whole = [first] ∧ first ≠ '0' ∧ n.fraction ≠ [] := by
  obtain ⟨first, rest, hdigits⟩ := List.exists_cons_of_ne_nil
    (Nat.toDigits_ne_nil (n := d.digits) (b := 10))
  have hfirst := head_toDigits_ne_zero h hdigits
  have hall : ∀ c ∈ first :: rest, c.isDigit = true := by
    rw [← hdigits]
    exact fun c => isDigit_toDigits
  have hvalue : ofDigits (first :: rest) = d.digits := by rw [← hdigits, ofDigits_toDigits]
  have hleading : d.leading = d.exponent + rest.length := by
    unfold Decimal.leading digitCount
    rw [hdigits, List.length_cons]
    push_cast
    ring
  have hpower : (10 : ℚ) ^ d.leading = 10 ^ d.exponent * 10 ^ rest.length := by
    rw [hleading, zpow_add₀ (by norm_num), zpow_natCast]
  rw [List.forall_mem_cons] at hall
  cases rest with
  | nil =>
    refine ⟨⟨negative, [first], ['0'], some d.leading, by simp, by simpa using hall.1, by simp⟩,
      rfl, rfl, ?_, ?_, first, rfl, hfirst, by simp⟩
    · simp [Numeral.point, Numeral.power, Style.scientific, hdigits, Value.numberStyle]
    · have hzero := ofDigits_append_zeros [first] 1
      rw [hvalue] at hzero
      unfold Numeral.size Decimal.value
      dsimp only
      rw [show ['0'] = List.replicate 1 '0' from rfl, hzero, Option.getD_some, hpower]
      simp
  | cons second rest =>
    refine ⟨⟨negative, [first], second :: rest, some d.leading, by simp, by simpa using hall.1,
      hall.2⟩, rfl, rfl, ?_, ?_, first, rfl, hfirst, by simp⟩
    · simp [Numeral.point, Numeral.power, Style.scientific, hdigits, Value.numberStyle]
    · unfold Numeral.size Decimal.value
      dsimp only
      rw [List.singleton_append, hvalue, Option.getD_some, hpower]
      field_simp

/-- The double that is ten millions. -/
def tenMillions : Magnitude := .scaled (10 ^ 7 * 2 ^ 29) (-29)

/-- The double that is nearest to a thousandth. -/
def thousandth : Magnitude := .scaled 0x10624DD2F1A9FC (-62)

theorem shortest_tenMillions : tenMillions.shortest .upward = ⟨1, 7⟩ := by decide +kernel

theorem shortest_thousandth : thousandth.shortest .upward = ⟨1, -3⟩ := by decide +kernel

/-- No exponent is written for zero and from a thousandth up to ten millions. -/
theorem positional_iff {m : Magnitude} (hm : m.Canonical) :
    ((m.shortest .upward).digits = 0 ∨
        Value.numberStyle.positional (m.shortest .upward).leading = true) ↔
      ¬ (m.value ≠ 0 ∧ (m.value < 1 / 1000 ∨ 10 ^ 7 ≤ m.value)) := by
  obtain hzero | hpos := m.mantissa.eq_zero_or_pos
  · have hvalue : m.value = 0 := by rw [Magnitude.value, hzero, Nat.cast_zero, zero_mul]
    have hdigits : (m.shortest .upward).digits = 0 := by
      unfold Magnitude.shortest
      rw [if_pos hzero]
    simp [hvalue, hdigits]
  · have hdigits := Magnitude.digits_shortest_pos hpos .upward
    have hne : m.value ≠ 0 := by
      unfold Magnitude.value
      positivity
    have hlow := Magnitude.pow_le_shortest_iff hm (t := thousandth)
      (Magnitude.canonical_scaled (by norm_num) (by norm_num) fun _ => by norm_num)
      shortest_thousandth (by norm_num [thousandth])
    have hhigh := Magnitude.pow_le_shortest_iff hm (t := tenMillions)
      (Magnitude.canonical_scaled (by norm_num) (by norm_num) fun _ => by norm_num)
      shortest_tenMillions (by norm_num [tenMillions])
    rw [← Decimal.le_leading_iff hdigits] at hlow hhigh
    have hstyle : Value.numberStyle.positional (m.shortest .upward).leading = true ↔
        -3 ≤ (m.shortest .upward).leading ∧ ¬ 7 ≤ (m.shortest .upward).leading := by
      rw [not_le]
      exact decide_eq_true_iff
    rw [hstyle, hlow, hhigh, show (10 : ℚ) ^ (-3 : ℤ) = 1 / 1000 by norm_num,
      show (10 : ℚ) ^ (7 : ℤ) = 10 ^ 7 by norm_num]
    simp only [hdigits.ne', hne, false_or, ne_eq, not_false_eq_true, true_and, not_or, not_lt]

/-- What the numeral that is printed for a finite double tells about it. -/
structure Numeral.Faithful (n : Numeral) (x : Float) (m : Magnitude) : Prop where
  /-- It stands for that double, the sign of zero included, and for no other one. -/
  nearest : ∀ y, n.IsNearest y ↔ y = x
  /-- An exponent stands in it for the very small and the large doubles. -/
  scientific : n.exponent.isSome = true ↔ m.value ≠ 0 ∧ (m.value < 1 / 1000 ∨ 10 ^ 7 ≤ m.value)
  /-- In front of an exponent there is one digit other than zero, a point and more digits. -/
  normalized : n.exponent.isSome = true → ∃ first, n.whole = [first] ∧ first ≠ '0' ∧ n.fraction ≠ []
  /-- A whole number without an exponent has no fraction. -/
  whole : n.exponent = none → (∃ k : ℕ, m.value = k) → n.fraction = []
  /-- Without a sign and an exponent it is one number token, whose value is the double. -/
  scanned : n.exponent = none → n.negative = false →
    Lexer.items n.text = [.ok ⟨.number x, n.text, 1⟩, .ok (.endOfInput 1)]

namespace Numeral
variable {n : Numeral} {x : Float} {m : Magnitude}

theorem text_of_plain (hexponent : n.exponent = none) (hnegative : n.negative = false) :
    n.text = String.ofList (n.whole ++ n.point) := by
  unfold text power
  rw [hexponent, hnegative]
  simp

/-- A numeral without a sign and an exponent is a number literal. -/
theorem lexeme_text (hexponent : n.exponent = none) (hnegative : n.negative = false) :
    Lexer.Lexeme n.text.toList (.token (.number (ofLiteral n.whole n.fraction))) := by
  rw [text_of_plain hexponent hnegative, String.toList_ofList]
  unfold point
  split
  · next hnil =>
    rw [List.append_nil, hnil]
    exact .integer n.whole_ne_nil n.isDigit_whole
  · next hne => exact .decimal n.whole_ne_nil n.isDigit_whole hne n.isDigit_fraction

theorem lineBreaks_text (hexponent : n.exponent = none) (hnegative : n.negative = false) :
    lineBreaks n.text = 0 := by
  rw [lineBreaks, text_of_plain hexponent hnegative, String.toList_ofList, List.count_eq_zero]
  exact n.not_mem_mantissa rfl (by decide)

/-- Scanning a numeral without a sign and an exponent gives one number token. -/
theorem items_text (hexponent : n.exponent = none) (hnegative : n.negative = false) :
    Lexer.items n.text =
      [.ok ⟨.number (ofLiteral n.whole n.fraction), n.text, 1⟩, .ok (.endOfInput 1)] := by
  have hpieces := Lexer.pieces_token (lexeme_text hexponent hnegative)
    (show Lexer.Parted [] from nofun)
  have hbreaks := lineBreaks_text hexponent hnegative
  rw [List.append_nil] at hpieces
  unfold lineBreaks at hbreaks
  rw [Lexer.items, hpieces]
  simp [Lexer.pieces, Lexer.piecesFrom, Lexer.itemsFrom, Lexer.Piece.item?, hbreaks]

/-- As a literal, a numeral without a sign and an exponent is the double to which it rounds. -/
theorem ofLiteral_eq (hexponent : n.exponent = none) (hx : Binary.ofFloat x = .finite false m)
    (h : m.Attracts n.size) : ofLiteral n.whole n.fraction = x := by
  have hsize : n.size = ofDigits (n.whole ++ n.fraction) / 10 ^ n.fraction.length := by
    rw [size, hexponent, Option.getD_none, zpow_zero, mul_one]
  rw [hsize] at h
  exact Binary.eq_of_ofFloat (ofFloat_ofLiteral (Binary.canonical_of_ofFloat hx)
    (Binary.exponent_le_of_ofBits hx) h) hx

/-- The digits of a printed number: in place, or with an exponent. -/
theorem shortest_eq (m : Magnitude) :
    Value.numberStyle.shortest m =
      if (m.shortest .upward).digits = 0 ∨
          Value.numberStyle.positional (m.shortest .upward).leading = true then
        (m.shortest .upward).positional
      else Value.numberStyle.scientific (m.shortest .upward) := by
  have hfraction : Value.numberStyle.wholeFraction = false := rfl
  unfold Style.shortest
  simp only [hfraction, Bool.false_eq_true, false_and, if_false, String.append_empty]
  rfl

theorem magnitude_eq (m : Magnitude) :
    Value.numberStyle.magnitude m = Value.numberStyle.shortest m := by
  have hnone : m.toNat?.filter Value.numberStyle.allDigits = none := by
    rw [Option.filter_eq_none_iff]
    exact fun _ _ => Bool.false_ne_true
  unfold Style.magnitude
  rw [hnone]

/-- A numeral is the text of a double if it has the sign and the digits that are written. -/
theorem text_eq_write {negative : Bool} (hx : Binary.ofFloat x = .finite negative m)
    (hnegative : n.negative = negative)
    (hdigits : n.whole ++ (n.point ++ n.power) = (Value.numberStyle.shortest m).toList) :
    n.text = Value.numberStyle.write x := by
  have hsigned : Value.numberStyle.signedZero = true := rfl
  rw [← String.toList_inj, text, String.toList_ofList, hnegative, hdigits, Style.write, hx,
    Style.binary, hsigned, magnitude_eq, String.toList_append]
  cases negative <;> simp [Style.sign]

/-- The text of a finite double is that of a numeral that tells the double. -/
theorem exists_faithful {negative : Bool} (hx : Binary.ofFloat x = .finite negative m) :
    ∃ n : Numeral, n.text = Value.numberStyle.write x ∧ n.Faithful x m := by
  have hattracts := m.attracts_shortest .upward
  have hbounds := positional_iff (Binary.canonical_of_ofFloat hx)
  have hdisplay := shortest_eq m
  by_cases hplain : (m.shortest .upward).digits = 0 ∨
      Value.numberStyle.positional (m.shortest .upward).leading = true
  · obtain ⟨n, rfl, hexponent, hdigits, hsize, hwhole⟩ :=
      exists_numeral_positional (m.shortest .upward) negative
    rw [← hsize] at hattracts
    rw [if_pos hplain] at hdisplay
    refine ⟨n, text_eq_write hx rfl ?_, fun y => isNearest_iff hx hattracts, ?_, ?_, ?_, ?_⟩
    · rw [hdisplay, ← hdigits, power, hexponent, List.append_nil]
    · rw [hexponent]
      exact iff_of_false Bool.false_ne_true (hbounds.mp hplain)
    · rw [hexponent]
      exact nofun
    · rintro - ⟨k, hk⟩
      exact hwhole (m.exponent_shortest_nonneg hk .upward)
    · intro _ hnegative
      rw [hnegative] at hx
      rw [items_text hexponent hnegative, ofLiteral_eq hexponent hx hattracts]
  · obtain ⟨n, rfl, hexponent, hdigits, hsize, hnormalized⟩ := exists_numeral_scientific
      (Nat.pos_of_ne_zero fun hzero => hplain (.inl hzero)) negative
    rw [← hsize] at hattracts
    rw [if_neg hplain] at hdisplay
    refine ⟨n, text_eq_write hx rfl ?_, fun y => isNearest_iff hx hattracts, ?_, ?_, ?_, ?_⟩
    · rw [hdisplay, hdigits]
    · rw [hexponent]
      exact iff_of_true rfl (not_not.mp (mt hbounds.mpr hplain))
    · exact fun _ => hnormalized
    · rw [hexponent]
      exact nofun
    · rw [hexponent]
      exact nofun

end Numeral

/-- Doubles with the same bits are the same, if they are finite. -/
theorem eq_of_toBits_eq {x y : Float} (hx : IsFinite x) (h : x.toBits = y.toBits) : x = y := by
  obtain ⟨negative, m, hx⟩ := hx
  refine Binary.eq_of_ofFloat hx ?_
  rw [← hx, Binary.ofFloat, Binary.ofFloat, h]

end Lox.Number

namespace Lox.Store
open Number

/-- What is printed for a finite double is the text of one numeral, which tells that double and no
other one. It has an exponent exactly for the doubles below a thousandth, zero apart, and from ten
millions on. So two finite doubles are printed alike exactly if they have the same bits. -/
theorem display_number_faithful (store : Store) {x : Float} {negative : Bool} {m : Magnitude}
    (hx : Binary.ofFloat x = .finite negative m) :
    (∃! n : Numeral, n.text = store.display (.number x)) ∧
      (∀ n : Numeral, n.text = store.display (.number x) → n.Faithful x m) ∧
      ('E' ∈ (store.display (.number x)).toList ↔
        m.value ≠ 0 ∧ (m.value < 1 / 1000 ∨ 10 ^ 7 ≤ m.value)) ∧
      ∀ y, IsFinite y →
        (store.display (.number x) = store.display (.number y) ↔ x.toBits = y.toBits) := by
  obtain ⟨n, htext, hfaithful⟩ := Numeral.exists_faithful hx
  have hunique (n' : Numeral) (h : n'.text = store.display (.number x)) : n' = n :=
    Numeral.text_injective (h.trans htext.symm)
  refine ⟨⟨n, htext, hunique⟩, fun n' h => hunique n' h ▸ hfaithful, ?_, ?_⟩
  · rw [← hfaithful.scientific, ← Numeral.mark_mem_text_iff, htext]
    rfl
  · intro y hy
    obtain ⟨negative', m', hm'⟩ := hy
    constructor
    · intro h
      obtain ⟨n', htext', hfaithful'⟩ := Numeral.exists_faithful hm'
      obtain rfl := Numeral.text_injective (htext'.trans (h.symm.trans htext.symm))
      have hxy : x = y := (hfaithful'.nearest x).mp ((hfaithful.nearest x).mpr rfl)
      rw [hxy]
    · intro h
      rw [eq_of_toBits_eq ⟨negative, m, hx⟩ h]

/-- The double next to a tenth. -/
def tenth : Float := .ofBits 0x3FB999999999999A

def tenthNumeral : Numeral := ⟨false, ['0'], ['1'], none, by simp, by simp, by simp⟩

theorem display_number_faithful_tenth :
    Binary.ofFloat tenth = .finite false (.scaled 7205759403792794 (-56)) ∧
      Store.display {} (.number tenth) = "0.1" ∧
      (∀ y, tenthNumeral.IsNearest y ↔ y = tenth) ∧
      Lexer.items "0.1" = [.ok ⟨.number tenth, "0.1", 1⟩, .ok (.endOfInput 1)] := by
  have hx : Binary.ofFloat tenth = .finite false (.scaled 7205759403792794 (-56)) := by
    decide +kernel
  have hdisplay : Store.display {} (.number tenth) = "0.1" := by decide +kernel
  have htext : tenthNumeral.text = "0.1" := by decide
  have hfaithful := (display_number_faithful {} hx).2.1 tenthNumeral (htext.trans hdisplay.symm)
  have hscanned := hfaithful.scanned rfl rfl
  rw [htext] at hscanned
  exact ⟨hx, hdisplay, hfaithful.nearest, hscanned⟩

end Lox.Store
