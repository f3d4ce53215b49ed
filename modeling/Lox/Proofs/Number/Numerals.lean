import Lox.Proofs.Number.Nearest
import Lox.Proofs.Number.Texts

/-!
# Numerals

A numeral is a decimal that may have a sign, a fraction and an exponent. Its text is read in one way
only, and it stands for the double that is nearest to its value, with its sign.
-/
namespace Lox.Number

/-- A decimal with its digits before and after the point. -/
@[ext]
structure Numeral where
  negative : Bool
  whole : List Char
  fraction : List Char
  exponent : Option ℤ
  whole_ne_nil : whole ≠ []
  isDigit_whole : ∀ c ∈ whole, c.isDigit = true
  isDigit_fraction : ∀ c ∈ fraction, c.isDigit = true

namespace Numeral
variable {n n' : Numeral}

/-- The point and the digits after it, if there are some. -/
def point (n : Numeral) : List Char := if n.fraction = [] then [] else '.' :: n.fraction

/-- The mark and the exponent, if there is one. -/
def power (n : Numeral) : List Char :=
  match n.exponent with
  | none => []
  | some e => 'E' :: (toString e).toList

def text (n : Numeral) : String :=
  String.ofList ((if n.negative then ['-'] else []) ++ (n.whole ++ (n.point ++ n.power)))

/-- The size of the number: the mantissa times ten to the exponent. -/
def size (n : Numeral) : ℚ :=
  ofDigits (n.whole ++ n.fraction) / 10 ^ n.fraction.length * 10 ^ n.exponent.getD 0

/-- The double has the sign of the numeral, and no other double is nearer to it; of two that are
equally near it is the one with the even mantissa. -/
def IsNearest (n : Numeral) (x : Float) : Prop :=
  ∃ m : Magnitude, Binary.ofFloat x = .finite n.negative m ∧ m.Nearest n.size

theorem size_nonneg (n : Numeral) : 0 ≤ n.size := by
  unfold size
  positivity

/-- The double that is nearest to a numeral is the one to which its size rounds. -/
theorem isNearest_iff {x y : Float} {m : Magnitude} (hx : Binary.ofFloat x = .finite n.negative m)
    (h : m.Attracts n.size) : n.IsNearest y ↔ y = x := by
  have hm := Binary.canonical_of_ofFloat hx
  constructor
  · rintro ⟨m', hy, hnearest⟩
    have hm' := Binary.canonical_of_ofFloat hy
    have hattracts := (Magnitude.nearest_iff_attracts hm' n.size_nonneg).mp hnearest
    obtain rfl := Magnitude.eq_of_attracts hm hm' h hattracts
    exact Binary.eq_of_ofFloat hy hx
  · rintro rfl
    exact ⟨m, hx, (Magnitude.nearest_iff_attracts hm n.size_nonneg).mpr h⟩

theorem toDigits_injective {a b : Nat} (h : Nat.toDigits 10 a = Nat.toDigits 10 b) : a = b := by
  rw [← ofDigits_toDigits a, h, ofDigits_toDigits]

theorem toList_toString (e : ℤ) :
    (toString e).toList = (if 0 ≤ e then [] else ['-']) ++ Nat.toDigits 10 e.natAbs := by
  rw [Int.toString_eq_repr, Int.repr_eq_if]
  split
  · rw [Nat.toList_repr, show e.toNat = e.natAbs by lia, List.nil_append]
  · rw [String.toList_append, Nat.toList_repr, show (-e).toNat = e.natAbs by lia]
    rfl

/-- A minus is no digit, so texts with a sign in front of digits tell the sign. -/
theorem signed_append_inj {negative negative' : Prop} [Decidable negative] [Decidable negative']
    {xs ys : List Char} (hx : ∀ c ∈ xs.head?, c ≠ '-') (hy : ∀ c ∈ ys.head?, c ≠ '-')
    (h : (if negative then ['-'] else []) ++ xs = (if negative' then ['-'] else []) ++ ys) :
    (negative ↔ negative') ∧ xs = ys := by
  split at h <;> split at h
  · next hn hn' => exact ⟨iff_of_true hn hn', List.append_cancel_left h⟩
  · exact absurd rfl (hy '-' (by rw [← List.nil_append ys, ← h]; rfl))
  · exact absurd rfl (hx '-' (by rw [← List.nil_append xs, h]; rfl))
  · next hn hn' => exact ⟨iff_of_false hn hn', h⟩

theorem head?_ne_minus {digits : List Char} (hdigits : ∀ c ∈ digits, c.isDigit = true)
    (hne : digits ≠ []) (rest : List Char) : ∀ c ∈ (digits ++ rest).head?, c ≠ '-' := by
  obtain ⟨d, digits, rfl⟩ := List.exists_cons_of_ne_nil hne
  rintro c hc rfl
  cases hc
  exact absurd (hdigits '-' List.mem_cons_self) (by decide)

theorem toString_injective {e e' : ℤ} (h : toString e = toString e') : e = e' := by
  have htext := congrArg String.toList h
  rw [toList_toString, toList_toString, ← ite_not, ← ite_not (0 ≤ e')] at htext
  have hminus (k : Nat) : ∀ c ∈ (Nat.toDigits 10 k).head?, c ≠ '-' := by
    simpa using head?_ne_minus (fun c => isDigit_toDigits (n := k)) Nat.toDigits_ne_nil []
  obtain ⟨hsign, hdigits⟩ := signed_append_inj (hminus _) (hminus _) htext
  have habs := toDigits_injective hdigits
  lia

theorem head?_power {c : Char} (hc : c ∈ n.power.head?) : c = 'E' := by
  unfold power at hc
  split at hc
  · cases hc
  · exact (Option.some.inj hc).symm

theorem power_injective (h : n.power = n'.power) : n.exponent = n'.exponent := by
  unfold power at h
  split at h <;> split at h
  · next hnone _ hnone' => rw [hnone, hnone']
  · cases h
  · cases h
  · next e hsome _ e' hsome' =>
    rw [hsome, hsome', toString_injective (String.toList_inj.mp (List.cons.inj h).2)]

theorem isDigit_head?_power (n : Numeral) : ∀ c ∈ n.power.head?, c.isDigit = false := by
  intro c hc
  rw [head?_power hc]
  rfl

theorem isDigit_head?_point (n : Numeral) :
    ∀ c ∈ (n.point ++ n.power).head?, c.isDigit = false := by
  unfold point
  split
  · exact n.isDigit_head?_power
  · rintro c ⟨⟩
    rfl

theorem point_power_inj (h : n.point ++ n.power = n'.point ++ n'.power) :
    n.fraction = n'.fraction ∧ n.power = n'.power := by
  unfold point at h
  split at h <;> split at h
  · next hnil hnil' => exact ⟨hnil.trans hnil'.symm, h⟩
  · have hpoint := head?_power (n := n) (c := '.') (by rw [← List.nil_append n.power, h]; rfl)
    exact absurd hpoint (by decide)
  · have hpoint := head?_power (n := n') (c := '.') (by rw [← List.nil_append n'.power, ← h]; rfl)
    exact absurd hpoint (by decide)
  · exact digits_append_inj n.isDigit_fraction n'.isDigit_fraction n.isDigit_head?_power
      n'.isDigit_head?_power (List.cons.inj h).2

/-- A text is the text of one numeral only. -/
theorem text_injective (h : n.text = n'.text) : n = n' := by
  obtain ⟨hsign, htext⟩ := signed_append_inj (head?_ne_minus n.isDigit_whole n.whole_ne_nil _)
    (head?_ne_minus n'.isDigit_whole n'.whole_ne_nil _) (String.ofList_injective h)
  obtain ⟨hwhole, htext⟩ := digits_append_inj n.isDigit_whole n'.isDigit_whole
    n.isDigit_head?_point n'.isDigit_head?_point htext
  obtain ⟨hfraction, hpower⟩ := point_power_inj htext
  exact Numeral.ext (Bool.eq_iff_iff.mpr hsign) hwhole hfraction (power_injective hpower)

/-- The mantissa consists of digits and points. -/
theorem not_mem_mantissa (n : Numeral) {c : Char} (hdigit : c.isDigit = false) (hpoint : c ≠ '.') :
    c ∉ n.whole ++ n.point := by
  have hdigits {digits : List Char} (h : ∀ c ∈ digits, c.isDigit = true) : c ∉ digits := by
    intro hmem
    rw [h c hmem] at hdigit
    cases hdigit
  rw [List.mem_append, not_or]
  refine ⟨hdigits n.isDigit_whole, ?_⟩
  unfold point
  split
  · simp
  · exact List.not_mem_cons_of_ne_of_not_mem hpoint (hdigits n.isDigit_fraction)

/-- A text has a mark if and only if the numeral has an exponent. -/
theorem mark_mem_text_iff : 'E' ∈ n.text.toList ↔ n.exponent.isSome = true := by
  have hsign : 'E' ∉ if n.negative then ['-'] else [] := by split <;> simp
  have hpower : 'E' ∈ n.power ↔ n.exponent.isSome = true := by
    unfold power
    split
    · next hnone => simp [hnone]
    · next hsome => simp [hsome]
  rw [text, String.toList_ofList, ← List.append_assoc n.whole, List.mem_append, List.mem_append,
    or_iff_right hsign, or_iff_right (n.not_mem_mantissa rfl (by decide)), hpower]

end Numeral
end Lox.Number
