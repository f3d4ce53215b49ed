import Lox.Proofs.Token.Pieces
import Lox.Token.Cursor
import Mathlib.Data.List.TakeWhile

/-!
# Characters and bytes

An ASCII character is one byte, and no other character has an ASCII byte. So a row of bytes that
ends in front of an ASCII byte, or of the first byte that is not one, ends between two characters,
and its bytes are those of the row of characters that ends there. A position between two characters
is known by the characters that follow it.
-/
namespace Lox.Cursor
open Lexer
variable {source : String} {position : Nat} {a c : Char} {cs front rest : List Char}
  {p : Char → Bool}

/-- The bytes of a text, each taken for the character of that code. -/
def octets (cs : List Char) : List Char := (cs.flatMap String.utf8EncodeChar).map Char.ofUInt8

theorem octets_append (first second : List Char) :
    octets (first ++ second) = octets first ++ octets second := by
  simp [octets]

theorem octets_cons (c : Char) (cs : List Char) : octets (c :: cs) = octets [c] ++ octets cs :=
  octets_append [c] cs

theorem length_octets (cs : List Char) : (octets cs).length = (String.ofList cs).utf8ByteSize := by
  rw [octets, List.length_map, ← String.size_toByteArray, String.toByteArray_ofList,
    List.utf8Encode, List.size_toByteArray]

theorem length_octets_singleton (c : Char) : (octets [c]).length = c.utf8Size := by
  rw [octets, List.length_map, List.flatMap_singleton, String.length_utf8EncodeChar]

theorem toNat_ofUInt8 (b : UInt8) : (Char.ofUInt8 b).toNat = b.toNat := rfl

theorem octets_ascii (h : c.toNat < 128) : octets [c] = [c] := by
  have hencode : String.utf8EncodeChar c = [UInt8.ofNat c.toNat] := by
    unfold String.utf8EncodeChar
    exact if_pos (Nat.le_of_lt_succ h)
  have hself : Char.ofUInt8 (UInt8.ofNat c.toNat) = c := by
    apply Char.toNat_inj.mp
    rw [toNat_ofUInt8, UInt8.toNat_ofNat', Nat.mod_eq_of_lt (by omega)]
  simp [octets, hencode, hself]

theorem le_toNat_of_mem_utf8EncodeChar (h : 128 ≤ c.toNat) {b : UInt8}
    (hb : b ∈ String.utf8EncodeChar c) : 128 ≤ b.toNat := by
  have hwide : ¬ c.val.toNat ≤ 127 := Nat.not_le_of_lt h
  unfold String.utf8EncodeChar at hb
  dsimp only at hb
  rw [if_neg hwide] at hb
  split at hb
  · simp only [List.mem_cons, List.not_mem_nil, or_false] at hb
    rcases hb with rfl | rfl <;>
    · rw [UInt8.toNat_ofNat']
      omega
  split at hb <;>
  · simp only [List.mem_cons, List.not_mem_nil, or_false] at hb
    rcases hb with rfl | rfl | rfl | rfl <;>
    · rw [UInt8.toNat_ofNat']
      omega

/-- No byte of a character that is not ASCII is ASCII. -/
theorem le_toNat_of_mem_octets (h : 128 ≤ c.toNat) {d : Char} (hd : d ∈ octets [c]) :
    128 ≤ d.toNat := by
  obtain ⟨b, hb, rfl⟩ := List.mem_map.mp hd
  rw [List.flatMap_singleton] at hb
  exact le_toNat_of_mem_utf8EncodeChar h hb

/-- Each character has a first byte. -/
theorem exists_octets_eq_cons (c : Char) : ∃ first more, octets [c] = first :: more := by
  apply List.exists_cons_of_ne_nil
  simp [octets, String.utf8EncodeChar_ne_nil]

theorem ne_of_wide (h : 128 ≤ c.toNat) (ha : a.toNat < 128) : c ≠ a := by
  rintro rfl
  exact Nat.not_lt_of_le h ha

/-- Outside of strings and comments the character means nothing. -/
structure Meaningless (c : Char) : Prop where
  blank : isBlank c = false
  digit : c.isDigit = false
  wordStart : isWordStart c = false
  wordPart : isWordPart c = false
  withEqual : withEqual? c = none
  single : single? c = none

theorem meaningless_of_wide (h : 128 ≤ c.toNat) : Meaningless c := by
  have hlarge : 128 ≤ c.val.toNat := h
  have hnine : '9'.val.toNat = 57 := rfl
  have hupper : 'Z'.val.toNat = 90 := rfl
  have hlower : 'z'.val.toNat = 122 := rfl
  have hdigit : c.isDigit = false := by
    unfold Char.isDigit
    simp only [Bool.and_eq_false_iff, decide_eq_false_iff_not, ge_iff_le, UInt32.le_iff_toNat_le]
    omega
  have halpha : c.isAlpha = false := by
    unfold Char.isAlpha Char.isUpper Char.isLower
    simp only [Bool.or_eq_false_iff, Bool.and_eq_false_iff, decide_eq_false_iff_not, ge_iff_le,
      UInt32.le_iff_toNat_le]
    omega
  have hunderscore : c ≠ '_' := ne_of_wide h (by decide)
  constructor
  case blank =>
    have hascii : ([' ', '\r', '\t', '\n'].all fun d => d.toNat < 128) = true := by decide
    rw [Bool.eq_false_iff, ne_eq, Lexer.isBlank_iff]
    exact fun hmem => ne_of_wide h (of_decide_eq_true (List.all_eq_true.mp hascii c hmem)) rfl
  case digit => exact hdigit
  case wordStart => simp [isWordStart, halpha, hunderscore]
  case wordPart => simp [isWordPart, Char.isAlphanum, halpha, hdigit, hunderscore]
  case withEqual =>
    unfold withEqual?
    split <;> first | rfl | exact absurd rfl (ne_of_wide h (by decide))
  case single =>
    unfold single?
    split <;> first | rfl | exact absurd rfl (ne_of_wide h (by decide))

theorem ascii_of_isWordPart (h : isWordPart c = true) : c.toNat < 128 := by
  by_contra hnot
  rw [(meaningless_of_wide (Nat.le_of_not_lt hnot)).wordPart] at h
  cases h

theorem ascii_of_isWordStart (h : isWordStart c = true) : c.toNat < 128 :=
  ascii_of_isWordPart (isWordPart_of_isWordStart h)

theorem ascii_of_isDigit (h : c.isDigit = true) : c.toNat < 128 :=
  ascii_of_isWordPart (by simp [isWordPart, Char.isAlphanum, h])

/-- An ASCII byte stands for an ASCII character. -/
theorem head?_octets (ha : a.toNat < 128) : (octets cs).head? = some a ↔ cs.head? = some a := by
  cases cs with
  | nil => rfl
  | cons c cs =>
    rw [octets_cons, List.head?_cons]
    by_cases hascii : c.toNat < 128
    · rw [octets_ascii hascii]
      rfl
    · have hwide := Nat.le_of_not_lt hascii
      obtain ⟨first, more, hfirst⟩ := exists_octets_eq_cons c
      have hle := le_toNat_of_mem_octets hwide (hfirst ▸ List.mem_cons_self)
      rw [hfirst, List.cons_append, List.head?_cons, Option.some.injEq, Option.some.injEq]
      exact iff_of_false (ne_of_wide hle ha) (ne_of_wide hwide ha)

theorem count_octets (ha : a.toNat < 128) (cs : List Char) : (octets cs).count a = cs.count a := by
  induction cs with
  | nil => rfl
  | cons c cs ih =>
    have hone : (octets [c]).count a = [c].count a := by
      by_cases hascii : c.toNat < 128
      · rw [octets_ascii hascii]
      · have hwide := Nat.le_of_not_lt hascii
        have hother : a ≠ c := (ne_of_wide hwide ha).symm
        rw [List.count_eq_zero.mpr, List.count_eq_zero.mpr (by simpa using hother)]
        intro hmem
        exact absurd ha (Nat.not_lt.mpr (le_toNat_of_mem_octets hwide hmem))
    rw [octets_cons, List.count_append, ih, hone, ← List.count_append, List.singleton_append]

/-- No difference is made between characters that are not ASCII. -/
def Blunt (p : Char → Bool) : Prop := ∀ c d : Char, 128 ≤ c.toNat → 128 ≤ d.toNat → p c = p d

theorem blunt_isDigit : Blunt Char.isDigit := fun _ _ hc hd =>
  (meaningless_of_wide hc).digit.trans (meaningless_of_wide hd).digit.symm

theorem blunt_isWordPart : Blunt isWordPart := fun _ _ hc hd =>
  (meaningless_of_wide hc).wordPart.trans (meaningless_of_wide hd).wordPart.symm

theorem blunt_ne (ha : a.toNat < 128) : Blunt (· != a) := by
  have hwide : ∀ c : Char, 128 ≤ c.toNat → (c != a) = true :=
    fun c hc => bne_iff_ne.mpr (ne_of_wide hc ha)
  exact fun c d hc hd => (hwide c hc).trans (hwide d hd).symm

theorem Blunt.octets (hp : Blunt p) (c : Char) : ∀ d ∈ octets [c], p d = p c := by
  intro d hd
  by_cases hascii : c.toNat < 128
  · rw [octets_ascii hascii, List.mem_singleton] at hd
    rw [hd]
  · have hwide := Nat.le_of_not_lt hascii
    exact hp d c (le_toNat_of_mem_octets hwide hd) hwide

theorem takeWhile_octets (hp : Blunt p) (cs : List Char) :
    (octets cs).takeWhile p = octets (cs.takeWhile p) := by
  induction cs with
  | nil => rfl
  | cons c cs ih =>
    have hsame := hp.octets c
    by_cases hc : p c = true
    · rw [List.takeWhile_cons_of_pos hc, octets_cons, octets_cons c (cs.takeWhile p),
        List.takeWhile_append_of_pos fun d hd => (hsame d hd).trans hc, ih]
    · obtain ⟨first, more, hfirst⟩ := exists_octets_eq_cons c
      have hnot : ¬ p first = true := by
        rw [hsame first (hfirst ▸ List.mem_cons_self)]
        exact hc
      rw [List.takeWhile_cons_of_neg hc, octets_cons, hfirst, List.cons_append,
        List.takeWhile_cons_of_neg hnot]
      rfl

theorem any_octets (hp : Blunt p) (cs : List Char) : (octets cs).head?.any p = cs.head?.any p := by
  cases cs with
  | nil => rfl
  | cons c cs =>
    obtain ⟨first, more, hfirst⟩ := exists_octets_eq_cons c
    rw [octets_cons, hfirst]
    exact hp.octets c first (hfirst ▸ List.mem_cons_self)

theorem toList_toByteArray (source : String) :
    source.toByteArray.data.toList = source.toList.flatMap String.utf8EncodeChar := by
  rw [← String.utf8Encode_toList, List.utf8Encode, List.toList_data_toByteArray]

theorem byte?_eq (source : String) (position : Nat) :
    byte? source position = (octets source.toList)[position]? := by
  rw [byte?, octets, List.getElem?_map, ← toList_toByteArray, Array.getElem?_toList]

/-- The position is in front of these characters of the source. -/
def Faces (source : String) (position : Nat) (rest : List Char) : Prop :=
  ∃ front, source.toList = front ++ rest ∧ position = (octets front).length

theorem faces_start (source : String) : Faces source 0 source.toList := ⟨[], rfl, rfl⟩

namespace Faces

theorem bytes (h : Faces source position rest) :
    (octets source.toList).drop position = octets rest := by
  obtain ⟨front, hsource, rfl⟩ := h
  rw [hsource, octets_append, List.drop_left]

theorem byte?_add (h : Faces source position rest) (i : Nat) :
    byte? source (position + i) = (octets rest)[i]? := by
  rw [byte?_eq, ← h.bytes, List.getElem?_drop]

theorem byte? (h : Faces source position rest) :
    Cursor.byte? source position = (octets rest).head? := by
  rw [List.head?_eq_getElem?]
  exact h.byte?_add 0

theorem move (h : Faces source position (front ++ rest)) :
    Faces source (position + (octets front).length) rest := by
  obtain ⟨before, hsource, rfl⟩ := h
  exact ⟨before ++ front, by rw [hsource, List.append_assoc],
    by rw [octets_append, List.length_append]⟩

/-- In front of an ASCII character. -/
theorem ascii (h : Faces source position (c :: cs)) (hc : c.toNat < 128) :
    Cursor.byte? source position = some c ∧ Faces source (position + 1) cs := by
  rw [h.byte?, head?_octets hc]
  refine ⟨rfl, ?_⟩
  have hmove := Faces.move (List.singleton_append ▸ h)
  rwa [octets_ascii hc] at hmove

/-- In front of any other character. -/
theorem wide (h : Faces source position (c :: cs)) (hc : 128 ≤ c.toNat) :
    ∃ d : Char, Cursor.byte? source position = some d ∧ 128 ≤ d.toNat := by
  obtain ⟨first, more, hfirst⟩ := exists_octets_eq_cons c
  refine ⟨first, ?_, le_toNat_of_mem_octets hc (hfirst ▸ List.mem_cons_self)⟩
  rw [h.byte?, octets_cons, hfirst]
  rfl

theorem byte?_eq_some (h : Faces source position cs) (ha : a.toNat < 128) :
    Cursor.byte? source position = some a ↔ cs.head? = some a := by
  rw [h.byte?, head?_octets ha]

theorem size (h : Faces source position rest) :
    source.utf8ByteSize = position + (octets rest).length := by
  obtain ⟨before, hsource, rfl⟩ := h
  rw [← List.length_append, ← octets_append, ← hsource, length_octets, String.ofList_toList]

theorem isValid (h : Faces source position rest) : String.Pos.Raw.IsValid source ⟨position⟩ := by
  obtain ⟨before, hsource, rfl⟩ := h
  refine String.Pos.Raw.isValid_iff_exists_append.mpr
    ⟨String.ofList before, String.ofList rest, ?_, ?_⟩
  · rw [← String.ofList_append, ← hsource, String.ofList_toList]
  · rw [length_octets]
    rfl

/-- The bytes between two such positions are those of the characters between them. -/
theorem extract (h : Faces source position (front ++ rest)) :
    source.toByteArray.extract position (position + (octets front).length) =
      (String.ofList front).toByteArray := by
  obtain ⟨before, hsource, rfl⟩ := h
  have hbytes : source.toByteArray = (String.ofList before).toByteArray ++
      ((String.ofList front).toByteArray ++ (String.ofList rest).toByteArray) := by
    rw [← String.toByteArray_append, ← String.toByteArray_append, ← String.ofList_append,
      ← String.ofList_append, ← hsource, String.ofList_toList]
  rw [hbytes, length_octets, length_octets, ← String.size_toByteArray, ← String.size_toByteArray]
  have hshift := ByteArray.extract_append_size_add (a := (String.ofList before).toByteArray)
    (b := (String.ofList front).toByteArray ++ (String.ofList rest).toByteArray) (i := 0)
    (j := (String.ofList front).toByteArray.size)
  exact hshift.trans (ByteArray.extract_append_eq_left rfl)

/-- What is between two such positions can be cut out. -/
theorem slice? (h : Faces source position (front ++ rest)) :
    Cursor.slice? source position (position + (octets front).length) =
      some (String.ofList front) := by
  unfold Cursor.slice?
  rw [dif_pos ⟨Nat.le_add_right .., h.isValid, h.move.isValid⟩, Option.some.injEq,
    ← String.toByteArray_inj, String.toByteArray_extract]
  exact h.extract

/-- All that is left can be cut out. -/
theorem slice?_rest (h : Faces source position rest) :
    Cursor.slice? source position (position + (octets rest).length) =
      some (String.ofList rest) := by
  rw [← List.append_nil rest] at h
  exact h.slice?

end Faces
end Lox.Cursor
