import Lox.Proofs.Token.Tiling
import Mathlib.Data.List.Count

/-!
# Line numbers

The cursor counts line breaks in strings, in block comments and between tokens, and leaves the one
behind a line comment. Together it counts each of them once: an item is on the line of the position
where it ends.
-/
namespace Lox

namespace Lexer

def Item.line : Item → Nat
  | .ok token => token.line
  | .error error => error.line

/-- The end of the input, or an error because something has been opened and not closed. -/
def Item.IsLast : Item → Prop
  | .ok token => token.kind = .endOfInput
  | .error error => error.cause ≠ .unexpectedCharacter

theorem line_of_item? {piece : Piece} {line : Nat} {item : Item}
    (h : piece.item? line = some item) : item.line = line := by
  unfold Piece.item? at h
  split at h <;> cases h <;> rfl

theorem le_line {line : Nat} {pieces : List Piece} {item : Item}
    (h : item ∈ itemsFrom line pieces) : line ≤ item.line := by
  induction pieces generalizing line with
  | nil =>
    obtain rfl := List.mem_singleton.mp h
    exact Nat.le_refl _
  | cons piece pieces ih =>
    obtain hfirst | hlater := List.mem_append.mp h
    · rw [line_of_item? (Option.mem_toList.mp hfirst)]
      exact Nat.le_add_right ..
    · exact Nat.le_of_add_right_le (ih hlater)

theorem pairwise_line (line : Nat) (pieces : List Piece) :
    (itemsFrom line pieces).Pairwise (·.line ≤ ·.line) := by
  induction pieces generalizing line with
  | nil => exact List.pairwise_singleton ..
  | cons piece pieces ih =>
    refine List.pairwise_append.mpr ⟨?_, ih _, fun item hitem other hother => ?_⟩
    · cases piece.item? (line + piece.span.count '\n') with
      | none => exact .nil
      | some item => exact List.pairwise_singleton ..
    · rw [line_of_item? (Option.mem_toList.mp hitem)]
      exact le_line hother

end Lexer

namespace Cursor
open Lexer
variable {source : String} {front rest : List Char}

/-- The line of a position: its number is one more than that of the line breaks in front of it. -/
def lineNumber (source : String) (position : Nat) : Nat :=
  1 + (source.toByteArray.data.toList.take position).count '\n'.toUInt8

theorem injective_ofUInt8 : Function.Injective Char.ofUInt8 := by
  intro first second h
  exact UInt8.toNat_inj.mp (congrArg Char.toNat h)

/-- The cursor counts the line breaks that it passes over. -/
theorem line_past (h : source.toList = front ++ rest) :
    (start.past front).line = lineNumber source (start.past front).position := by
  have hbytes : (source.toByteArray.data.toList.take (octets front).length).map Char.ofUInt8 =
      octets front := by
    rw [List.map_take, toList_toByteArray, h]
    exact (congrArg _ (octets_append front rest)).trans List.take_left
  have hbreak : Char.ofUInt8 '\n'.toUInt8 = '\n' := by decide
  dsimp only [past, start]
  rw [Nat.zero_add, lineNumber, ← List.count_map_of_injective _ _ injective_ofUInt8, hbytes, hbreak,
    count_octets (by decide)]

variable {stretch : Stretch} {item : Item}

theorem line_eq (h : stretch ∈ placed start (pieces source.toList))
    (hitem : stretch.item? = some item) : item.line = lineNumber source stretch.stop := by
  obtain ⟨front, piece, rest, hsource, -, rfl⟩ | rfl := cases_of_mem h
  · rw [line_of_item? hitem, ← past_append]
    dsimp only [Stretch.ofPiece]
    rw [← past_append]
    exact line_past (hsource.trans (List.append_assoc ..).symm)
  · cases hitem
    exact line_past (List.append_nil _).symm

/-- What is not closed goes up to the end. -/
theorem rest_eq_nil {piece : Piece} {line : Nat} (h : Munch (piece.span ++ rest) piece)
    (hitem : piece.item? line = some item) (hlast : item.IsLast) : rest = [] := by
  obtain ⟨span, content⟩ := piece
  generalize hleft : span ++ rest = left at h
  cases h with
  | lexeme _ hlexeme _ _ =>
    unfold Piece.item? at hitem
    split at hitem
    · cases hitem
    · next kind hkind =>
      cases hitem
      obtain rfl : kind = .endOfInput := hlast
      rw [hkind] at hlexeme
      cases hlexeme
    · next cause hcause => exact absurd hcause (hlexeme.not_error cause)
  | unclosed _ => exact List.append_right_eq_self.mp hleft
  | unexpected _ _ =>
    cases hitem
    exact absurd rfl hlast

/-- Nothing is left behind the end, and nothing behind what is not closed. -/
theorem stop_eq (h : stretch ∈ placed start (pieces source.toList))
    (hitem : stretch.item? = some item) (hlast : item.IsLast) :
    stretch.stop = source.utf8ByteSize := by
  obtain ⟨front, piece, rest, hsource, hmunch, rfl⟩ | rfl := cases_of_mem h
  · obtain rfl := rest_eq_nil hmunch hitem hlast
    rw [List.append_nil] at hsource
    dsimp only [Stretch.ofPiece]
    rw [← past_append, ← hsource]
    exact position_past_toList source
  · exact position_past_toList source

/-- The closing quote of a string literal is the last byte of it and no line break. -/
theorem quote_eq {text : String} (h : stretch ∈ placed start (pieces source.toList))
    (hcontent : stretch.content = .token (.string text)) :
    byte? source (stretch.stop - 1) = some '"' ∧
      lineNumber source (stretch.stop - 1) = lineNumber source stretch.stop := by
  obtain ⟨front, piece, rest, hsource, hmunch, rfl⟩ | rfl := cases_of_mem h
  · have hspan := span_of_string hmunch hcontent
    let inner := front ++ '"' :: text.toList
    have hinner : source.toList = inner ++ '"' :: rest := by
      rw [hsource, hspan]
      simp [inner]
    have hstop : (start.past front).past piece.span =
        ⟨(start.past inner).position + 1, (start.past inner).line⟩ := by
      rw [hspan, ← past_append, ← List.cons_append, ← List.append_assoc, past_append,
        past_ascii _ (by decide)]
      rfl
    have hline := line_past (hinner.trans (List.append_assoc inner ['"'] rest).symm)
    rw [past_append, past_ascii _ (by decide)] at hline
    dsimp only [Stretch.ofPiece]
    rw [hstop, Nat.add_sub_cancel]
    exact ⟨((faces_past hinner).ascii (by decide)).1, (line_past hinner).symm.trans hline⟩
  · cases hcontent

/-- What can be said of the line of an item, given its stretch. -/
structure Stretch.Counted (source : String) (stretch : Stretch) (item : Item) : Prop where
  line : item.line = lineNumber source stretch.stop
  lexeme : ∀ token, item = .ok token →
    slice? source stretch.start stretch.stop = some token.lexeme
  /-- A string is on the line of its closing quote. -/
  quote : ∀ token text, item = .ok token → token.kind = .string text →
    byte? source (stretch.stop - 1) = some '"' ∧ item.line = lineNumber source (stretch.stop - 1)
  last : item.IsLast → stretch.stop = source.utf8ByteSize

/-- The stretches of a source cover it without a gap, and each item is on the line of the position
where its stretch ends. So the lines of the items never decrease. -/
theorem lines_counted (source : String) :
    ∃ stretches, stretches? source = some stretches ∧
      stretches.filterMap Stretch.item? = items source ∧
      Tile 0 source.utf8ByteSize stretches ∧
      (∀ stretch ∈ stretches, ∀ item, stretch.item? = some item →
        stretch.Counted source item) ∧
      (items source).Pairwise (·.line ≤ ·.line) := by
  refine ⟨_, stretches?_eq source, items_placed .., ?_, fun stretch h item hitem => ?_,
    pairwise_line ..⟩
  · exact tile_stretches source
  · have hline := line_eq h hitem
    refine ⟨hline, fun token htoken => slice?_lexeme h (htoken ▸ hitem), ?_, stop_eq h hitem⟩
    rintro token text rfl hkind
    have hcontent := content_of_token h hitem
    rw [hkind] at hcontent
    obtain ⟨hquote, hsame⟩ := quote_eq h hcontent
    exact ⟨hquote, hline.trans hsame.symm⟩

/-- Two strings on two lines each, the second one not closed, with comments in front of them. -/
def stringsSource : String := "// \n/* /*\n*/\n*/ \"a\nb\" \"\n"

/-- The first string is on the line on which it is closed. -/
theorem lines_counted_strings :
    (items stringsSource).map Item.line = [5, 6, 6] ∧
      ∃ stretches stretch item, stretches? stringsSource = some stretches ∧ stretch ∈ stretches ∧
        stretch.item? = some item ∧ item.line = 5 ∧ stretch.Counted stringsSource item := by
  have hlines : (items stringsSource).map Item.line = [5, 6, 6] := by decide +kernel
  obtain ⟨stretches, hstretches, hitems, -, hcounted, -⟩ := lines_counted stringsSource
  obtain ⟨item, hmem, hline⟩ : ∃ item ∈ items stringsSource, item.line = 5 := by
    rw [← List.mem_map, hlines]
    exact List.mem_cons_self
  rw [← hitems] at hmem
  obtain ⟨stretch, hstretch, hitem⟩ := List.mem_filterMap.mp hmem
  exact ⟨hlines, stretches, stretch, item, hstretches, hstretch, hitem, hline,
    hcounted stretch hstretch item hitem⟩

end Cursor
end Lox
