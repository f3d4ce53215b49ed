import Lox.Token.Lexer

/-!
# Scanning by bytes

The items of a source, found by a cursor that moves over the bytes of the source and counts the
lines on its way. It looks at one byte or at two, and what it passes over it cuts out of the source
by their positions. A text cannot be cut inside a character; where that is tried there is no result.
-/
namespace Lox

/-- A place in front of a byte, or at the end, and the line that it is on. -/
structure Cursor where
  position : Nat
  line : Nat
  deriving DecidableEq, Repr

namespace Cursor
open Lexer

/-- A stretch of the source that the cursor passes over at once. -/
structure Stretch where
  start : Nat
  stop : Nat
  content : Content
  /-- What is reported of it: nothing for white space and comments. -/
  item? : Option Item

variable (source : String)

/-- The byte at a position, taken for the character of that code. It is one if the byte is ASCII;
no other byte means anything outside of strings and comments. -/
def byte? (position : Nat) : Option Char :=
  source.toByteArray.data[position]?.map Char.ofUInt8

/-- The text between two positions. -/
def slice? (start stop : Nat) : Option String :=
  if h : start ≤ stop ∧ String.Pos.Raw.IsValid source ⟨start⟩ ∧
      String.Pos.Raw.IsValid source ⟨stop⟩ then
    some (String.extract (s := source) ⟨⟨start⟩, h.2.1⟩ ⟨⟨stop⟩, h.2.2⟩)
  else
    none

theorem lt_of_byte? {position : Nat} {c : Char} (h : byte? source position = some c) :
    position < source.utf8ByteSize := by
  obtain ⟨b, hb, -⟩ := Option.map_eq_some_iff.mp h
  exact (Array.getElem?_eq_some_iff.mp hb).1

/-- The first position from `position` on that has another byte than those of `p`. -/
def skipWhile (p : Char → Bool) (position : Nat) : Nat :=
  match _ : byte? source position with
  | some c => if p c then skipWhile p (position + 1) else position
  | none => position
termination_by source.utf8ByteSize - position
decreasing_by
  have := lt_of_byte? source ‹_›
  omega

/-- Behind the byte `c` of a text that may go over several lines. -/
def advance (cursor : Cursor) (c : Char) : Cursor :=
  ⟨cursor.position + 1, if c = '\n' then cursor.line + 1 else cursor.line⟩

@[simp] theorem position_advance (cursor : Cursor) (c : Char) :
    (cursor.advance c).position = cursor.position + 1 := rfl

/-- The next quote, or the end. -/
def toQuote (cursor : Cursor) : Cursor :=
  match _ : byte? source cursor.position with
  | some c => if c = '"' then cursor else toQuote (cursor.advance c)
  | none => cursor
termination_by source.utf8ByteSize - cursor.position
decreasing_by
  have := lt_of_byte? source ‹_›
  rw [position_advance]
  omega

/-- What is left of a block comment inside `depth` openers, and the place behind it. -/
def comment (depth : Nat) (cursor : Cursor) : Content × Cursor :=
  match depth with
  | 0 => (.blank, cursor)
  | depth + 1 =>
    match _ : byte? source cursor.position with
    | none => (.error .unterminatedComment, cursor)
    | some c =>
      let second := byte? source (cursor.position + 1)
      if c = '\n' then comment (depth + 1) ⟨cursor.position + 1, cursor.line + 1⟩
      else if c = '/' ∧ second = some '*' then
        comment (depth + 2) ⟨cursor.position + 2, cursor.line⟩
      else if c = '*' ∧ second = some '/' then comment depth ⟨cursor.position + 2, cursor.line⟩
      else comment (depth + 1) ⟨cursor.position + 1, cursor.line⟩
termination_by source.utf8ByteSize - cursor.position
decreasing_by
  all_goals
    have := lt_of_byte? source ‹_›
    omega

/-- A string literal that opens at the cursor. -/
def string? (cursor : Cursor) : Option (Content × Cursor) :=
  let quote := toQuote source ⟨cursor.position + 1, cursor.line⟩
  match byte? source quote.position with
  | none => some (.error .unterminatedString, quote)
  | some _ =>
    (slice? source (cursor.position + 1) quote.position).map fun text =>
      (.token (.string text), ⟨quote.position + 1, quote.line⟩)

/-- Where the number literal at the cursor ends: a point belongs to it if a digit follows. -/
def numberEnd (position : Nat) : Nat :=
  let point := skipWhile source Char.isDigit position
  if byte? source point = some '.' ∧ (byte? source (point + 1)).any Char.isDigit then
    skipWhile source Char.isDigit (point + 1)
  else
    point

/-- A number literal. A text that is no decimal would count as zero. -/
def number? (cursor : Cursor) : Option (Content × Cursor) :=
  let stop := numberEnd source (cursor.position + 1)
  (slice? source cursor.position stop).map fun text =>
    (.token (.number ((Number.ofDecimal? text.toList).getD 0)), ⟨stop, cursor.line⟩)

/-- An identifier or a reserved word, which is recognized by its bytes. -/
def word (cursor : Cursor) : Content × Cursor :=
  let stop := skipWhile source isWordPart (cursor.position + 1)
  let bytes := (source.toByteArray.extract cursor.position stop).data
  match Symbol.reservedWords.find? fun symbol => symbol.lexeme.toByteArray.data == bytes with
  | some symbol => (.token (.symbol symbol), ⟨stop, cursor.line⟩)
  | none => (.token .identifier, ⟨stop, cursor.line⟩)

/-- A character that starts nothing is passed over whole. -/
def unexpected? (cursor : Cursor) : Option (Content × Cursor) :=
  (slice? source cursor.position source.utf8ByteSize).map fun rest =>
    let size := rest.toList.head?.elim 1 Char.utf8Size
    (.error .unexpectedCharacter, ⟨cursor.position + size, cursor.line⟩)

/-- An operator or a punctuation mark that starts with the byte `c` at the cursor, or what is there
if none does. -/
def mark? (c : Char) (cursor : Cursor) : Option (Content × Cursor) :=
  match withEqual? c, byte? source (cursor.position + 1) with
  | some symbol, some '=' => some (.token (.symbol symbol), ⟨cursor.position + 2, cursor.line⟩)
  | _, _ =>
    match single? c with
    | some symbol => some (.token (.symbol symbol), ⟨cursor.position + 1, cursor.line⟩)
    | none => unexpected? source cursor

/-- What is at the cursor, and the place behind it; there must be a byte. -/
def scan? (cursor : Cursor) : Option (Content × Cursor) :=
  match byte? source cursor.position with
  | none => none
  | some c =>
    let second := byte? source (cursor.position + 1)
    if c = '\n' then some (.blank, ⟨cursor.position + 1, cursor.line + 1⟩)
    else if isBlank c then some (.blank, ⟨cursor.position + 1, cursor.line⟩)
    else if c = '"' then string? source cursor
    else if c.isDigit then number? source cursor
    else if isWordStart c then some (word source cursor)
    else if c = '/' ∧ second = some '/' then
      some (.blank, ⟨skipWhile source (· != '\n') (cursor.position + 2), cursor.line⟩)
    else if c = '/' ∧ second = some '*' then
      some (comment source 1 ⟨cursor.position + 2, cursor.line⟩)
    else mark? source c cursor

theorem le_skipWhile (p : Char → Bool) (position : Nat) :
    position ≤ skipWhile source p position := by
  fun_induction skipWhile source p position with
  | case1 position c h hp ih => omega
  | case2 => exact Nat.le_refl _
  | case3 => exact Nat.le_refl _

theorem le_toQuote (cursor : Cursor) : cursor.position ≤ (toQuote source cursor).position := by
  fun_induction toQuote source cursor with
  | case1 => exact Nat.le_refl _
  | case2 cursor c h hc ih => exact Nat.le_of_succ_le ih
  | case3 => exact Nat.le_refl _

theorem le_comment (depth : Nat) (cursor : Cursor) :
    cursor.position ≤ (comment source depth cursor).2.position := by
  fun_induction comment source depth cursor with
  | case1 => exact Nat.le_refl _
  | case2 => exact Nat.le_refl _
  | case3 cursor depth h ih => exact Nat.le_of_succ_le ih
  | case4 cursor depth c h second hbreak hopens ih => exact Nat.le_trans (Nat.le_add_right _ 2) ih
  | case5 cursor depth c h second hbreak hopens hcloses ih =>
    exact Nat.le_trans (Nat.le_add_right _ 2) ih
  | case6 cursor depth c h second hbreak hopens hcloses ih => exact Nat.le_of_succ_le ih

theorem le_numberEnd (position : Nat) : position ≤ numberEnd source position := by
  have hpoint := le_skipWhile source Char.isDigit position
  unfold numberEnd
  dsimp only
  split
  · exact Nat.le_trans (Nat.le_succ_of_le hpoint) (le_skipWhile ..)
  · exact hpoint

section
variable {source} {cursor next : Cursor} {content : Content}

theorem lt_string? (h : string? source cursor = some (content, next)) :
    cursor.position < next.position := by
  have hquote := le_toQuote source ⟨cursor.position + 1, cursor.line⟩
  unfold string? at h
  dsimp only at h
  split at h
  · cases h
    exact hquote
  · obtain ⟨text, -, htext⟩ := Option.map_eq_some_iff.mp h
    cases htext
    exact Nat.lt_succ_of_lt hquote

theorem lt_number? (h : number? source cursor = some (content, next)) :
    cursor.position < next.position := by
  obtain ⟨text, -, htext⟩ := Option.map_eq_some_iff.mp h
  cases htext
  exact le_numberEnd source (cursor.position + 1)

theorem lt_word (h : word source cursor = (content, next)) : cursor.position < next.position := by
  have hstop := le_skipWhile source isWordPart (cursor.position + 1)
  unfold word at h
  dsimp only at h
  split at h <;>
  · cases h
    exact hstop

theorem lt_unexpected? (h : unexpected? source cursor = some (content, next)) :
    cursor.position < next.position := by
  obtain ⟨rest, -, hrest⟩ := Option.map_eq_some_iff.mp h
  cases hrest
  cases rest.toList.head? with
  | none => exact Nat.lt_succ_self _
  | some c => exact Nat.lt_add_of_pos_right c.utf8Size_pos

theorem lt_mark? {c : Char} (h : mark? source c cursor = some (content, next)) :
    cursor.position < next.position := by
  unfold mark? at h
  split at h
  · cases h
    exact Nat.lt_add_of_pos_right Nat.two_pos
  split at h
  · cases h
    exact Nat.lt_succ_self _
  · exact lt_unexpected? h

/-- The cursor always moves on. -/
theorem lt_scan? (h : scan? source cursor = some (content, next)) :
    cursor.position < next.position := by
  unfold scan? at h
  split at h
  · cases h
  dsimp only at h
  split at h
  · cases h
    exact Nat.lt_succ_self _
  split at h
  · cases h
    exact Nat.lt_succ_self _
  split at h
  · exact lt_string? h
  split at h
  · exact lt_number? h
  split at h
  · exact lt_word (Option.some.inj h)
  split at h
  · cases h
    exact Nat.le_of_succ_le (le_skipWhile ..)
  split at h
  · have hcomment := le_comment source 1 ⟨cursor.position + 2, cursor.line⟩
    rw [Option.some.inj h] at hcomment
    exact Nat.le_of_succ_le hcomment
  · exact lt_mark? h

end

/-- The stretch at the cursor and the place behind it. -/
def stretch? (cursor : Cursor) : Option (Stretch × Cursor) :=
  match scan? source cursor with
  | none => none
  | some (content, next) =>
    let stretch (item? : Option Item) : Stretch × Cursor :=
      (⟨cursor.position, next.position, content, item?⟩, next)
    match content with
    | .blank => some (stretch none)
    | .token kind =>
      (slice? source cursor.position next.position).map fun lexeme =>
        stretch (some (.ok ⟨kind, lexeme, next.line⟩))
    | .error cause => some (stretch (some (.error ⟨cause, next.line⟩)))

theorem lt_stretch? {cursor next : Cursor} {stretch : Stretch}
    (h : stretch? source cursor = some (stretch, next)) : cursor.position < next.position := by
  unfold stretch? at h
  split at h
  · cases h
  · next content after hscan =>
    have hlt := lt_scan? hscan
    dsimp only at h
    split at h
    · cases h
      exact hlt
    · obtain ⟨lexeme, -, hlexeme⟩ := Option.map_eq_some_iff.mp h
      cases hlexeme
      exact hlt
    · cases h
      exact hlt

/-- The stretches from the cursor on; the end of the input is an empty one. -/
def stretchesFrom? (cursor : Cursor) : Option (List Stretch) :=
  if cursor.position < source.utf8ByteSize then
    match _ : stretch? source cursor with
    | none => none
    | some (stretch, next) => (stretchesFrom? next).map (stretch :: ·)
  else
    some [⟨cursor.position, cursor.position, .token .endOfInput,
      some (.ok (.endOfInput cursor.line))⟩]
termination_by source.utf8ByteSize - cursor.position
decreasing_by
  have := lt_stretch? source ‹_›
  omega

def start : Cursor := ⟨0, 1⟩

/-- The stretches of a source, in order. -/
def stretches? : Option (List Stretch) := stretchesFrom? source start

end Cursor
end Lox
