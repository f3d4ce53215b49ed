import Lox.Proofs.Token.Stretches

/-!
# The stretches of a source

The cursor has a result for every source: the pieces of the source, each with its position and its
item, and the end of the input. These stretches cover the source without a gap. A fact about all of
them is one about a piece that the lexical grammar cuts off, in front of what follows it.
-/
namespace Lox.Cursor
open Lexer
variable {source : String} {cs front rest : List Char} {cursor : Cursor}

/-- The stretch of the end of the input. -/
def Stretch.atEnd (cursor : Cursor) : Stretch :=
  ⟨cursor.position, cursor.position, .token .endOfInput, some (.ok (.endOfInput cursor.line))⟩

/-- The stretches of pieces from the cursor on, and the end of the input. -/
def placed (cursor : Cursor) : List Piece → List Stretch
  | [] => [.atEnd cursor]
  | piece :: rest => .ofPiece cursor piece :: placed (cursor.past piece.span) rest

theorem Faces.stretchesFrom? (h : Faces source cursor.position cs) :
    Cursor.stretchesFrom? source cursor = some (placed cursor (pieces cs)) := by
  -- On the characters that are left: a piece takes some of them, and the cursor is behind it.
  induction hlength : cs.length using Nat.strong_induction_on generalizing cs cursor with
  | _ n ih =>
    subst hlength
    rw [Cursor.stretchesFrom?]
    cases cs with
    | nil =>
      rw [if_neg (by simp [h.size, octets])]
      rfl
    | cons c cs =>
      have hsize : cursor.position < source.utf8ByteSize := by
        obtain ⟨first, more, hfirst⟩ := exists_octets_eq_cons c
        rw [h.size, octets_cons, hfirst]
        simp
      have hsplit := (span_append_drop c cs).1
      have hrest : Faces source (cursor.past (next c cs).span).position
          (cs.drop ((next c cs).span.length - 1)) := Faces.move (by rwa [hsplit])
      have hnext := ih _ (length_drop_lt ..) hrest rfl
      rw [if_pos hsize, pieces_cons]
      split
      · next hnone =>
        rw [h.stretch?] at hnone
        cases hnone
      · next stretch after hsome =>
        rw [h.stretch?] at hsome
        cases hsome
        rw [hnext]
        rfl

/-- The cursor has a result for every source: the stretches of its pieces. -/
theorem stretches?_eq (source : String) :
    stretches? source = some (placed start (pieces source.toList)) :=
  (faces_start source).stretchesFrom?

/-- The items of the stretches are those of the pieces. -/
theorem items_placed (cursor : Cursor) (pieces : List Piece) :
    (placed cursor pieces).filterMap Stretch.item? = itemsFrom cursor.line pieces := by
  induction pieces generalizing cursor with
  | nil => rfl
  | cons piece pieces ih =>
    have hhead : (Stretch.ofPiece cursor piece).item? =
        piece.item? (cursor.line + piece.span.count '\n') := rfl
    rw [placed, List.filterMap_cons, itemsFrom, ih, hhead]
    cases piece.item? (cursor.line + piece.span.count '\n') <;> rfl

/-- From one position to another, the stretches lie without a gap. -/
def Tile : (start stop : Nat) → List Stretch → Prop
  | start, stop, [] => start = stop
  | start, stop, stretch :: rest => stretch.start = start ∧ Tile stretch.stop stop rest

theorem tile_placed (cursor : Cursor) (pieces : List Piece) :
    Tile cursor.position (cursor.past (pieces.flatMap Piece.span)).position
      (placed cursor pieces) := by
  induction pieces generalizing cursor with
  | nil => exact ⟨rfl, rfl⟩
  | cons piece pieces ih =>
    rw [List.flatMap_cons, past_append]
    exact ⟨rfl, ih _⟩

/-- A stretch is that of a piece behind others, or that of the end. -/
theorem mem_placed {stretch : Stretch} {pieces : List Piece} :
    stretch ∈ placed cursor pieces ↔
      (∃ before piece after, pieces = before ++ piece :: after ∧
        stretch = .ofPiece (cursor.past (before.flatMap Piece.span)) piece) ∨
      stretch = .atEnd (cursor.past (pieces.flatMap Piece.span)) := by
  induction pieces generalizing cursor with
  | nil => simp [placed]
  | cons first pieces ih =>
    rw [placed, List.mem_cons, ih, List.flatMap_cons, past_append, ← or_assoc]
    refine or_congr_left ⟨?_, ?_⟩
    · rintro (rfl | ⟨before, piece, after, rfl, rfl⟩)
      · exact ⟨[], first, pieces, rfl, by simp⟩
      · exact ⟨first :: before, piece, after, rfl, by rw [List.flatMap_cons, past_append]⟩
    · rintro ⟨before, piece, after, hpieces, rfl⟩
      cases before with
      | nil =>
        cases hpieces
        exact .inl (by simp)
      | cons other before =>
        cases hpieces
        exact .inr ⟨before, piece, after, rfl, by rw [List.flatMap_cons, past_append]⟩

/-- A stretch of the source is a piece of what it is in front of, or it is the end. -/
theorem cases_of_mem {stretch : Stretch} (h : stretch ∈ placed start (pieces source.toList)) :
    (∃ front piece rest, source.toList = front ++ (piece.span ++ rest) ∧
      Munch (piece.span ++ rest) piece ∧ stretch = .ofPiece (start.past front) piece) ∨
    stretch = .atEnd (start.past source.toList) := by
  have hmunched := munched_pieces source.toList
  have hall := hmunched.flatMap_span
  obtain ⟨before, piece, after, hpieces, hstretch⟩ | hend := mem_placed.mp h
  · rw [hpieces] at hmunched
    rw [hpieces, List.flatMap_append, List.flatMap_cons] at hall
    exact .inl ⟨_, piece, _, hall.symm, hmunched.munch, hstretch⟩
  · rw [hall] at hend
    exact .inr hend

theorem faces_past (h : source.toList = front ++ rest) :
    Faces source (start.past front).position rest := ⟨front, h, Nat.zero_add _⟩

theorem position_past_toList (source : String) :
    (start.past source.toList).position = source.utf8ByteSize := by
  rw [(faces_past (List.append_nil _).symm : Faces source _ []).size]
  rfl

theorem tile_stretches (source : String) :
    Tile 0 source.utf8ByteSize (placed start (pieces source.toList)) := by
  have htile := tile_placed start (pieces source.toList)
  rwa [(munched_pieces source.toList).flatMap_span, position_past_toList] at htile

theorem content_of_token {stretch : Stretch} {token : Token}
    (h : stretch ∈ placed start (pieces source.toList)) (htoken : stretch.item? = some (.ok token)) :
    stretch.content = .token token.kind := by
  obtain ⟨front, piece, rest, -, -, rfl⟩ | rfl := cases_of_mem h
  · dsimp only [Stretch.ofPiece, Piece.item?] at htoken ⊢
    split at htoken <;> cases htoken
    assumption
  · cases htoken
    rfl

/-- The lexeme of a token is the text of its stretch. -/
theorem slice?_lexeme {stretch : Stretch} {token : Token}
    (h : stretch ∈ placed start (pieces source.toList)) (htoken : stretch.item? = some (.ok token)) :
    slice? source stretch.start stretch.stop = some token.lexeme := by
  obtain ⟨front, piece, rest, hsource, -, rfl⟩ | rfl := cases_of_mem h
  · have hlexeme : token.lexeme = String.ofList piece.span := by
      dsimp only [Stretch.ofPiece, Piece.item?] at htoken
      split at htoken <;> cases htoken
      rfl
    rw [hlexeme]
    exact (faces_past hsource).slice?
  · cases htoken
    have hend : Faces source (start.past source.toList).position ([] ++ []) :=
      faces_past (List.append_nil _).symm
    exact hend.slice?

theorem lexeme_of_munch {piece : Piece} {kind : Kind} (h : Munch cs piece)
    (hcontent : piece.content = .token kind) : Lexeme piece.span (.token kind) := by
  cases h with
  | lexeme _ hlexeme _ _ => rwa [hcontent] at hlexeme
  | unclosed _ => cases hcontent
  | unexpected _ _ => cases hcontent

/-- A string literal is its text between quotes. -/
theorem span_of_string {piece : Piece} {text : String} (h : Munch cs piece)
    (hcontent : piece.content = .token (.string text)) :
    piece.span = '"' :: (text.toList ++ ['"']) := by
  have hlexeme := lexeme_of_munch h hcontent
  generalize piece.span = span at hlexeme ⊢
  cases hlexeme with
  | string _ => rw [String.toList_ofList]

end Lox.Cursor
