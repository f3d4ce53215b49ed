import Lox.Proofs.Token.Tiling

/-!
# No character is split

The cursor goes over strings, comments and identifiers byte by byte, and what it cuts out of the
source begins and ends between two characters all the same. A character that is not ASCII is part of
a string or a comment, or it is an error by itself and the scanning goes on behind it.
-/
namespace Lox.Cursor
open Lexer
variable {source : String} {c : Char} {front back rest : List Char} {stretch : Stretch}

/-- A stretch between two characters, and every text that is cut out of the source for it. -/
structure Stretch.Whole (source : String) (stretch : Stretch) : Prop where
  start : String.Pos.Raw.IsValid source ⟨stretch.start⟩
  stop : String.Pos.Raw.IsValid source ⟨stretch.stop⟩
  inside : stretch.start ≤ stretch.stop ∧ stretch.stop ≤ source.utf8ByteSize
  lexeme : ∀ token, stretch.item? = some (.ok token) →
    slice? source stretch.start stretch.stop = some token.lexeme
  string : ∀ text, stretch.content = .token (.string text) →
    slice? source (stretch.start + 1) (stretch.stop - 1) = some text
  /-- The text of a number literal always has a value. -/
  number : ∀ value, stretch.content = .token (.number value) →
    ∃ text, slice? source stretch.start stretch.stop = some text ∧
      Number.ofDecimal? text.toList = some value
  /-- Of the rest of the source one character is passed over. -/
  unexpected : stretch.content = .error .unexpectedCharacter →
    ∃ c rest, slice? source stretch.start source.utf8ByteSize = some (String.ofList (c :: rest)) ∧
      stretch.stop = stretch.start + c.utf8Size

theorem slice?_string {text : String} (h : stretch ∈ placed start (pieces source.toList))
    (hcontent : stretch.content = .token (.string text)) :
    slice? source (stretch.start + 1) (stretch.stop - 1) = some text := by
  obtain ⟨front, piece, rest, hsource, hmunch, rfl⟩ | rfl := cases_of_mem h
  · have hspan := span_of_string hmunch hcontent
    have hfaces := faces_past hsource
    rw [hspan, List.cons_append, List.append_assoc] at hfaces
    have hslice := (hfaces.ascii (by decide)).2.slice?
    have hstop : ((start.past front).past piece.span).position - 1 =
        (start.past front).position + 1 + (octets text.toList).length := by
      rw [hspan, past_mark _ (by decide) (by decide), past_append, past_ascii _ (by decide)]
      rfl
    dsimp only [Stretch.ofPiece]
    rw [hstop, hslice, String.ofList_toList]
  · cases hcontent

theorem ofDecimal?_number {value : Float} (h : stretch ∈ placed start (pieces source.toList))
    (hcontent : stretch.content = .token (.number value)) :
    ∃ text, slice? source stretch.start stretch.stop = some text ∧
      Number.ofDecimal? text.toList = some value := by
  obtain ⟨front, piece, rest, hsource, hmunch, rfl⟩ | rfl := cases_of_mem h
  · refine ⟨String.ofList piece.span, (faces_past hsource).slice?, ?_⟩
    rw [String.toList_ofList]
    exact ofDecimal?_of_lexeme (lexeme_of_munch hmunch hcontent)
  · cases hcontent

theorem span_of_unexpected {piece : Piece} {cs : List Char} (h : Munch cs piece)
    (hcontent : piece.content = .error .unexpectedCharacter) : ∃ c, piece.span = [c] := by
  cases h with
  | lexeme _ hlexeme _ _ => exact absurd hcontent (hlexeme.not_error _)
  | unclosed hcause =>
    cases hcontent
    cases hcause
  | @unexpected c _ _ _ => exact ⟨c, rfl⟩

theorem slice?_unexpected (h : stretch ∈ placed start (pieces source.toList))
    (hcontent : stretch.content = .error .unexpectedCharacter) :
    ∃ c rest, slice? source stretch.start source.utf8ByteSize = some (String.ofList (c :: rest)) ∧
      stretch.stop = stretch.start + c.utf8Size := by
  obtain ⟨front, piece, rest, hsource, hmunch, rfl⟩ | rfl := cases_of_mem h
  · obtain ⟨c, hspan⟩ := span_of_unexpected hmunch hcontent
    have hfaces := faces_past hsource
    rw [hspan, List.singleton_append] at hfaces
    refine ⟨c, rest, ?_, ?_⟩
    · rw [hfaces.size]
      exact hfaces.slice?_rest
    · dsimp only [Stretch.ofPiece]
      rw [hspan, ← length_octets_singleton]
      rfl
  · cases hcontent

theorem whole_of_mem (h : stretch ∈ placed start (pieces source.toList)) :
    stretch.Whole source := by
  obtain ⟨hstart, hstop, hle⟩ : String.Pos.Raw.IsValid source ⟨stretch.start⟩ ∧
      String.Pos.Raw.IsValid source ⟨stretch.stop⟩ ∧ stretch.start ≤ stretch.stop := by
    obtain ⟨front, piece, rest, hsource, -, rfl⟩ | rfl := cases_of_mem h
    · exact ⟨(faces_past hsource).isValid, (faces_past hsource).move.isValid, Nat.le_add_right ..⟩
    · have hend := (faces_past (List.append_nil source.toList).symm).isValid
      exact ⟨hend, hend, Nat.le_refl _⟩
  exact ⟨hstart, hstop, ⟨hle, hstop.le_utf8ByteSize⟩, fun _ => slice?_lexeme h,
    fun _ => slice?_string h, fun _ => ofDecimal?_number h, slice?_unexpected h⟩

/-- A string or a comment that has this text, closed or not. -/
def StringOrComment (text : List Char) : Content → Prop
  | .token (.string _) => True
  | .error .unterminatedString => True
  | .error .unterminatedComment => True
  | .blank => ['/', '/'] <+: text ∨ ['/', '*'] <+: text
  | _ => False

theorem ascii_of_mem_symbol {symbol : Symbol} (h : c ∈ symbol.lexeme.toList) : c.toNat < 128 := by
  have hall : (symbol.lexeme.toList.all fun c => c.toNat < 128) = true := by
    cases symbol <;> decide
  exact of_decide_eq_true (List.all_eq_true.mp hall c h)

/-- A lexeme with a character that is not ASCII is a string or a comment. -/
theorem stringOrComment_of_lexeme {span : List Char} {content : Content} (h : Lexeme span content)
    (hc : c ∈ span) (hwide : 128 ≤ c.toNat) : StringOrComment span content := by
  have hnot : ¬ c.toNat < 128 := Nat.not_lt_of_le hwide
  cases h with
  | white hwhite =>
    obtain rfl := List.mem_singleton.mp hc
    have hblank := isBlank_iff.mpr hwhite
    rw [(meaningless_of_wide hwide).blank] at hblank
    cases hblank
  | lineComment _ => exact .inl (by simp)
  | blockComment _ => exact .inr (by simp)
  | symbol symbol => exact absurd (ascii_of_mem_symbol hc) hnot
  | string _ => trivial
  | integer _ hwhole => exact absurd (ascii_of_isDigit (hwhole c hc)) hnot
  | decimal _ hwhole _ hfraction =>
    obtain hmem | hmem := List.mem_append.mp hc
    · exact absurd (ascii_of_isDigit (hwhole c hmem)) hnot
    obtain rfl | hmem := List.mem_cons.mp hmem
    · exact absurd (by decide) hnot
    · exact absurd (ascii_of_isDigit (hfraction c hmem)) hnot
  | identifier hfirst hothers _ =>
    obtain rfl | hmem := List.mem_cons.mp hc
    · exact absurd (ascii_of_isWordStart hfirst) hnot
    · exact absurd (ascii_of_isWordPart (hothers c hmem)) hnot

theorem cases_of_wide {piece : Piece} {cs : List Char} (h : Munch cs piece) (hc : c ∈ piece.span)
    (hwide : 128 ≤ c.toNat) :
    StringOrComment piece.span piece.content ∨ piece = ⟨[c], .error .unexpectedCharacter⟩ := by
  cases h with
  | lexeme _ hlexeme _ _ => exact .inl (stringOrComment_of_lexeme hlexeme hc hwide)
  | unclosed hcause => cases hcause <;> exact .inl trivial
  | unexpected _ _ =>
    obtain rfl := List.mem_singleton.mp hc
    exact .inr rfl

/-- Each character is in one of the pieces. -/
theorem exists_piece {pieces : List Piece}
    (h : pieces.flatMap Piece.span = front ++ c :: back) :
    ∃ before piece after inner more, pieces = before ++ piece :: after ∧
      front = before.flatMap Piece.span ++ inner ∧ piece.span = inner ++ c :: more := by
  induction pieces generalizing front with
  | nil => simp at h
  | cons piece pieces ih =>
    rw [List.flatMap_cons, List.append_eq_append_iff] at h
    -- The character is behind the first piece, or the first piece goes at least up to it.
    obtain ⟨later, rfl, hlater⟩ | ⟨inner, hspan, hback⟩ := h
    · obtain ⟨before, other, after, inner, more, rfl, rfl, hother⟩ := ih hlater
      exact ⟨piece :: before, other, after, inner, more, rfl, by simp, hother⟩
    · cases inner with
      | nil =>
        rw [List.nil_append] at hback
        obtain ⟨before, other, after, inner, more, rfl, hfront, hother⟩ :=
          ih (hback.symm.trans (List.nil_append _).symm)
        refine ⟨piece :: before, other, after, inner, more, rfl, ?_, hother⟩
        rw [List.append_nil] at hspan
        rw [List.flatMap_cons, List.append_assoc, ← hfront, hspan, List.append_nil]
      | cons d inner =>
        obtain ⟨rfl, -⟩ := List.cons.inj hback
        exact ⟨[], piece, pieces, front, inner, rfl, rfl, hspan⟩

/-- The byte at the position is one of the stretch. -/
def Stretch.covers (position : Nat) (stretch : Stretch) : Bool :=
  stretch.start ≤ position && position < stretch.stop

theorem Tile.filter_covers_eq_nil {start stop position : Nat} {stretches : List Stretch}
    (h : Tile start stop stretches)
    (hstretches : ∀ stretch ∈ stretches, stretch.start ≤ stretch.stop)
    (hposition : position < start) : stretches.filter (·.covers position) = [] := by
  induction stretches generalizing start with
  | nil => rfl
  | cons stretch stretches ih =>
    obtain ⟨hstart, hrest⟩ := h
    rw [List.forall_mem_cons] at hstretches
    rw [List.filter_cons_of_neg]
    · exact ih hrest hstretches.2 (by omega)
    · simp only [Stretch.covers, Bool.and_eq_true, decide_eq_true_eq]
      omega

theorem Tile.filter_covers {start stop position : Nat} {stretches : List Stretch}
    (h : Tile start stop stretches)
    (hstretches : ∀ stretch ∈ stretches, stretch.start ≤ stretch.stop) {stretch : Stretch} (hmem : stretch ∈ stretches) (hcovers : stretch.covers position = true) :
    stretches.filter (·.covers position) = [stretch] := by
  induction stretches generalizing start with
  | nil => cases hmem
  | cons first stretches ih =>
    obtain ⟨hstart, hrest⟩ := h
    rw [List.forall_mem_cons] at hstretches
    by_cases hfirst : first.covers position = true
    · have hnil : stretches.filter (·.covers position) = [] := by
        refine hrest.filter_covers_eq_nil hstretches.2 ?_
        simp only [Stretch.covers, Bool.and_eq_true, decide_eq_true_eq] at hfirst
        exact hfirst.2
      rw [List.filter_cons_of_pos hfirst, hnil]
      obtain rfl | hlater := List.mem_cons.mp hmem
      · rfl
      · have hnone := List.filter_eq_nil_iff.mp hnil stretch hlater
        exact absurd hcovers hnone
    · obtain rfl | hlater := List.mem_cons.mp hmem
      · exact absurd hcovers hfirst
      · rw [List.filter_cons_of_neg hfirst]
        exact ih hrest hstretches.2 hlater

/-- The stretch is a string or a comment, closed or not. -/
def Stretch.IsText (source : String) (stretch : Stretch) : Prop :=
  ∃ text, slice? source stretch.start stretch.stop = some text ∧
    StringOrComment text.toList stretch.content

/-- A character that is not ASCII is in one stretch, which is a string or a comment or an error of
this one character. -/
theorem wide_covered (hsource : source.toList = front ++ c :: back) (hwide : 128 ≤ c.toNat) :
    let position := (String.ofList front).utf8ByteSize
    ∃ stretch, (placed start (pieces source.toList)).filter (·.covers position) = [stretch] ∧
      (stretch.IsText source ∨ stretch.start = position ∧ stretch.stop = position + c.utf8Size ∧
        ∃ line, stretch.item? = some (.error ⟨.unexpectedCharacter, line⟩)) := by
  have hmunched := munched_pieces source.toList
  obtain ⟨before, piece, after, inner, more, hpieces, rfl, hspan⟩ :=
    exists_piece (hmunched.flatMap_span.trans hsource)
  have hall : source.toList =
      before.flatMap Piece.span ++ (piece.span ++ after.flatMap Piece.span) := by
    rw [← hmunched.flatMap_span, hpieces, List.flatMap_append, List.flatMap_cons]
  rw [hpieces] at hmunched
  have hfaces := faces_past hall
  intro position
  let stretch := Stretch.ofPiece (start.past (before.flatMap Piece.span)) piece
  have hmem : stretch ∈ placed start (pieces source.toList) :=
    mem_placed.mpr (.inl ⟨before, piece, after, hpieces, rfl⟩)
  have hposition : position = stretch.start + (octets inner).length := by
    simp only [position, stretch, Stretch.ofPiece, past, start]
    rw [← length_octets, octets_append, List.length_append, Nat.zero_add]
  have hstop : stretch.stop =
      stretch.start + ((octets inner).length + (c.utf8Size + (octets more).length)) := by
    simp only [stretch, Stretch.ofPiece, past, hspan]
    rw [octets_append, octets_cons, List.length_append, List.length_append, length_octets_singleton]
  have hcovers : stretch.covers position = true := by
    have hsize := c.utf8Size_pos
    simp only [Stretch.covers, Bool.and_eq_true, decide_eq_true_eq]
    omega
  refine ⟨stretch, (tile_stretches source).filter_covers
    (fun other hother => (whole_of_mem hother).inside.1) hmem hcovers, ?_⟩
  obtain htext | hpiece := cases_of_wide hmunched.munch (by simp [hspan]) hwide
  · exact .inl ⟨_, hfaces.slice?, by rwa [String.toList_ofList]⟩
  · -- The piece has no other character, so it starts at the position.
    subst hpiece
    have hlength := congrArg List.length hspan
    simp only [List.length_append, List.length_cons, List.length_nil] at hlength
    obtain rfl : inner = [] := List.eq_nil_of_length_eq_zero (by omega)
    obtain rfl : more = [] := List.eq_nil_of_length_eq_zero (by omega)
    refine .inr ⟨hposition.symm, ?_, _, rfl⟩
    rw [hstop, hposition]
    simp [octets]

/-- Every text that is cut out of the source begins and ends between two characters, a number
literal has a value, and a character that is not ASCII is in one stretch: that of a string or a
comment, or else that of an error behind which the next character is scanned. -/
theorem characters_whole (source : String) :
    ∃ stretches, stretches? source = some stretches ∧
      stretches.filterMap Stretch.item? = items source ∧
      Tile 0 source.utf8ByteSize stretches ∧
      (∀ stretch ∈ stretches, stretch.Whole source) ∧
      ∀ front c back, source.toList = front ++ c :: back → 128 ≤ c.toNat →
        let position := (String.ofList front).utf8ByteSize
        ∃ stretch, stretches.filter (·.covers position) = [stretch] ∧
          (stretch.IsText source ∨ stretch.start = position ∧
            stretch.stop = position + c.utf8Size ∧
            ∃ line, stretch.item? = some (.error ⟨.unexpectedCharacter, line⟩)) :=
  ⟨_, stretches?_eq source, items_placed .., tile_stretches source, fun _ => whole_of_mem,
    fun _ _ _ => wide_covered⟩

/-- A character of two bytes in a string, in a comment, and outside of both. -/
def accented : String := "\"é\"//é\né"

/-- The last of these characters is in one stretch. -/
theorem characters_whole_accented :
    (accented.toList = "\"é\"//é\n".toList ++ 'é' :: [] ∧ 128 ≤ 'é'.toNat) ∧
    ∃ stretches, stretches? accented = some stretches ∧
      ∃ stretch, stretches.filter (·.covers 9) = [stretch] ∧
        (stretch.IsText accented ∨ stretch.start = 9 ∧ stretch.stop = 11 ∧
          ∃ line, stretch.item? = some (.error ⟨.unexpectedCharacter, line⟩)) := by
  have hsource : accented.toList = "\"é\"//é\n".toList ++ 'é' :: [] := by decide
  have hwide : 128 ≤ 'é'.toNat := by decide
  obtain ⟨stretches, hstretches, -, -, -, hcovered⟩ := characters_whole accented
  exact ⟨⟨hsource, hwide⟩, stretches, hstretches, hcovered _ _ _ hsource hwide⟩

end Lox.Cursor
