import Lox.Token.Lexer

/-!
# Pieces cover the source

Every piece is a start of the characters that it is cut from, and is not empty. So the pieces of a
source, one after another, are the source.
-/
namespace Lox.Lexer
variable {c : Char} {cs : List Char}

theorem isBlank_iff : isBlank c = true ↔ c ∈ [' ', '\r', '\t', '\n'] := by
  simp [isBlank, or_assoc]

/-- No character of a class that white space is not in is white space. -/
theorem isBlank_eq_false_of {p : Char → Bool} (hp : [' ', '\r', '\t', '\n'].any p = false)
    (h : p c = true) : isBlank c = false := by
  rw [Bool.eq_false_iff, ne_eq, isBlank_iff]
  exact fun hmem => List.any_eq_false.mp hp c hmem h

/-- A piece is a start of the characters that it is cut from. -/
structure Piece.Starts (piece : Piece) (cs : List Char) : Prop where
  nonempty : piece.span ≠ []
  starts : piece.span <+: cs

theorem starts_string (cs : List Char) : (string cs).Starts ('"' :: cs) := by
  unfold string
  dsimp only
  split
  · exact ⟨by simp, List.prefix_rfl⟩
  · next hlength =>
    refine ⟨by simp, List.cons_prefix_cons.mpr ⟨rfl, ?_⟩⟩
    have hsplit := List.takeWhile_append_dropWhile (p := (· != '"')) (l := cs)
    cases hrest : cs.dropWhile (· != '"') with
    | nil =>
      rw [hrest, List.append_nil] at hsplit
      exact absurd (congrArg List.length hsplit) hlength
    | cons quote rest =>
      have hquote := List.head?_dropWhile_not (· != '"') cs
      rw [hrest] at hsplit hquote
      obtain rfl : quote = '"' := by simpa using hquote
      exact ⟨rest, by rw [List.append_assoc]; exact hsplit⟩

theorem starts_number (hc : c.isDigit = true) : (number (c :: cs)).Starts (c :: cs) := by
  have hsplit := List.takeWhile_append_dropWhile (p := Char.isDigit) (l := c :: cs)
  have hwhole : (c :: cs).takeWhile Char.isDigit ≠ [] := by simp [hc]
  unfold number
  split
  · next d rest hrest =>
    split
    · refine ⟨by simp, ?_⟩
      obtain ⟨more, hmore⟩ := rest.takeWhile_prefix Char.isDigit
      refine ⟨more, ?_⟩
      rw [hrest] at hsplit
      simp only [List.append_assoc, List.cons_append, hmore]
      exact hsplit
    · exact ⟨hwhole, List.takeWhile_prefix _⟩
  · exact ⟨hwhole, List.takeWhile_prefix _⟩

theorem isWordPart_of_isWordStart (h : isWordStart c = true) : isWordPart c = true := by
  unfold isWordStart at h
  unfold isWordPart Char.isAlphanum
  grind

theorem starts_word (hc : isWordStart c = true) : (word (c :: cs)).Starts (c :: cs) := by
  have hpart := isWordPart_of_isWordStart hc
  have hspan : (c :: cs).takeWhile isWordPart ≠ [] := by simp [hpart]
  unfold word
  dsimp only
  split
  · exact ⟨hspan, List.takeWhile_prefix _⟩
  · exact ⟨hspan, List.takeWhile_prefix _⟩

theorem prefix_of_commentRest? {depth : Nat} {rest : List Char}
    (h : commentRest? depth cs = some rest) : rest <+: cs := by
  fun_induction commentRest? depth cs generalizing rest with
  | case1 => simp_all
  | case2 => simp at h
  | case3 depth cs ih =>
    obtain ⟨inner, hinner, rfl⟩ := Option.map_eq_some_iff.mp h
    simp [ih hinner]
  | case4 depth cs ih =>
    obtain ⟨inner, hinner, rfl⟩ := Option.map_eq_some_iff.mp h
    simp [ih hinner]
  | case5 depth c cs _ _ ih =>
    obtain ⟨inner, hinner, rfl⟩ := Option.map_eq_some_iff.mp h
    simp [ih hinner]

theorem starts_comment? {piece : Piece} (h : comment? cs = some piece) :
    piece.Starts ('/' :: cs) := by
  unfold comment? at h
  split at h
  · cases h
    exact ⟨by simp, List.cons_prefix_cons.mpr ⟨rfl, List.takeWhile_prefix _⟩⟩
  · split at h
    · next hrest =>
      cases h
      exact ⟨by simp, by simpa using prefix_of_commentRest? hrest⟩
    · cases h
      exact ⟨by simp, List.prefix_rfl⟩
  · cases h

theorem starts_symbol? {piece : Piece} (h : symbol? c cs = some piece) :
    piece.Starts (c :: cs) := by
  unfold symbol? at h
  split at h
  · cases h
    exact ⟨by simp, by simp⟩
  · obtain ⟨symbol, -, rfl⟩ := Option.map_eq_some_iff.mp h
    exact ⟨by simp, by simp⟩

theorem starts_next (c : Char) (cs : List Char) : (next c cs).Starts (c :: cs) := by
  unfold next
  split
  · exact ⟨by simp, by simp⟩
  split
  · next hquote => exact hquote ▸ starts_string cs
  split
  · next hdigit => exact starts_number hdigit
  split
  · next hword => exact starts_word hword
  split
  · next piece hpiece =>
    split at hpiece
    · next hslash => exact hslash ▸ starts_comment? hpiece
    · cases hpiece
  · cases h : symbol? c cs with
    | some piece => exact starts_symbol? h
    | none => exact ⟨by simp, by simp⟩

/-- The characters after a piece are those that it has left. -/
theorem span_append_drop (c : Char) (cs : List Char) :
    (next c cs).span ++ cs.drop ((next c cs).span.length - 1) = c :: cs ∧
      (next c cs).span.length - 1 ≤ cs.length := by
  obtain ⟨hnonempty, rest, hrest⟩ := starts_next c cs
  obtain ⟨first, span, hspan⟩ := List.exists_cons_of_ne_nil hnonempty
  rw [hspan, List.cons_append, List.cons.injEq] at hrest
  obtain ⟨rfl, rfl⟩ := hrest
  rw [hspan]
  simp

theorem flatMap_span_piecesFrom {skip : Nat} (h : skip ≤ cs.length) :
    (piecesFrom skip cs).flatMap Piece.span = cs.drop skip := by
  induction cs generalizing skip with
  | nil => simp [piecesFrom]
  | cons c cs ih =>
    cases skip with
    | succ skip => exact ih (Nat.le_of_succ_le_succ h)
    | zero =>
      obtain ⟨hsplit, hlength⟩ := span_append_drop c cs
      rw [piecesFrom, List.flatMap_cons, ih hlength, hsplit, List.drop_zero]

end Lox.Lexer
