import Lox.Proofs.Syntax.Lines
import Lox.Proofs.Token.Lexemes
import Lox.Proofs.Token.Pieces
import Mathlib.Data.List.TakeWhile

/-!
# The tokens of two sources with a line break between them

The pieces of a source cover it, so each of its line breaks is counted once. White space ends
whatever piece is in front of it, apart from comments and strings that are not over; a line comment
is over at a line break only. So if a source without lexical errors and a second one are joined by a
line break, the pieces are those of the first, the break, and those of the second. The tokens of the
second one stand as many lines further down as the first has line breaks, and one more.
-/
namespace Lox.Lexer
variable {c : Char} {cs : List Char}

section
variable {b : Char} (rest : List Char)

theorem takeWhile_break {p : Char → Bool} (hp : p b = false) (cs : List Char) :
    (cs ++ b :: rest).takeWhile p = cs.takeWhile p := by
  rw [List.takeWhile_append]
  split
  · next hall =>
    rw [List.takeWhile_cons_of_neg (by simp [hp]), List.append_nil]
    exact ((List.takeWhile_prefix p).eq_of_length hall).symm
  · rfl

theorem dropWhile_break {p : Char → Bool} (hp : p b = false) (cs : List Char) :
    (cs ++ b :: rest).dropWhile p = cs.dropWhile p ++ b :: rest := by
  rw [List.dropWhile_append]
  split
  · next hempty =>
    rw [List.dropWhile_cons_of_neg (by simp [hp]), List.isEmpty_iff.mp hempty, List.nil_append]
  · rfl

theorem string_break (h : ∀ cause, (string cs).content ≠ .error cause) :
    string (cs ++ b :: rest) = string cs := by
  by_cases hquote : '"' ∈ cs
  · have htake : (cs ++ b :: rest).takeWhile (· != '"') = cs.takeWhile (· != '"') := by
      rw [List.takeWhile_append, if_neg]
      intro hall
      have hself := (List.takeWhile_prefix (· != '"')).eq_of_length hall
      have hnot := List.takeWhile_eq_self_iff.mp hself _ hquote
      simp at hnot
    have hlt : (cs.takeWhile (· != '"')).length ≠ cs.length := by
      intro hall
      have hself := (List.takeWhile_prefix (· != '"')).eq_of_length hall
      have hnot := List.takeWhile_eq_self_iff.mp hself _ hquote
      simp at hnot
    have hle := (cs.takeWhile_prefix (· != '"')).length_le
    unfold string
    dsimp only
    rw [htake, if_neg hlt, if_neg (by simp; omega)]
  · have hself : cs.takeWhile (· != '"') = cs := by
      rw [List.takeWhile_eq_self_iff]
      intro c hc
      simpa using fun heq : c = '"' => hquote (heq ▸ hc)
    refine absurd ?_ (h .unterminatedString)
    unfold string
    dsimp only
    rw [if_pos (by rw [hself])]

theorem number_break (hdigit : b.isDigit = false) (hpoint : b ≠ '.') (cs : List Char) :
    number (cs ++ b :: rest) = number cs := by
  unfold number
  dsimp only
  rw [takeWhile_break rest hdigit, dropWhile_break rest hdigit]
  generalize cs.dropWhile Char.isDigit = left
  match left with
  | [] =>
    split
    · next heq => exact absurd (List.cons.inj heq).1 hpoint
    · rfl
  | c :: left =>
    by_cases hc : c = '.'
    · subst hc
      cases left with
      | nil =>
        simp only [List.cons_append, List.nil_append, hdigit]
        rfl
      | cons d left =>
        simp only [List.cons_append]
        rw [takeWhile_break rest hdigit]
    · split
      · next heq => exact absurd (List.cons.inj heq).1 hc
      · split
        · next heq => exact absurd (List.cons.inj heq).1 hc
        · rfl

theorem word_break (hword : isWordPart b = false) (cs : List Char) :
    word (cs ++ b :: rest) = word cs := by
  unfold word
  rw [takeWhile_break rest hword]

theorem commentRest?_append {depth : Nat} {inner : List Char}
    (h : commentRest? depth cs = some inner) :
    commentRest? depth (cs ++ rest) = some inner := by
  fun_induction commentRest? depth cs generalizing inner with
  | case1 => simpa [commentRest?] using h
  | case2 => cases h
  | case3 depth cs ih | case4 depth cs ih =>
    obtain ⟨more, hmore, rfl⟩ := Option.map_eq_some_iff.mp h
    simp [commentRest?, ih hmore]
  | case5 depth c cs hopens hcloses ih =>
    obtain ⟨more, hmore, rfl⟩ := Option.map_eq_some_iff.mp h
    rw [List.cons_append, commentRest?]
    · rw [ih hmore]
      rfl
    · intro left hc hleft
      cases cs with
      | nil => cases hmore
      | cons d cs => exact hopens cs hc (by simp_all)
    · intro left hc hleft
      cases cs with
      | nil => cases hmore
      | cons d cs => exact hcloses cs hc (by simp_all)

/-- A comment that is over, or no comment, is the same in front of a line break; in front of other
white space only what is no comment is. -/
theorem comment?_break (hb : isBlank b = true)
    (h : ∀ piece, comment? cs = some piece → ∀ cause, piece.content ≠ .error cause)
    (hline : b = '\n' ∨ ∀ piece, comment? cs = some piece → piece.content ≠ .blank) :
    comment? (cs ++ b :: rest) = comment? cs := by
  match cs with
  | [] =>
    have hneither : b ≠ '/' ∧ b ≠ '*' := by
      constructor <;>
      · rintro rfl
        exact absurd hb (by decide)
    unfold comment?
    split
    · next heq => exact absurd (List.cons.inj heq).1 hneither.1
    · next heq => exact absurd (List.cons.inj heq).1 hneither.2
    · rfl
  | c :: cs =>
    unfold comment? at h hline ⊢
    by_cases hslash : c = '/'
    · subst hslash
      obtain rfl | hnone := hline
      · simp only [List.cons_append]
        rw [← List.cons_append, takeWhile_break rest (by decide)]
      · exact absurd rfl (hnone _ rfl)
    · by_cases hstar : c = '*'
      · subst hstar
        cases hcomment : commentRest? 1 cs with
        | some inner => simp [hcomment, commentRest?_append (b :: rest) hcomment]
        | none => exact absurd rfl (h _ (by simp [hcomment]; rfl) .unterminatedComment)
      · simp [hslash, hstar]

theorem symbol?_break (hequal : b ≠ '=') (c : Char) (cs : List Char) :
    symbol? c (cs ++ b :: rest) = symbol? c cs := by
  cases cs with
  | nil => simp [symbol?, hequal]
  | cons d cs =>
    unfold symbol?
    rw [List.cons_append]
    by_cases hd : d = '='
    · subst hd
      cases withEqual? c with
      | none => rfl
      | some symbol => rfl
    · simp [hd]

/-- A piece without an error is the same in front of a line break, and in front of other white space
if it is a token. -/
theorem next_break (hb : isBlank b = true) (h : ∀ cause, (next c cs).content ≠ .error cause)
    (hline : b = '\n' ∨ (next c cs).content ≠ .blank) :
    next c (cs ++ b :: rest) = next c cs := by
  have hclasses : b.isDigit = false ∧ isWordPart b = false ∧ b ≠ '.' ∧ b ≠ '=' := by
    simp only [isBlank, Bool.or_eq_true, beq_iff_eq] at hb
    obtain ((rfl | rfl) | rfl) | rfl := hb <;> decide
  obtain ⟨hnodigit, hnoword, hpoint, hequal⟩ := hclasses
  unfold next at h hline ⊢
  split
  · rfl
  · next hblank =>
    rw [if_neg hblank] at h hline
    split
    · next hquote =>
      rw [if_pos hquote] at h
      exact string_break rest h
    · next hquote =>
      rw [if_neg hquote] at h hline
      split
      · exact number_break rest hnodigit hpoint (c :: cs)
      · next hdigit =>
        rw [if_neg hdigit] at h hline
        split
        · exact word_break rest hnoword (c :: cs)
        · next hword =>
          rw [if_neg hword] at h hline
          rw [symbol?_break rest hequal]
          by_cases hslash : c = '/'
          · rw [if_pos hslash] at h hline ⊢
            rw [if_pos hslash, comment?_break rest hb]
            · intro piece hpiece
              rw [hpiece] at h
              exact h
            · refine hline.imp_right fun hshows piece hpiece => ?_
              rw [hpiece] at hshows
              exact hshows
          · rw [if_neg hslash, if_neg hslash]

/-- If the pieces of a source have no errors, they are the same in front of a line break. -/
theorem piecesFrom_break {skip : Nat} (hskip : skip ≤ cs.length)
    (h : ∀ piece ∈ piecesFrom skip cs, ∀ cause, piece.content ≠ .error cause) :
    piecesFrom skip (cs ++ '\n' :: rest) =
      piecesFrom skip cs ++ ⟨['\n'], .blank⟩ :: pieces rest := by
  induction cs generalizing skip with
  | nil =>
    obtain rfl : skip = 0 := Nat.le_zero.mp hskip
    rfl
  | cons c cs ih =>
    cases skip with
    | succ skip => exact ih (Nat.le_of_succ_le_succ hskip) h
    | zero =>
      rw [piecesFrom, List.forall_mem_cons] at h
      rw [List.cons_append, piecesFrom, piecesFrom, next_break rest rfl h.1 (.inl rfl),
        ih (span_append_drop c cs).2 h.2]
      rfl

end

/-- The items of pieces are followed by those of further pieces, in place of the end. -/
theorem itemsFrom_append (line : Nat) (front : List Piece) :
    ∃ items, ∀ pieces, itemsFrom line (front ++ pieces) =
      items ++ itemsFrom (line + (front.flatMap Piece.span).count '\n') pieces := by
  induction front generalizing line with
  | nil => exact ⟨[], fun pieces => rfl⟩
  | cons piece front ih =>
    obtain ⟨items, hitems⟩ := ih (line + piece.span.count '\n')
    refine ⟨(piece.item? (line + piece.span.count '\n')).toList ++ items, fun pieces => ?_⟩
    rw [List.cons_append, itemsFrom, hitems, List.append_assoc, List.flatMap_cons,
      List.count_append, Nat.add_assoc]

/-- The item on another line. -/
def Item.onLine (line : Nat → Nat) : Item → Item
  | .ok token => .ok (token.onLine line)
  | .error error => .error ⟨error.cause, line error.line⟩

/-- Pieces that start further down have their items further down. -/
theorem itemsFrom_add (line lines : Nat) (pieces : List Piece) :
    itemsFrom (line + lines) pieces = (itemsFrom line pieces).map (Item.onLine (· + lines)) := by
  induction pieces generalizing line with
  | nil => rfl
  | cons piece pieces ih =>
    have hline : line + lines + piece.span.count '\n' = line + piece.span.count '\n' + lines := by
      omega
    rw [itemsFrom, itemsFrom, List.map_append, hline, ih]
    unfold Piece.item?
    split <;> rfl

theorem tokens_onLine (line : Nat → Nat) (items : List Item) :
    tokens (items.map (Item.onLine line)) = (tokens items).map (Token.onLine line) := by
  rw [tokens, tokens, List.filterMap_map, List.map_filterMap]
  exact List.filterMap_congr fun item _ => by cases item <;> rfl

theorem errors_onLine_eq_nil (line : Nat → Nat) (items : List Item) :
    errors (items.map (Item.onLine line)) = [] ↔ errors items = [] := by
  rw [errors, errors, List.filterMap_eq_nil_iff, List.filterMap_eq_nil_iff, List.forall_mem_map]
  exact forall₂_congr fun item _ => by cases item <;> simp [Item.onLine]

/-- A piece with an error gives an error. -/
theorem content_ne_error {line : Nat} {pieces : List Piece}
    (h : errors (itemsFrom line pieces) = []) :
    ∀ piece ∈ pieces, ∀ cause, piece.content ≠ .error cause := by
  induction pieces generalizing line with
  | nil => exact nofun
  | cons piece pieces ih =>
    simp only [errors, itemsFrom, List.filterMap_append, List.append_eq_nil_iff] at h
    refine List.forall_mem_cons.mpr ⟨fun cause hcause => ?_, ih h.2⟩
    have hpiece := h.1
    rw [Piece.item?, hcause] at hpiece
    cases hpiece

end Lexer

/-- How many lines a source has before its last one. -/
def lineBreaks (source : String) : Nat := source.toList.count '\n'

namespace Lexer

/-- The tokens of a source without lexical errors and of a second one are those of both joined by a
line break; the lines of the second one's are counted on. -/
theorem tokens_joined {first : String} (second : String) (h : errors (items first) = []) :
    (∃ front last, tokens (items first) = front ++ [.endOfInput last] ∧
      (∀ token ∈ front, token.kind.isEnd = false ∧ token.Proper) ∧
      tokens (items (first ++ "\n" ++ second)) =
        front ++ (tokens (items second)).map (Token.onLine (· + (lineBreaks first + 1)))) ∧
    (errors (items (first ++ "\n" ++ second)) = [] ↔ errors (items second) = []) := by
  have hlist : (first ++ "\n" ++ second).toList = first.toList ++ '\n' :: second.toList := by
    simp
  have hpieces : pieces (first ++ "\n" ++ second).toList =
      pieces first.toList ++ ⟨['\n'], .blank⟩ :: pieces second.toList := by
    rw [hlist]
    exact piecesFrom_break second.toList (Nat.zero_le _) (content_ne_error h)
  obtain ⟨inner, hinner⟩ := itemsFrom_append 1 (pieces first.toList)
  have hcount : ((pieces first.toList).flatMap Piece.span).count '\n' = lineBreaks first := by
    rw [pieces, flatMap_span_piecesFrom (Nat.zero_le _)]
    rfl
  rw [hcount] at hinner
  have hfirst : items first = inner ++ [.ok (.endOfInput (1 + lineBreaks first))] := by
    have hnil := hinner []
    rwa [List.append_nil] at hnil
  have hjoined : items (first ++ "\n" ++ second) =
      inner ++ itemsFrom (1 + (lineBreaks first + 1)) (pieces second.toList) := by
    rw [items, hpieces, hinner]
    rfl
  constructor
  · obtain ⟨front, last, htokens, hfront⟩ := tokens_items first
    have hsplit : tokens (items first) = tokens inner ++ [.endOfInput (1 + lineBreaks first)] := by
      rw [hfirst, tokens, List.filterMap_append]
      rfl
    obtain ⟨rfl, -⟩ := List.append_inj' (hsplit.symm.trans htokens) rfl
    refine ⟨tokens inner, last, htokens, hfront, ?_⟩
    rw [hjoined, tokens, List.filterMap_append]
    exact congrArg (tokens inner ++ ·) (itemsFrom_add 1 _ _ ▸ tokens_onLine _ _)
  · rw [hfirst, errors, List.filterMap_append, List.append_eq_nil_iff] at h
    rw [hjoined, errors, List.filterMap_append, h.1, List.nil_append]
    exact itemsFrom_add 1 _ _ ▸ errors_onLine_eq_nil _ _

end Lexer
end Lox
