import Lox.Proofs.Token.Grammar
import Lox.Proofs.Token.Lexemes
import Lox.Token.Scanner
import Mathlib.Data.List.Forall2

/-!
# Maximal munch

The pieces of a source are those that the lexical grammar cuts off it, one after another from left
to right. They cover the source, byte for byte. The items are those of the pieces that are no white
space and no comment, and then the end of the input. A scanner hands out the items one at a time:
after the end of the input it has nothing more.
-/
namespace Lox.Lexer

/-- The characters are cut into the pieces, each the one that the grammar says. -/
inductive Munched : List Char → List Piece → Prop
  | done : Munched [] []
  | cut {piece : Piece} {rest : List Char} {pieces : List Piece} :
      Munch (piece.span ++ rest) piece → Munched rest pieces →
      Munched (piece.span ++ rest) (piece :: pieces)

theorem Munch.ne_nil {cs : List Char} {piece : Piece} (h : Munch cs piece) : cs ≠ [] := by
  rintro rfl
  cases h with
  | lexeme _ hlexeme hprefix _ => exact hlexeme.ne_nil (List.prefix_nil.mp hprefix)
  | unclosed hcause => cases hcause

theorem Munch.span_ne_nil {cs : List Char} {piece : Piece} (h : Munch cs piece) :
    piece.span ≠ [] := by
  cases h with
  | lexeme _ hlexeme _ _ => exact hlexeme.ne_nil
  | unclosed hcause => exact (Munch.unclosed hcause).ne_nil
  | unexpected _ _ => simp

theorem piecesFrom_eq (skip : Nat) (cs : List Char) :
    piecesFrom skip cs = pieces (cs.drop skip) := by
  induction cs generalizing skip with
  | nil => cases skip <;> rfl
  | cons c cs ih =>
    cases skip with
    | zero => rfl
    | succ skip => exact ih skip

theorem pieces_cons (c : Char) (cs : List Char) :
    pieces (c :: cs) = next c cs :: pieces (cs.drop ((next c cs).span.length - 1)) := by
  rw [pieces, piecesFrom, piecesFrom_eq]

theorem munched_pieces (cs : List Char) : Munched cs (pieces cs) := by
  induction hlength : cs.length using Nat.strong_induction_on generalizing cs with
  | _ n ih =>
    subst hlength
    cases cs with
    | nil => exact .done
    | cons c cs =>
      obtain ⟨hsplit, hle⟩ := span_append_drop c cs
      have hrest := ih _ (length_drop_lt ..) (cs.drop ((next c cs).span.length - 1)) rfl
      have hcut := Munched.cut (hsplit.symm ▸ munch_next c cs) hrest
      rwa [hsplit, ← pieces_cons] at hcut

theorem Munched.eq_pieces {cs : List Char} {cut : List Piece} (h : Munched cs cut) :
    cut = pieces cs := by
  induction h with
  | done => rfl
  | @cut piece rest _ hmunch _ ih =>
    obtain ⟨c, cs, hcs⟩ := List.exists_cons_of_ne_nil hmunch.ne_nil
    rw [hcs] at hmunch ⊢
    obtain rfl := hmunch.eq_next
    have hrest : cs.drop ((next c cs).span.length - 1) = rest :=
      List.append_cancel_left ((span_append_drop c cs).1.trans hcs.symm)
    rw [pieces_cons, hrest, ih]

theorem Munched.span_ne_nil {cs : List Char} {cut : List Piece} (h : Munched cs cut) :
    ∀ piece ∈ cut, piece.span ≠ [] := by
  induction h with
  | done => exact nofun
  | cut hmunch _ ih => exact List.forall_mem_cons.mpr ⟨hmunch.span_ne_nil, ih⟩

theorem Munched.flatMap_span {cs : List Char} {cut : List Piece} (h : Munched cs cut) :
    cut.flatMap Piece.span = cs := by
  induction h with
  | done => rfl
  | cut _ _ ih => rw [List.flatMap_cons, ih]

/-- A piece is cut off itself and all the pieces behind it. -/
theorem Munched.munch {cs : List Char} {before after : List Piece} {piece : Piece}
    (h : Munched cs (before ++ piece :: after)) :
    Munch (piece.span ++ after.flatMap Piece.span) piece := by
  induction before generalizing cs with
  | nil =>
    cases h with
    | cut hmunch hafter => rwa [hafter.flatMap_span]
  | cons first before ih =>
    cases h with
    | cut _ hrest => exact ih hrest

/-- The bytes of a piece in the source. -/
def Piece.bytes (piece : Piece) : List UInt8 := (String.ofList piece.span).toByteArray.data.toList

theorem flatMap_bytes (cut : List Piece) :
    cut.flatMap Piece.bytes =
      (String.ofList (cut.flatMap Piece.span)).toByteArray.data.toList := by
  induction cut with
  | nil => rfl
  | cons piece cut ih =>
    rw [List.flatMap_cons, List.flatMap_cons, ih, String.ofList_append, String.toByteArray_append,
      ByteArray.data_append, Array.toList_append]
    rfl

theorem Piece.bytes_ne_nil {piece : Piece} (h : piece.span ≠ []) : piece.bytes ≠ [] := by
  intro hbytes
  have hempty : (String.ofList piece.span).toByteArray = (String.ofList []).toByteArray := by
    apply ByteArray.ext
    exact Array.toList_inj.mp hbytes
  exact h (String.ofList_injective (String.toByteArray_inj.mp hempty))

/-- The piece is neither white space nor a comment. -/
def Piece.shows (piece : Piece) : Bool :=
  match piece.content with
  | .blank => false
  | _ => true

/-- The item is that of the piece. -/
def Piece.Yields (piece : Piece) : Item → Prop
  | .ok token => piece.content = .token token.kind ∧ token.lexeme = String.ofList piece.span ∧
      token.kind.isEnd = false
  | .error error => piece.content = .error error.cause

theorem itemsFrom_eq (line : Nat) {cut : List Piece} (h : ∀ piece ∈ cut, piece.Regular) :
    ∃ front last, itemsFrom line cut = front ++ [.ok (.endOfInput last)] ∧
      List.Forall₂ Piece.Yields (cut.filter Piece.shows) front := by
  induction cut generalizing line with
  | nil => exact ⟨[], line, rfl, .nil⟩
  | cons piece cut ih =>
    rw [List.forall_mem_cons] at h
    obtain ⟨front, last, hitems, hyields⟩ := ih (line + piece.span.count '\n') h.2
    simp only [itemsFrom, hitems]
    unfold Piece.item?
    split
    · next hblank =>
      have hhidden : piece.shows = false := by rw [Piece.shows, hblank]
      refine ⟨front, last, rfl, ?_⟩
      rwa [List.filter_cons_of_neg (by simp [hhidden])]
    · next kind hkind =>
      have hshows : piece.shows = true := by rw [Piece.shows, hkind]
      refine ⟨_ :: front, last, rfl, ?_⟩
      rw [List.filter_cons_of_pos hshows]
      exact .cons ⟨hkind, rfl, (h.1 kind hkind).1⟩ hyields
    · next cause hcause =>
      have hshows : piece.shows = true := by rw [Piece.shows, hcause]
      refine ⟨_ :: front, last, rfl, ?_⟩
      rw [List.filter_cons_of_pos hshows]
      exact .cons hcause hyields

namespace Scanner

/-- The items that are still to come. -/
def items (scanner : Scanner) : List Item :=
  match scanner.rest with
  | none => []
  | some rest => itemsFrom scanner.line (pieces rest)

theorem items_scan (line : Nat) (cs : List Char) :
    itemsFrom line (pieces cs) = (scan line cs).1 :: (scan line cs).2.items := by
  fun_induction scan line cs with
  | case1 => rfl
  | case2 line c cs piece after rest item hitem =>
    rw [pieces_cons, itemsFrom]
    simp only [piece, after] at hitem
    simp [hitem, items, piece, after, rest]
  | case3 line c cs piece after rest hitem ih =>
    rw [pieces_cons, itemsFrom]
    simp only [piece, after] at hitem
    simp [hitem, ← ih, piece, after, rest]

theorem next?_fst (scanner : Scanner) : scanner.next?.1 = scanner.items.head? := by
  match scanner with
  | ⟨none, line⟩ => rfl
  | ⟨some rest, line⟩ =>
    have hitems := congrArg List.head? (items_scan line rest)
    exact hitems.symm

theorem items_next? (scanner : Scanner) : scanner.next?.2.items = scanner.items.tail := by
  match scanner with
  | ⟨none, line⟩ => rfl
  | ⟨some rest, line⟩ =>
    have hitems := congrArg List.tail (items_scan line rest)
    exact hitems.symm

theorem answer_eq (scanner : Scanner) (n : Nat) : scanner.answer n = scanner.items[n]? := by
  induction n generalizing scanner with
  | zero => rw [answer, next?_fst, List.head?_eq_getElem?]
  | succ n ih => rw [answer, ih, items_next?, List.getElem?_tail]

end Scanner

/-- A source is cut in one way only, which the lexical grammar gives: the pieces are not empty and
cover the source, byte for byte. The items are those of the pieces that are neither white space nor
comments. A scanner hands out these, then the end of the input, and then nothing. -/
theorem scanner_munches (source : String) :
    ∃ cut front last,
      (∀ other, Munched source.toList other ↔ other = cut) ∧
      (∀ piece ∈ cut, piece.bytes ≠ []) ∧
      cut.flatMap Piece.bytes = source.toByteArray.data.toList ∧
      List.Forall₂ Piece.Yields (cut.filter Piece.shows) front ∧
      items source = front ++ [.ok (.endOfInput last)] ∧
      ∀ n, (Scanner.ofSource source).answer n = (front ++ [.ok (.endOfInput last)])[n]? := by
  have hmunched := munched_pieces source.toList
  obtain ⟨front, last, hitems, hyields⟩ :=
    @itemsFrom_eq 1 (pieces source.toList) fun _ => regular_of_mem
  refine ⟨pieces source.toList, front, last, fun other => ⟨Munched.eq_pieces, ?_⟩, ?_, ?_, hyields,
    hitems, fun n => ?_⟩
  · rintro rfl
    exact hmunched
  · exact fun piece hpiece => Piece.bytes_ne_nil (hmunched.span_ne_nil piece hpiece)
  · rw [flatMap_bytes, hmunched.flatMap_span, String.ofList_toList]
  · rw [Scanner.answer_eq, ← hitems]
    rfl

end Lox.Lexer
