import Lox.Token.Lexer
import Lox.Proofs.Parser.Steps

/-!
# The tokens of a source

The tokens of every source end with the end of the input, and no identifier among them is written
like a reserved word. So no name in a program is `this` or `super`.
-/
namespace Lox

/-- An identifier is not written like a reserved word. -/
def Token.Proper (token : Token) : Prop :=
  ∀ symbol ∈ Symbol.reservedWords, token.kind = .identifier → token.lexeme ≠ symbol.lexeme

namespace Lexer

/-- A piece that is a token is not the end of the input, nor an identifier that is reserved. -/
def Piece.Regular (piece : Piece) : Prop :=
  ∀ kind, piece.content = .token kind → kind.isEnd = false ∧
    (kind = .identifier → Symbol.reservedWord? (String.ofList piece.span) = none)

theorem regular_string (cs : List Char) : (string cs).Regular := by
  intro kind h
  unfold string at h
  dsimp only at h
  split at h
  · exact absurd h (by simp)
  · simp only [Content.token.injEq] at h
    subst h
    exact ⟨rfl, nofun⟩

theorem regular_number (cs : List Char) : (number cs).Regular := by
  intro kind h
  unfold number at h
  split at h
  · split at h <;>
    · simp only [Content.token.injEq] at h
      subst h
      exact ⟨rfl, nofun⟩
  · simp only [Content.token.injEq] at h
    subst h
    exact ⟨rfl, nofun⟩

theorem regular_word (cs : List Char) : (word cs).Regular := by
  intro kind h
  unfold word at h ⊢
  dsimp only at h ⊢
  split at h
  · simp only [Content.token.injEq] at h
    subst h
    exact ⟨rfl, nofun⟩
  · next hword =>
    simp only [Content.token.injEq] at h
    subst h
    rw [hword]
    exact ⟨rfl, fun _ => rfl⟩

theorem regular_comment? {cs : List Char} {piece : Piece} (h : comment? cs = some piece) :
    piece.Regular := by
  intro kind hkind
  unfold comment? at h
  split at h
  · simp only [Option.some.injEq] at h
    subst h
    exact absurd hkind (by simp)
  · split at h <;>
    · simp only [Option.some.injEq] at h
      subst h
      exact absurd hkind (by simp)
  · exact absurd h (by simp)

theorem regular_symbol? {c : Char} {cs : List Char} {piece : Piece}
    (h : symbol? c cs = some piece) : piece.Regular := by
  intro kind hkind
  unfold symbol? at h
  split at h
  · simp only [Option.some.injEq] at h
    subst h
    simp only [Content.token.injEq] at hkind
    subst hkind
    exact ⟨rfl, nofun⟩
  · obtain ⟨symbol, -, rfl⟩ := Option.map_eq_some_iff.mp h
    simp only [Content.token.injEq] at hkind
    subst hkind
    exact ⟨rfl, nofun⟩

theorem regular_next (c : Char) (cs : List Char) : (next c cs).Regular := by
  unfold next
  split
  · exact fun kind h => absurd h (by simp)
  split
  · exact regular_string cs
  split
  · exact regular_number _
  split
  · exact regular_word _
  split
  · next piece hpiece =>
    split at hpiece
    · exact regular_comment? hpiece
    · exact absurd hpiece (by simp)
  · cases h : symbol? c cs with
    | some piece => exact regular_symbol? h
    | none => exact fun kind h => absurd h (by simp)

theorem regular_of_mem {skip : Nat} {cs : List Char} {piece : Piece}
    (h : piece ∈ piecesFrom skip cs) : piece.Regular := by
  induction cs generalizing skip with
  | nil => exact absurd h (by simp [piecesFrom])
  | cons c cs ih =>
    cases skip with
    | succ skip => exact ih h
    | zero =>
      simp only [piecesFrom, List.mem_cons] at h
      obtain rfl | h := h
      · exact regular_next c cs
      · exact ih h

/-- The tokens of regular pieces: proper tokens, and then the end of the input. -/
theorem tokens_itemsFrom (line : Nat) {pieces : List Piece} (h : ∀ piece ∈ pieces, piece.Regular) :
    ∃ front last, tokens (itemsFrom line pieces) = front ++ [.endOfInput last] ∧
      ∀ token ∈ front, token.kind.isEnd = false ∧ token.Proper := by
  induction pieces generalizing line with
  | nil => exact ⟨[], line, rfl, nofun⟩
  | cons piece pieces ih =>
    obtain ⟨front, last, heq, hfront⟩ :=
      ih (line + piece.span.count '\n') fun p hp => h p (List.mem_cons_of_mem _ hp)
    have hpiece := h piece (List.mem_cons_self ..)
    simp only [tokens] at heq ⊢
    simp only [itemsFrom, Piece.item?]
    split
    · exact ⟨front, last, by simpa [tokens] using heq, hfront⟩
    · next kind hkind =>
      obtain ⟨hend, hword⟩ := hpiece kind hkind
      refine ⟨⟨kind, String.ofList piece.span, line + piece.span.count '\n'⟩ :: front, last, ?_, ?_⟩
      · simpa [tokens, Except.toOption] using heq
      · intro token htoken
        obtain rfl | htoken := List.mem_cons.mp htoken
        · refine ⟨hend, fun symbol hsymbol hid heqs => ?_⟩
          have hfind := hword hid
          rw [Symbol.reservedWord?, List.find?_eq_none] at hfind
          exact hfind symbol hsymbol (by simpa using heqs.symm)
        · exact hfront token htoken
    · exact ⟨front, last, by simpa [List.filterMap_cons, Except.toOption] using heq, hfront⟩

theorem tokens_items (source : String) :
    ∃ front last, tokens (items source) = front ++ [.endOfInput last] ∧
      ∀ token ∈ front, token.kind.isEnd = false ∧ token.Proper :=
  tokens_itemsFrom 1 fun _ h => regular_of_mem h

theorem endsInput_tokens (source : String) : Parser.EndsInput (tokens (items source)) := by
  obtain ⟨front, last, heq, hfront⟩ := tokens_items source
  exact ⟨front, .endOfInput last, heq, rfl, fun token h => (hfront token h).1⟩

theorem proper_of_mem_tokens {source : String} {token : Token}
    (h : token ∈ tokens (items source)) : token.Proper := by
  obtain ⟨front, last, heq, hfront⟩ := tokens_items source
  rw [heq, List.mem_append, List.mem_singleton] at h
  obtain h | rfl := h
  · exact (hfront token h).2
  · exact fun _ _ h => absurd h (by simp [Token.endOfInput])

end Lexer
end Lox
