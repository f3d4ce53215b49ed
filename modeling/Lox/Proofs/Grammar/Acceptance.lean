import Lox.Proofs.Grammar.NearestElse
import Lox.Proofs.Grammar.StatementCompleteness

/-!
# Parsing is the grammar

A list of tokens is parsed without errors if and only if the grammar derives it. The trees are then
those of the derivation in which each `else` belongs to the nearest `if`; there is one such
derivation, apart from the numbers that the trees carry.
-/
namespace Lox.Program
open Lox.Parser

variable {front : List Token} {last : Token} {first : NodeId}

theorem endsInput_append (hfront : ∀ token ∈ front, token.kind.isEnd = false)
    (hlast : last.kind.isEnd = true) : EndsInput (front ++ [last]) :=
  ⟨front, last, rfl, hlast, hfront⟩

/-- The end of the input is the first token that ends it. -/
theorem eq_of_append_eq {used rest : List Token} {ending : Token}
    (hfront : ∀ token ∈ front, token.kind.isEnd = false) (hending : ending.kind.isEnd = true)
    (h : front ++ [last] = used ++ ending :: rest) :
    used = front := by
  rcases List.append_eq_append_iff.mp h with ⟨more, rfl, hmore⟩ | ⟨more, rfl, hmore⟩
  · cases more with
    | nil => rw [List.append_nil]
    | cons token more =>
      rw [List.cons_append, List.cons.injEq] at hmore
      exact absurd hmore.2 (by simp)
  · cases more with
    | nil => rw [List.append_nil]
    | cons token more =>
      rw [List.cons_append, List.cons.injEq] at hmore
      obtain ⟨rfl, -⟩ := hmore
      exact absurd (hfront ending (by simp)) (by simp [hending])

/-- Tokens that are parsed without errors are derivable, with these trees. -/
theorem derives_of_errors_eq_nil (hfront : ∀ token ∈ front, token.kind.isEnd = false)
    (hlast : last.kind.isEnd = true) (h : (ofTokens (front ++ [last]) first).errors = []) :
    Grammar.Program true front (ofTokens (front ++ [last]) first).statements := by
  obtain ⟨statements, s, hrun, -⟩ := exists_declarations (endsInput_append hfront hlast) first
    (front ++ [last]).length (front ++ [last]).length
  simp only [ofTokens, hrun] at h ⊢
  have hclean : s.errors = #[] := by
    rw [← Array.toList_eq_nil_iff]
    exact h
  obtain ⟨used, ending, rest, hused, hending, hderived⟩ :=
    reads_declarations _ _ (Nat.le_refl _) (Nat.lt_succ_self _) hrun hclean
  rw [← eq_of_append_eq hfront hending hused]
  exact hderived

/-- Derivable tokens are parsed without errors, and no other trees are derived from them. -/
theorem errors_eq_nil_of_derives (hlast : last.kind.isEnd = true) {trees : List Stmt}
    (h : Grammar.Program true front trees) :
    (ofTokens (front ++ [last]) first).errors = [] ∧
      Stmt.listUnnumbered (ofTokens (front ++ [last]) first).statements =
        Stmt.listUnnumbered trees := by
  obtain ⟨statements, s, hrun, -, herrors, hsame⟩ := accepts_declarations h hlast
    (Nat.le_refl _) (front ++ [last]).length.succ (Nat.le_succ _)
    { rest := front ++ [last], next := first } rfl
  simp only [ofTokens, hrun]
  exact ⟨by rw [herrors], hsame⟩

/-- Parsing accepts exactly the grammar and builds its trees. The tokens before the end of the input
are parsed without errors if and only if the grammar derives them; then the statements are a
derivation of these tokens in which each `else` is that of the nearest `if`, and every other such
derivation differs in nothing but numbers. -/
theorem accepts_exactly_grammar (hfront : ∀ token ∈ front, token.kind.isEnd = false)
    (hlast : last.kind.isEnd = true) (first : NodeId) :
    ((ofTokens (front ++ [last]) first).errors = [] ↔
      ∃ trees, Grammar.Program false front trees) ∧
    ((ofTokens (front ++ [last]) first).errors = [] →
      Grammar.Program true front (ofTokens (front ++ [last]) first).statements ∧
      ∀ trees, Grammar.Program true front trees → Stmt.listUnnumbered trees =
        Stmt.listUnnumbered (ofTokens (front ++ [last]) first).statements) := by
  refine ⟨⟨fun h => ?_, fun h => ?_⟩, fun h => ⟨?_, fun trees htrees => ?_⟩⟩
  · exact ⟨_, Grammar.many_ofNearest false (derives_of_errors_eq_nil hfront hlast h)⟩
  · obtain ⟨trees, htrees⟩ := h
    obtain ⟨trees', htrees'⟩ := Grammar.many_toNearest htrees
    exact (errors_eq_nil_of_derives hlast htrees').1
  · exact derives_of_errors_eq_nil hfront hlast h
  · exact (errors_eq_nil_of_derives hlast htrees).2.symm

/-- Two `if`s before one `else`. -/
def danglingElse : List Token :=
  [⟨.symbol .kwIf, "if", 1⟩, ⟨.symbol .leftParen, "(", 1⟩, ⟨.identifier, "a", 1⟩,
    ⟨.symbol .rightParen, ")", 1⟩, ⟨.symbol .kwIf, "if", 1⟩, ⟨.symbol .leftParen, "(", 1⟩,
    ⟨.identifier, "b", 1⟩, ⟨.symbol .rightParen, ")", 1⟩, ⟨.identifier, "c", 1⟩,
    ⟨.symbol .semicolon, ";", 1⟩, ⟨.symbol .kwElse, "else", 1⟩, ⟨.identifier, "d", 1⟩,
    ⟨.symbol .semicolon, ";", 1⟩]

theorem accepts_exactly_grammar_danglingElse :
    (∀ token ∈ danglingElse, token.kind.isEnd = false) ∧ (Token.endOfInput 1).kind.isEnd = true ∧
    ((ofTokens (danglingElse ++ [.endOfInput 1]) 0).errors = [] ↔
      ∃ trees, Grammar.Program false danglingElse trees) ∧
    ((ofTokens (danglingElse ++ [.endOfInput 1]) 0).errors = [] →
      Grammar.Program true danglingElse (ofTokens (danglingElse ++ [.endOfInput 1]) 0).statements ∧
      ∀ trees, Grammar.Program true danglingElse trees → Stmt.listUnnumbered trees =
        Stmt.listUnnumbered (ofTokens (danglingElse ++ [.endOfInput 1]) 0).statements) :=
  have hfront : ∀ token ∈ danglingElse, token.kind.isEnd = false := by
    simp [danglingElse, Kind.isEnd]
  ⟨hfront, rfl, accepts_exactly_grammar hfront rfl 0⟩

example : (ofTokens (danglingElse ++ [.endOfInput 1]) 0).statements =
    [.ifElse (.variable 0 ⟨"a", 1⟩)
      (.ifElse (.variable 1 ⟨"b", 1⟩) (.expression (.variable 2 ⟨"c", 1⟩))
        (some (.expression (.variable 3 ⟨"d", 1⟩)))) none] := by cbv

end Lox.Program
