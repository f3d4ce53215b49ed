import Lox.Proofs.Grammar.Acceptance
import Lox.Proofs.Parser.Depth
import Lox.Proofs.Parser.Lines
import Lox.Proofs.Parser.Locality

/-!
# Parsing goes on from declaration to declaration

Declarations that are parsed without errors are parsed in the same way in front of other tokens,
unless an `else` comes next. What is parsed behind them does not depend on them, be it correct or
not. So an error leaves the declarations before it as they are.
-/
namespace Lox
namespace Parser
open Grammar

/-- After derivable declarations the loop over all declarations is where they end, with their
trees and without an error. -/
theorem declarations_behind {tokens : List Token} {statements : List Stmt}
    (h : Many (Declaration true) tokens statements) {next : Token} {rest : List Token}
    (hnext : next.kind ≠ .symbol .kwElse) {depth : Nat}
    (hdepth : (tokens ++ next :: rest).length ≤ depth) (limit : Nat) {s : State}
    (hs : s.rest = tokens ++ next :: rest) :
    ∃ trees t, t.rest = next :: rest ∧ t.errors = s.errors ∧
      Stmt.listUnnumbered trees = Stmt.listUnnumbered statements ∧
      ∀ others u, declarations depth limit t = .ok others u →
        declarations depth (statements.length + limit) s = .ok (trees ++ others) u := by
  induction h generalizing s with
  | nil =>
    refine ⟨[], s, hs, rfl, rfl, fun others u hrun => ?_⟩
    rw [List.length_nil, Nat.zero_add, List.nil_append, hrun]
  | @cons tokens others first statements hfirst hothers ih =>
    obtain ⟨token, tail, rfl, hgoes⟩ := startsItem_declaration _ _ hfirst
    rw [List.append_assoc] at hs hdepth
    obtain ⟨next', rest', hbehind, helse⟩ :=
      many_next startsItem_declaration hothers next rest hnext
    have hread := (takes_innerAt depth).declarations (token :: tail) first next' rest' hfirst
      (by rw [← hbehind]; exact hdepth) helse
    rw [← hbehind] at hread
    obtain ⟨o, t, hrun, ht, herrors, result, rfl, hresult⟩ := hread s hs
    have hrun : declaration depth s = .ok (some result) t := hrun
    have hdepth' : (others ++ next :: rest).length ≤ depth := by
      simp only [List.length_append, List.length_cons] at hdepth ⊢
      omega
    obtain ⟨trees, u, hu, herrors', htrees, hruns⟩ := ih hdepth' ht
    refine ⟨result :: trees, u, hu, herrors'.trans herrors, ?_, fun following v hv => ?_⟩
    · rw [Stmt.listUnnumbered, Stmt.listUnnumbered, hresult, htrees]
    · have hlimit : (first :: statements).length + limit = statements.length + limit + 1 := by
        rw [List.length_cons]
        omega
      rw [hlimit, declarations, bind_of_ok (atEnd_of_rest hs), isEnd_of_goesOn hgoes]
      simp only [Bool.false_eq_true, ↓reduceIte]
      rw [bind_of_ok hrun, bind_of_ok (hruns following v hv)]
      rfl

/-- The first of the tokens up to the end of the input. -/
theorem exists_next {other : List Token} {last : Token} (hlast : last.kind.isEnd = true)
    (helse : ∀ token ∈ other.head?, token.kind ≠ .symbol .kwElse) :
    ∃ next rest, other ++ [last] = next :: rest ∧ next.kind ≠ .symbol .kwElse := by
  cases other with
  | nil =>
    refine ⟨last, [], rfl, fun hk => ?_⟩
    rw [hk] at hlast
    exact nomatch hlast
  | cons token others => exact ⟨token, others ++ [last], rfl, helse token rfl⟩

end Parser
open Lox.Parser

/-- Tokens that are parsed without errors, in front of others that do not start with `else`: the
statements are those of the first tokens and then those of the others alone, up to the numbers, and
the errors are those of the others alone. -/
theorem Program.ofTokens_append {front other : List Token} {last last' : Token}
    (hfront : ∀ token ∈ front, token.kind.isEnd = false)
    (hother : ∀ token ∈ other, token.kind.isEnd = false) (hlast : last.kind.isEnd = true)
    (hlast' : last'.kind.isEnd = true) {first : NodeId}
    (h : (ofTokens (front ++ [last]) first).errors = [])
    (helse : ∀ token ∈ other.head?, token.kind ≠ .symbol .kwElse) (second third : NodeId) :
    let both := ofTokens (front ++ other ++ [last']) second
    let alone := ofTokens (other ++ [last']) third
    both.errors = alone.errors ∧
      Stmt.listUnnumbered both.statements =
        Stmt.listUnnumbered (ofTokens (front ++ [last]) first).statements ++
          Stmt.listUnnumbered alone.statements := by
  intro both alone
  have hends : EndsInput (other ++ [last']) := endsInput_append hother hlast'
  have hboth : EndsInput (front ++ (other ++ [last'])) := by
    rw [← List.append_assoc]
    exact endsInput_append (List.forall_mem_append.mpr ⟨hfront, hother⟩) hlast'
  obtain ⟨next, rest, hnext, hnextElse⟩ := exists_next hlast' helse
  -- The declarations of `front` are run through; then what is left is parsed as if it were alone.
  have hderives := derives_of_errors_eq_nil hfront hlast h
  have hstart : State.rest { rest := front ++ (other ++ [last']), next := second } =
      front ++ next :: rest := by rw [← hnext]
  have hlength : (other ++ [last']).length ≤ (front ++ (other ++ [last'])).length := by simp
  obtain ⟨trees, t, ht, herrors, htrees, hruns⟩ := declarations_behind hderives hnextElse
    (Nat.le_of_eq (congrArg List.length hstart.symm)) ((front ++ (other ++ [last'])).length + 1) hstart
  rw [← hnext] at ht
  obtain ⟨others, u, v, hu, hv, hadded⟩ := declarations_alone (s := t) (by rw [ht]; exact hends)
    (front ++ (other ++ [last'])).length (front ++ (other ++ [last'])).length
  rw [ht] at hv
  have hrunBoth : both = ⟨trees ++ others, u.errors.toList, u.next, none⟩ := by
    have hrun := hruns others u hu
    rw [show both = ofTokens (front ++ (other ++ [last'])) second by rw [← List.append_assoc]]
    exact ofTokens_of_run hboth (Nat.le_refl _) (by omega) hrun
  have hrunAlone : ofTokens (other ++ [last']) t.next = ⟨others, v.errors.toList, v.next, none⟩ :=
    ofTokens_of_run hends hlength (by omega) hv
  obtain ⟨hsame, hsameErrors⟩ := ofTokens_unnumbered (other ++ [last']) third t.next
  rw [hrunAlone] at hsame hsameErrors
  rw [hrunBoth]
  refine ⟨?_, ?_⟩
  · rw [← hsameErrors, hadded, herrors]
    rfl
  · rw [Stmt.listUnnumbered_append, htrees, hsame]

/-- The tokens of `b = ; print c;`. -/
def brokenAssignment : List Token :=
  [⟨.identifier, "b", 1⟩, ⟨.symbol .equal, "=", 1⟩, ⟨.symbol .semicolon, ";", 1⟩,
    ⟨.symbol .kwPrint, "print", 1⟩, ⟨.identifier, "c", 1⟩, ⟨.symbol .semicolon, ";", 1⟩]

/-- In front of the broken assignment stands a statement that an `else` could go on with. -/
theorem Program.ofTokens_append_brokenAssignment :
    (∀ token ∈ danglingElse, token.kind.isEnd = false) ∧
      (∀ token ∈ brokenAssignment, token.kind.isEnd = false) ∧
      (ofTokens (danglingElse ++ [.endOfInput 1]) 0).errors = [] ∧
      (∀ token ∈ brokenAssignment.head?, token.kind ≠ .symbol .kwElse) ∧
      (ofTokens (danglingElse ++ brokenAssignment ++ [.endOfInput 1]) 0).errors =
        [⟨.missing "expression", ⟨.symbol .semicolon, ";", 1⟩⟩] ∧
      Stmt.listUnnumbered
          (ofTokens (danglingElse ++ brokenAssignment ++ [.endOfInput 1]) 0).statements =
        Stmt.listUnnumbered (ofTokens (danglingElse ++ [.endOfInput 1]) 0).statements ++
          [.print (.variable 0 ⟨"c", 1⟩)] := by
  have hfront : ∀ token ∈ danglingElse, token.kind.isEnd = false := by
    simp [danglingElse, Kind.isEnd]
  have hother : ∀ token ∈ brokenAssignment, token.kind.isEnd = false := by
    simp [brokenAssignment, Kind.isEnd]
  have hclean : (ofTokens (danglingElse ++ [.endOfInput 1]) 0).errors = [] := by decide +kernel
  have helse : ∀ token ∈ brokenAssignment.head?, token.kind ≠ .symbol .kwElse := by
    simp [brokenAssignment]
  obtain ⟨herrors, hstatements⟩ :=
    @ofTokens_append _ _ _ (.endOfInput 1) hfront hother rfl rfl 0 hclean helse 0 0
  exact ⟨hfront, hother, hclean, helse, herrors, hstatements⟩

end Lox
