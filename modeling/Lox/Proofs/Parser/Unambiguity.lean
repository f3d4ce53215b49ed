import Lox.Proofs.Number.Literals
import Lox.Proofs.Parser.Provenance
import Lox.Proofs.Syntax.PrefixForm
import Lox.Proofs.Token.Grammar
import Lox.Session
import Mathlib

/-!
# The prefix form determines the tree

Names in a source are identifiers, and its numbers are not negative and never no number. So two
statements with one prefix form that are read from any sources, with errors or without, are the same
but for their lines and numbers, unless they contain strings or infinite numbers.
-/
namespace Lox

/-- The literal is neither a string nor an infinite number. -/
def Literal.IsPlain : Literal → Prop
  | .nil | .bool _ => True
  | .number value => ∀ negative, Number.Binary.ofFloat value ≠ .infinite negative
  | .string _ => False

/-- The statement stands in the program that is read from some source, whatever errors that has. -/
def Stmt.Parsed (s : Stmt) : Prop :=
  ∃ source first, ∃ t ∈ (Reading.ofSource source first).program.statements, s ∈ t.parts

namespace Lexer

theorem isWord_of_lexeme {text : String} (h : Lexeme text.toList (.token .identifier)) :
    Form.IsWord text := by
  have hplain {d : Char} (hd : isWordPart d = true) : Form.IsPlain d := by
    refine ⟨?_, ?_, ?_⟩ <;> rintro rfl <;> exact absurd hd (by decide)
  generalize htext : text.toList = chars at h
  cases h with
  | identifier hstart hparts hreserved =>
    refine ⟨by simp [htext], ?_, ?_⟩
    · rw [htext]
      exact List.forall_mem_cons.mpr ⟨hplain (isWordPart_of_isWordStart hstart), fun d hd =>
        hplain (hparts d hd)⟩
    · rw [htext]
      rintro d hd (hdigit | rfl | rfl)
      · obtain rfl := Option.some.inj hd
        rw [isDigit_of_isWordStart hstart] at hdigit
        exact absurd hdigit (by decide)
      · obtain rfl := Option.some.inj hd
        exact absurd hstart (by decide)
      · obtain rfl := Option.some.inj hd
        exact absurd hstart (by decide)

theorem not_mem_valueWords {text : String} (h : Lexeme text.toList (.token .identifier)) :
    text ∉ Form.valueWords := by
  have hvalues : ∀ word ∈ Form.valueWords, ∃ symbol ∈ Symbol.reservedWords,
      symbol.lexeme = word := by decide
  intro hmem
  obtain ⟨symbol, hsymbol, rfl⟩ := hvalues text hmem
  generalize htext : symbol.lexeme.toList = chars at h
  cases h with
  | identifier hstart hparts hreserved => exact hreserved symbol hsymbol htext.symm

/-- Names are identifiers, which are words, but none for a value. -/
theorem distinct_name {source : String} {token : Token} {name : Name}
    (h : token ∈ tokens (items source)) (hname : Parser.name? token = some name) :
    name.leaf.Distinct := by
  unfold Parser.name? at hname
  split at hname
  · next hkind =>
    obtain rfl := Option.some.inj hname
    obtain ⟨hend, -⟩ | hlexeme := lexeme_of_mem_tokens h
    · rw [hend] at hkind
      exact absurd hkind (by simp)
    · rw [hkind] at hlexeme
      exact ⟨isWord_of_lexeme hlexeme, not_mem_valueWords hlexeme⟩
  · exact absurd hname (by simp)

theorem not_nan_of_lexeme {chars : List Char} {value : Float}
    (h : Lexeme chars (.token (.number value))) : Number.Binary.ofFloat value ≠ .nan := by
  cases h with
  | integer _ _ => exact Number.ofLiteral_ne_nan _ _
  | decimal _ _ _ _ => exact Number.ofLiteral_ne_nan _ _

/-- Numbers that are not infinite are finite. -/
theorem distinct_literal {source : String} {token : Token} {value : Literal}
    (h : token ∈ tokens (items source)) (hvalue : Parser.literal? token = some value)
    (hplain : value.IsPlain) : (Leaf.literal value).Distinct := by
  cases value with
  | nil | bool _ => trivial
  | string _ => exact absurd hplain id
  | number value =>
    have hkind : token.kind = .number value := by
      unfold Parser.literal? at hvalue
      split at hvalue <;> simp_all
    obtain ⟨hend, -⟩ | hlexeme := lexeme_of_mem_tokens h
    · rw [hend] at hkind
      exact absurd hkind (by simp)
    rw [hkind] at hlexeme
    have hnan := not_nan_of_lexeme hlexeme
    cases hbinary : Number.Binary.ofFloat value with
    | nan => exact absurd hbinary hnan
    | infinite negative => exact absurd hbinary (hplain negative)
    | finite negative magnitude => exact ⟨negative, magnitude, hbinary⟩

end Lexer

theorem Stmt.Parsed.distinct {s : Stmt} (h : s.Parsed)
    (hplain : ∀ value, .literal value ∈ s.leaves → value.IsPlain) :
    ∀ leaf ∈ s.leaves, leaf.Distinct := by
  obtain ⟨source, first, t, ht, hpart⟩ := h
  intro leaf hleaf
  have hfrom := Program.from_tokens _ _ t ht leaf (Stmt.leaves_subset_of_mem_parts t hpart hleaf)
  cases hfrom with
  | name hmem hname => exact Lexer.distinct_name hmem hname
  | literal hmem hvalue => exact Lexer.distinct_literal hmem hvalue (hplain _ hleaf)
  | always => trivial

/-- Two statements that are read from sources and have one prefix form are the same but for their
lines and numbers, if they contain neither strings nor infinite numbers. -/
theorem Stmt.Parsed.eq_of_prefixForm {s t : Stmt} (hs : s.Parsed) (ht : t.Parsed)
    (hplain : ∀ value, .literal value ∈ s.leaves → value.IsPlain)
    (hplain' : ∀ value, .literal value ∈ t.leaves → value.IsPlain)
    (h : s.prefixForm = t.prefixForm) : s.onLines (fun _ => 0) = t.onLines (fun _ => 0) :=
  Stmt.onLines_eq_of_prefixForm (hs.distinct hplain) (ht.distinct hplain') h

/-- A string is printed without its quotation marks, so it may look like a name. -/
example : (Stmt.print (.literal (.string "a"))).prefixForm =
    (Stmt.print (.variable 0 ⟨"a", 1⟩)).prefixForm := rfl

/-- The source `call(group);`, in which a function and a variable are named like the heads of lists,
and the same on other lines and with other numbers. -/
theorem Stmt.eq_of_prefixForm_headWords :
    let s : Stmt := .expression (.call (.variable 0 ⟨"call", 1⟩) 1 [.variable 1 ⟨"group", 1⟩])
    let t : Stmt := .expression (.call (.variable 7 ⟨"call", 2⟩) 3 [.variable 8 ⟨"group", 3⟩])
    s.Parsed ∧ t.Parsed ∧ s.prefixForm = t.prefixForm ∧
      s.onLines (fun _ => 0) = t.onLines (fun _ => 0) := by
  intro s t
  have hsource : (Reading.ofSource "call(group);" 0).program.statements = [s] := by cbv
  have htarget : (Reading.ofSource "\ncall(\ngroup);" 7).program.statements = [t] := by cbv
  have hs : s.Parsed := ⟨_, 0, s, hsource ▸ List.mem_singleton_self s, List.mem_singleton_self s⟩
  have ht : t.Parsed := ⟨_, 7, t, htarget ▸ List.mem_singleton_self t, List.mem_singleton_self t⟩
  have hform : s.prefixForm = t.prefixForm := rfl
  refine ⟨hs, ht, hform, hs.eq_of_prefixForm ht ?_ ?_ hform⟩
  · intro value hvalue
    simp [s, Stmt.leaves, Expr.leaves, Expr.leaves.listLeaves, Name.leaf] at hvalue
  · intro value hvalue
    simp [t, Stmt.leaves, Expr.leaves, Expr.leaves.listLeaves, Name.leaf] at hvalue

end Lox
