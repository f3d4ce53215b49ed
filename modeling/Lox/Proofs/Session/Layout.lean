import Lox.Proofs.Session.Alike
import Lox.Proofs.Token.Grammar

/-!
# Layout does not matter

Two sources may differ in what stands between their tokens: in blanks, line breaks and comments.
Then their tokens stand on different lines and are the same otherwise, since the text of a token
tells its kind. If all lines are taken for one, nothing tells the sources apart. So they do the same,
and sources that are run later, and may call what they have declared, do the same after either of
them; only the lines of errors differ.
-/
namespace Lox
open Evaluation

/-- The diagnostics are of the same kind, point at the same text and have the same message. -/
inductive Diagnostic.SameButLine : Diagnostic → Diagnostic → Prop
  | lexical (n n' : Nat) (message : String) : SameButLine (.lexical n message) (.lexical n' message)
  | syntactic (n n' : Nat) (location message : String) :
      SameButLine (.syntactic n location message) (.syntactic n' location message)
  | resolution (n n' : Nat) (location message : String) :
      SameButLine (.resolution n location message) (.resolution n' location message)
  | runtime (n n' : Nat) (message : String) : SameButLine (.runtime n message) (.runtime n' message)
  | inputOutput (message : String) : SameButLine (.inputOutput message) (.inputOutput message)

/-- What the runs show is the same but for the lines of the diagnostics. -/
structure Outcome.SameButLines (shown shown' : Outcome) : Prop where
  status : shown.status = shown'.status
  output : shown.output = shown'.output
  fault : shown.fault? = shown'.fault?
  diagnostics : List.Forall₂ Diagnostic.SameButLine shown.diagnostics shown'.diagnostics

theorem Diagnostic.SameButLine.of_onLine {line : Nat → Nat} {d d' : Diagnostic}
    (h : d.onLine line = d'.onLine line) : d.SameButLine d' := by
  cases d with
  | lexical n message =>
    cases d' with
    | lexical n' message' =>
      obtain ⟨-, rfl⟩ := Diagnostic.lexical.inj h
      exact .lexical n n' message
    | _ => cases h
  | syntactic n location message =>
    cases d' with
    | syntactic n' location' message' =>
      obtain ⟨-, rfl, rfl⟩ := Diagnostic.syntactic.inj h
      exact .syntactic n n' location message
    | _ => cases h
  | resolution n location message =>
    cases d' with
    | resolution n' location' message' =>
      obtain ⟨-, rfl, rfl⟩ := Diagnostic.resolution.inj h
      exact .resolution n n' location message
    | _ => cases h
  | runtime n message =>
    cases d' with
    | runtime n' message' =>
      obtain ⟨-, rfl⟩ := Diagnostic.runtime.inj h
      exact .runtime n n' message
    | _ => cases h
  | inputOutput message =>
    cases d' with
    | inputOutput message' =>
      obtain rfl := Diagnostic.inputOutput.inj h
      exact .inputOutput message
    | _ => cases h

theorem forall₂_of_map_eq {α β : Type} {f : α → β} {xs ys : List α} (h : xs.map f = ys.map f) :
    List.Forall₂ (fun x y => f x = f y) xs ys := by
  rwa [← List.forall₂_eq_eq_eq, List.forall₂_map_left_iff, List.forall₂_map_right_iff] at h

theorem Outcome.SameButLines.of_onLines {line : Nat → Nat} {shown shown' : Outcome}
    (h : shown.onLines line = shown'.onLines line) : shown.SameButLines shown' := by
  obtain ⟨hstatus, hdiagnostics, houtput, hfault⟩ := Outcome.mk.inj h
  exact ⟨hstatus, houtput, hfault, (forall₂_of_map_eq hdiagnostics).imp fun _ _ => .of_onLine⟩

/-- Sources without lexical errors are the same text, if all lines are taken for one, as soon as
their tokens are written the same. -/
theorem SameText.of_lexemes {source source' : String}
    (hclean : Lexer.errors (Lexer.items source) = [])
    (hclean' : Lexer.errors (Lexer.items source') = [])
    (hlexemes : (Lexer.tokens (Lexer.items source)).map Token.lexeme =
      (Lexer.tokens (Lexer.items source')).map Token.lexeme) :
    SameText (fun _ => 0) source source' := by
  refine ⟨?_, by rw [hclean, hclean']⟩
  refine List.ext_getElem ?_ fun i hi hi' => ?_
  · simpa using congrArg List.length hlexemes
  · rw [List.length_map] at hi hi'
    have hlexeme := List.getElem_of_eq hlexemes (by rwa [List.length_map])
    rw [List.getElem_map, List.getElem_map] at hlexeme ⊢
    have hkind := Lexer.kind_eq_of_lexeme (List.getElem_mem hi) (List.getElem_mem hi') hlexeme
    simp only [Token.onLine, hkind, hlexeme]

namespace Session

/-- After any sources it makes no difference which of two sources is run that have no lexical errors
and whose tokens are written the same: they print the same, end alike and report the same but for
lines. Whatever is run afterwards makes no difference either. -/
theorem layout_irrelevant (fuel : Nat) (before after : List String) {source source' : String}
    (hclean : Lexer.errors (Lexer.items source) = [])
    (hclean' : Lexer.errors (Lexer.items source') = [])
    (hlexemes : (Lexer.tokens (Lexer.items source)).map Token.lexeme =
      (Lexer.tokens (Lexer.items source')).map Token.lexeme) :
    let session := ((initial fuel).runAll before).2
    (session.run source).1.SameButLines (session.run source').1 ∧
      List.Forall₂ Outcome.SameButLines ((session.run source).2.runAll after).1
        ((session.run source').2.runAll after).1 := by
  intro session
  have hlinked := (linked_initial Lexical.invariant fuel).followAll before
  have halike : AlikeOn (fun _ => 0) session session _ _ := ⟨rfl, hlinked, hlinked, rfl⟩
  obtain ⟨hshown, l, l', hafter⟩ := halike.run (SameText.of_lexemes hclean hclean' hlexemes)
  have hall := forall₂_of_map_eq (hafter.runAll (SameText.all_refl _ after))
  exact ⟨.of_onLines hshown, hall.imp fun _ _ => .of_onLines⟩

/-- A function that fails, and a call of it. -/
def tightSource : String := "fun f() \x7b return -a; \x7d f();"

/-- The same tokens, with line breaks and comments between them. -/
def looseSource : String :=
  "fun f() \x7b // not a number\n  return\n    -a;\n\x7d /* called\n */ f();"

/-- The sources report the same on different lines, and so does what calls the function later. -/
theorem layout_irrelevant_loose :
    let session := ((initial 9).runAll ["var a = nil;"]).2
    Lexer.errors (Lexer.items tightSource) = [] ∧ Lexer.errors (Lexer.items looseSource) = [] ∧
      (Lexer.tokens (Lexer.items tightSource)).map Token.lexeme =
        (Lexer.tokens (Lexer.items looseSource)).map Token.lexeme ∧
      (session.run tightSource).1.diagnostics.map Diagnostic.line? = [some 1] ∧
      (session.run looseSource).1.diagnostics.map Diagnostic.line? = [some 3] ∧
      (session.run tightSource).1.SameButLines (session.run looseSource).1 ∧
      List.Forall₂ Outcome.SameButLines ((session.run tightSource).2.runAll ["f();"]).1
        ((session.run looseSource).2.runAll ["f();"]).1 := by
  have hclean : Lexer.errors (Lexer.items tightSource) = [] := by decide +kernel
  have hclean' : Lexer.errors (Lexer.items looseSource) = [] := by decide +kernel
  have hlexemes : (Lexer.tokens (Lexer.items tightSource)).map Token.lexeme =
      (Lexer.tokens (Lexer.items looseSource)).map Token.lexeme := by
    decide +kernel
  refine ⟨hclean, hclean', hlexemes, by decide +kernel, by decide +kernel, ?_⟩
  exact layout_irrelevant 9 ["var a = nil;"] ["f();"] hclean hclean' hlexemes

end Session
end Lox
