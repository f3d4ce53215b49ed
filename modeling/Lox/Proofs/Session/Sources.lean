import Lox.Proofs.Evaluation.Simulation
import Lox.Proofs.Parser.Numbering
import Lox.Session

/-!
# Sources of a session

What a session reads is always a program whose references have new numbers. A source is accepted
if it has no static error; only then is its program executed.
-/
namespace Lox.Session
open Evaluation

variable (session : Session) (source : String)

theorem fault?_read : (session.read source).1.program.fault? = none :=
  Program.fault?_ofTokens (Lexer.endsInput_tokens source) session.next

theorem fits_read : session.next ≤ (session.read source).2.next ∧
    Parser.FitsBody session.next (session.read source).2.next
      (session.read source).1.program.statements :=
  Program.fits_ofTokens (Lexer.endsInput_tokens source) (fun _ => Lexer.proper_of_mem_tokens)
    session.next

/-- The errors of a program in a session that has read the source. -/
theorem resolve_read (program : List Stmt) : ((session.read source).2.resolve program).1 =
    (Resolution.ofProgram session.knows session.machine.distances program).errors :=
  rfl

/-- The session in which a source is executed that has been read and resolved. -/
def resolved : Session :=
  ((session.read source).2.resolve (session.read source).1.program.statements).2

/-- The program of a source without static errors. -/
def accept? : Option (List Stmt) :=
  let (reading, next) := session.read source
  if reading.diagnostics.isEmpty ∧ (next.resolve reading.program.statements).1.isEmpty then
    some reading.program.statements
  else
    none

/-- What a step does in the machine of a session. -/
theorem perform_eq {α : Type} (step : Eval α) :
    session.perform step =
      let ended := step { session.machine with output := "" }
      (resultOf ended, (stateOf ended).output,
        ⟨{ stateOf ended with output := "" }, session.next, session.fuel⟩) := by
  unfold perform
  dsimp only
  split
  · next heq =>
    rw [heq]
    rfl
  · next heq =>
    rw [heq]
    rfl

variable {session source}

/-- A source is accepted exactly if neither its tokens nor its program have errors. -/
theorem accept?_eq_some {program : List Stmt} : session.accept? source = some program ↔
    (session.read source).1.program.statements = program ∧
      (session.read source).1.lexErrors = [] ∧ (session.read source).1.program.errors = [] ∧
        ((session.read source).2.resolve program).1 = [] := by
  unfold accept?
  dsimp only
  rw [Option.ite_none_right_eq_some, Option.some.injEq, List.isEmpty_iff, List.isEmpty_iff,
    Reading.diagnostics, List.append_eq_nil_iff, List.map_eq_nil_iff, List.map_eq_nil_iff]
  constructor
  · rintro ⟨⟨⟨hlexical, hsyntax⟩, hresolution⟩, rfl⟩
    exact ⟨rfl, hlexical, hsyntax, hresolution⟩
  · rintro ⟨rfl, hlexical, hsyntax, hresolution⟩
    exact ⟨⟨⟨hlexical, hsyntax⟩, hresolution⟩, rfl⟩

theorem statements_of_accept? {program : List Stmt} (h : session.accept? source = some program) :
    (session.read source).1.program.statements = program ∧
      ((session.read source).2.resolve program).1 = [] := by
  obtain ⟨hstatements, -, -, hresolution⟩ := accept?_eq_some.mp h
  exact ⟨hstatements, hresolution⟩

/-- An accepted source is executed. -/
theorem run_of_accept? {program : List Stmt} (h : session.accept? source = some program) :
    session.run source =
      let (result, output, after) :=
        (session.resolved source).perform (interpret session.fuel program)
      (outcome result output, after) := by
  unfold accept? at h
  dsimp only at h
  split at h
  · next hempty =>
    cases h
    unfold run
    have hfault := session.fault?_read source
    dsimp only
    rw [hfault]
    simp only [hempty.1, hempty.2, Bool.not_true, Bool.false_eq_true, if_false]
    rfl
  · cases h

/-- A source that is not accepted leaves everything but distances and numbers as it is. -/
theorem run_of_reject (h : session.accept? source = none) :
    (session.run source).1.status = .staticError ∧ (session.run source).1.fault? = none ∧
      ((session.run source).2 = (session.read source).2 ∨
        (session.run source).2 = session.resolved source) := by
  unfold accept? at h
  dsimp only at h
  split at h
  · cases h
  · next hempty =>
    unfold run
    have hfault := session.fault?_read source
    dsimp only
    rw [hfault]
    dsimp only
    split
    · exact ⟨rfl, rfl, .inl rfl⟩
    · next hdiagnostics =>
      split
      · exact ⟨rfl, rfl, .inr rfl⟩
      · next herrors =>
        simp only [Bool.not_eq_true, Bool.not_eq_false'] at hdiagnostics herrors
        exact absurd ⟨hdiagnostics, herrors⟩ hempty

end Lox.Session
