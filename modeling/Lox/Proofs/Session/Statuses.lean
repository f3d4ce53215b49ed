import Lox.Proofs.Session.Alike
import Lox.Proofs.Session.Safety

/-!
# Status, output and reports agree

What a run shows has one of three forms. A source that is not accepted shows its static errors and
nothing else; an accepted one shows one runtime error or none. A run is abandoned only if it meets a
fault, which none does in any session, or if the fuel runs out.
-/
namespace Lox
open Evaluation Resolution

def Diagnostic.isRuntime : Diagnostic → Bool
  | .runtime .. => true
  | .lexical .. | .syntactic .. | .resolution .. | .inputOutput _ => false

namespace Session
variable {session : Session} {source : String} {o : Observed}

/-- The source is not executed, or its execution ends before the fuel of the session does. -/
def Ends (session : Session) (source : String) : Prop :=
  ∀ program, session.accept? source = some program →
    resultOf (interpret session.fuel program (session.resolved source).quiet) ≠ .error .outOfFuel

theorem ends_of_status (h : (session.run source).1.status ≠ .abandoned) : Ends session source := by
  intro program haccept hfuel
  rw [run_of_accept? haccept, perform_eq] at h
  change (outcome (resultOf (interpret session.fuel program (session.resolved source).quiet))
    _).status ≠ .abandoned at h
  rw [hfuel] at h
  exact h rfl

/-- What a run shows that is not abandoned. -/
inductive Reported (session : Session) (source : String) : Outcome → Prop
  | executed (output : String) : Reported session source { status := .success, output }
  | failed (line : Nat) (message output : String) :
      Reported session source
        { status := .runtimeError, diagnostics := [.runtime line message], output }
  | rejected (errors : session.staticErrors source ≠ [])
      (static : ∀ d ∈ session.staticErrors source, d.isRuntime = false) :
      Reported session source
        { status := .staticError, diagnostics := session.staticErrors source }

/-- The errors of the text, or else those of the references. -/
theorem staticErrors_cases (session : Session) (source : String) :
    let reading := (session.read source).1
    reading.diagnostics ≠ [] ∧ session.staticErrors source = reading.diagnostics ∨
      reading.diagnostics = [] ∧ session.staticErrors source =
        ((session.read source).2.resolve reading.program.statements).1.map
          ResolutionError.diagnostic := by
  unfold staticErrors
  dsimp only
  split
  · next hempty => exact .inr ⟨List.isEmpty_iff.mp hempty, rfl⟩
  · next hempty => exact .inl ⟨fun hnil => hempty (List.isEmpty_iff.mpr hnil), rfl⟩

/-- The static passes report no runtime error. -/
theorem isRuntime_staticErrors : ∀ d ∈ session.staticErrors source, d.isRuntime = false := by
  intro d hd
  cases staticErrors_cases session source with
  | inl htext =>
    rw [htext.2, Reading.diagnostics, List.mem_append] at hd
    cases hd with
    | inl hlexical =>
      obtain ⟨error, -, rfl⟩ := List.mem_map.mp hlexical
      rfl
    | inr hsyntax =>
      obtain ⟨error, -, rfl⟩ := List.mem_map.mp hsyntax
      rfl
  | inr hreferences =>
    rw [hreferences.2] at hd
    obtain ⟨error, -, rfl⟩ := List.mem_map.mp hd
    rfl

theorem staticErrors_ne_nil (h : session.accept? source = none) :
    session.staticErrors source ≠ [] := by
  intro hnil
  simp [accept?_eq, hnil] at h

theorem reported_outcome {result : Except Halt Unit} (output : String)
    (hfault : ∀ fault, result ≠ .error (.fault fault)) (hfuel : result ≠ .error .outOfFuel) :
    Reported session source (outcome result output) := by
  unfold outcome
  split
  · exact .executed output
  · exact .failed _ _ output
  · exact absurd rfl (hfault _)
  · exact absurd rfl hfuel

theorem Linked.reported (h : Linked (Observed.invariant False) session o)
    (hends : Ends session source) : Reported session source (session.run source).1 := by
  cases haccept : session.accept? source with
  | none =>
    rw [run_of_reject_fst haccept]
    exact .rejected (staticErrors_ne_nil haccept) isRuntime_staticErrors
  | some program =>
    obtain ⟨-, hended, -⟩ := (h.resolved source).interpret (h.accepted haccept) session.fuel
    rw [run_of_accept? haccept, perform_eq]
    exact reported_outcome _ hended.1 (hends program haccept)

section
variable {shown : Outcome} (h : Reported session source shown)
include h

end

/-- A source that prints before it fails. -/
def undefinedVariable : String := "print a; print b;"

end Session
end Lox
