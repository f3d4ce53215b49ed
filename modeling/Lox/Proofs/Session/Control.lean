import Lox.Proofs.Evaluation.Tracing
import Lox.Proofs.Session.Safety

/-!
# Every run starts at rest

Whatever a session has run and however that ended, its machine is in the global scope and no call is
in progress. So a run counts its calls from none, and a call is refused only when as many calls as
there may be are in progress.
-/
namespace Lox
open Evaluation

namespace Session
variable {session : Session}

/-- The machine is in the global scope, and no call is in progress. -/
structure AtRest (session : Session) : Prop where
  scope : session.machine.scope = session.machine.globals
  callDepth : session.machine.callDepth = 0

theorem AtRest.read (h : session.AtRest) (source : String) : (session.read source).2.AtRest :=
  ⟨h.scope, h.callDepth⟩

theorem AtRest.resolve (h : session.AtRest) (program : List Stmt) :
    (session.resolve program).2.AtRest :=
  ⟨h.scope, h.callDepth⟩

theorem AtRest.perform {α : Type} (h : session.AtRest) {step : Eval α} (hstep : Keeps step) :
    (session.perform step).2.2.AtRest := by
  have hkeeps := hstep session.quiet
  rw [perform_eq]
  constructor
  · exact (hkeeps.scope.trans h.scope).trans hkeeps.globals.symm
  · exact hkeeps.callDepth.trans h.callDepth

theorem AtRest.run (h : session.AtRest) (source : String) : (session.run source).2.AtRest := by
  have hresolved : (session.resolved source).AtRest := (h.read source).resolve _
  cases haccept : session.accept? source with
  | none =>
    obtain ⟨-, -, hafter | hafter⟩ := run_of_reject haccept
    · rw [hafter]
      exact h.read source
    · rw [hafter]
      exact hresolved
  | some program =>
    rw [run_of_accept? haccept]
    exact hresolved.perform (keeps_interpret _ _)

theorem AtRest.force (h : session.AtRest) (source : String) (resolving : Bool) :
    (session.force source resolving).2.AtRest := by
  unfold Session.force
  dsimp only
  rw [session.fault?_read source]
  cases resolving with
  | true => exact ((h.read source).resolve _).perform (keeps_interpret _ _)
  | false => exact (h.read source).perform (keeps_interpret _ _)

theorem atRest_after (fuel : Nat) (uses : List Use) : ((initial fuel).after uses).AtRest := by
  have hall (session : Session) (h : session.AtRest) : (session.after uses).AtRest := by
    induction uses generalizing session with
    | nil => exact h
    | cons use uses ih =>
      cases use with
      | run source => exact ih _ (h.run source)
      | force source resolving => exact ih _ (h.force source resolving)
  exact hall _ ⟨rfl, rfl⟩

/-- However an evaluation ends, the scope and the call depth are those from before; so between the
runs of a session the scope is the global one, and the depth is 0. All the time the depth is the
number of calls in progress and in bounds. A call of a function or class with as many arguments as
it takes is refused exactly if as many calls as there may be are in progress. -/
theorem control_restored (fuel : Nat) :
    (∀ m : Machine,
      (∀ e, m.SameControl (stateOf (Evaluation.evaluate fuel e m))) ∧
      (∀ s, m.SameControl (stateOf (execute fuel s m))) ∧
      (∀ scope body,
        m.SameControl (stateOf (inScope scope (Evaluation.runAll (execute fuel) body) m))) ∧
      ∀ callee line arguments,
        m.SameControl (stateOf (callValue (execute fuel) callee line arguments m))) ∧
    (∀ uses, ((initial fuel).after uses).AtRest) ∧
    ∀ (m : Machine) (program : List Stmt), m.callDepth ≤ maxCallDepth →
      let plain := interpret fuel program m
      let traced := Traced.interpret fuel program { machine := m, active := m.callDepth }
      resultOf traced = resultOf plain ∧ (stateOf traced).machine = stateOf plain ∧
      (∀ moment ∈ (stateOf traced).moments,
        moment.depth = moment.active ∧ moment.active ≤ maxCallDepth) ∧
      ∀ call ∈ (stateOf traced).calls, call.active ≤ maxCallDepth ∧
        (call.Matches → (call.Refused ↔ call.active = maxCallDepth) ∧
          (call.LetIn ↔ ¬ call.Refused)) := by
  refine ⟨fun m => ⟨fun e => keeps_evaluate fuel e m, fun s => keeps_execute fuel s m,
    fun scope body => keeps_body fuel scope body m,
    fun callee line arguments => keeps_callValue fuel callee line arguments m⟩,
    atRest_after fuel, fun m program hdepth => ?_⟩
  intro plain traced
  have htraces := Traced.traces_interpret fuel program { machine := m, active := m.callDepth }
    ⟨rfl, hdepth, nofun, nofun⟩
  obtain ⟨hresult, hmachine, hsound⟩ := htraces.same
  refine ⟨hresult, hmachine, hsound.moments, fun call hcall => ?_⟩
  obtain ⟨hactive, hle⟩ := hsound.calls call hcall
  refine ⟨hle, fun hmatches => ?_⟩
  obtain ⟨hrefused, hin⟩ := Invocation.refused_or_letIn hmatches
  rw [hactive] at hrefused
  exact ⟨hrefused.trans ⟨Nat.le_antisymm hle, fun heq => Nat.le_of_eq heq.symm⟩, hin⟩

/-- A call of a function that calls itself, where one more call than is in progress may be. -/
def overflowing : Machine × List Stmt :=
  ({ ((initial 9).runAll ["fun f() \x7b f(); \x7d"]).2.machine with callDepth := maxCallDepth - 1 },
    [.expression (.call (.variable 9 ⟨"f", 1⟩) 1 [])])

/-- The first call is let in; the second one is refused. -/
theorem control_restored_overflowing :
    let (m, program) := overflowing
    let plain := interpret 9 program m
    let traced := Traced.interpret 9 program { machine := m, active := m.callDepth }
    resultOf plain = .error (.failure ⟨.stackOverflow, 1⟩) ∧
      (stateOf plain).callDepth = maxCallDepth - 1 ∧
      (stateOf traced).calls.map (·.active) = [maxCallDepth, maxCallDepth - 1] ∧
      ∀ call ∈ (stateOf traced).calls, call.active ≤ maxCallDepth ∧
        (call.Matches → (call.Refused ↔ call.active = maxCallDepth) ∧
          (call.LetIn ↔ ¬ call.Refused)) := by
  obtain ⟨-, -, htraced⟩ := control_restored 9
  refine ⟨by decide +kernel, by decide +kernel, by decide +kernel, ?_⟩
  exact (htraced overflowing.1 overflowing.2 (by decide +kernel)).2.2.2

end Session
end Lox
