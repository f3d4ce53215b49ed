import Lox.Proofs.Evaluation.Simulation

/-!
# Annotated machines

An annotated machine consists of a machine, which does what is done, and of notes, on which nothing
depends. What is noted differs from one kind of them to the next. How they take a step of the
machine, run code in another scope and count a call does not, and is said here for all kinds.
-/
namespace Lox.Evaluation

/-- The states consist of a machine and of notes, which stay as they are when the machine is
replaced. -/
class Annotated (τ : Type) where
  machine : τ → Machine
  /-- The same notes with another machine. -/
  withMachine : τ → Machine → τ
  machine_withMachine : ∀ t m, machine (withMachine t m) = m := by intros; rfl
  withMachine_machine : ∀ t, withMachine t (machine t) = t := by intros; rfl
  withMachine_withMachine : ∀ t m m', withMachine (withMachine t m) m' = withMachine t m' := by
    intros; rfl

namespace Annotated
variable {τ α : Type} [Annotated τ]

/-- A step of the machine, of which nothing is noted. -/
def lift (step : Eval α) : EStateM Halt τ α := fun t =>
  match step (machine t) with
  | .ok a m => .ok a (withMachine t m)
  | .error halt m => .error halt (withMachine t m)

/-- Runs code in another scope; the scope before is that after it, however the code ends. -/
def inScope (scope : ScopeId) (step : EStateM Halt τ α) : EStateM Halt τ α := fun t =>
  leaving (fun after => withMachine after { machine after with scope := (machine t).scope })
    (step (withMachine t { machine t with scope }))

/-- Runs code as one call more, and counts it off again, however the code ends. -/
def asCall (step : EStateM Halt τ α) : EStateM Halt τ α := fun t =>
  leaving (fun after =>
      withMachine after { machine after with callDepth := (machine after).callDepth - 1 })
    (step (withMachine t { machine t with callDepth := (machine t).callDepth + 1 }))

theorem lift_ok (t : τ) {step : Eval α} {a : α} {m : Machine} (h : step (machine t) = .ok a m) :
    lift step t = .ok a (withMachine t m) := by
  unfold lift
  rw [h]

theorem lift_error (t : τ) {step : Eval α} {halt : Halt} {m : Machine}
    (h : step (machine t) = .error halt m) : lift step t = .error halt (withMachine t m) := by
  unfold lift
  rw [h]

theorem resultOf_lift (step : Eval α) (t : τ) :
    resultOf (lift step t) = resultOf (step (machine t)) := by
  unfold lift
  cases step (machine t) <;> rfl

theorem stateOf_lift (step : Eval α) (t : τ) :
    stateOf (lift step t) = withMachine t (stateOf (step (machine t))) := by
  unfold lift
  cases step (machine t) <;> rfl

end Annotated

variable {τ : Type} [Annotated τ]

/-- What is related is a machine and the same machine with notes, and it stays related at every call
depth. -/
structure Correspondence.AtDepths (r : Correspondence Machine τ) : Prop extends r.Lawful where
  machine : ∀ {p w m t}, r.Ended p w m t → Annotated.machine t = m
  states : ∀ {p w site m t} depth, r.States p w site m t →
    r.States p w site { m with callDepth := depth }
      (Annotated.withMachine t { m with callDepth := depth })
  stopped : ∀ {p w m t} depth, r.Ended p w m t →
    r.Ended p w { m with callDepth := depth }
      (Annotated.withMachine t { m with callDepth := depth })

/-- A call is counted in both, and counted off in both. -/
theorem Correspondence.AtDepths.asCall {r : Correspondence Machine τ} (h : r.AtDepths)
    {p : r.Position} {w : r.World} {site : Resolution.Site} {m : Machine} {t : τ} {x : Eval Value}
    {y : EStateM Halt τ Value} (hs : r.States p w site m t)
    (hxy : ∀ m' t', r.States p w site m' t' → m'.store = m.store →
      r.Sim p w site r.ValueOk (x m') (y t')) :
    r.Sim p w site r.ValueOk (Evaluation.asCall x m) (Annotated.asCall y t) := by
  have hsim := hxy _ _ (h.states (m.callDepth + 1) hs) rfl
  rw [asCall_apply]
  unfold Annotated.asCall
  rw [h.machine (h.ended hs)]
  generalize x { m with callDepth := m.callDepth + 1 } = u, y _ = v at hsim ⊢
  cases hsim with
  | @ok a m' t' w' hgrows hstates hpost =>
    have hback := h.states (m'.callDepth - 1) hstates
    obtain rfl := h.machine (h.ended hstates)
    exact .ok hgrows hback hpost
  | @error halt m' t' w' hhalt hgrows hended =>
    have hback := h.stopped (m'.callDepth - 1) hended
    obtain rfl := h.machine hended
    exact .error hhalt hgrows hback

end Lox.Evaluation
