import Lox.Proofs.Evaluation.Growth
import Lox.Proofs.Record.Accounts
import Lox.Proofs.Record.InStep

/-!
# Histories of the store

The steps that a recording machine takes down lead from the store in which a run starts to the one in
which it ends, however it ends. In none of the steps anything is lost.
-/
namespace Lox.Evaluation
open Operations

namespace Step
variable {start middle store : Store} {steps later earlier : List Step}

/-- The steps, the latest one first, lead from one store to the other without a gap, and the store
grows in each of them. -/
inductive Leads (start : Store) : List Step → Store → Prop where
  | nil : Leads start [] start
  | cons {step : Step} {earlier : List Step} : step.before.store.Grown step.after.store →
    Leads start earlier step.before.store → Leads start (step :: earlier) step.after.store

theorem Leads.grown (h : Leads start steps store) : start.Grown store := by
  induction h with
  | nil => exact .refl _
  | cons hstep _ ih => exact ih.trans hstep

theorem Leads.append (h : Leads start earlier middle) (h' : Leads middle later store) :
    Leads start (later ++ earlier) store := by
  induction h' with
  | nil => exact h
  | cons hstep _ ih => exact .cons hstep ih

/-- Between any two steps there is a store to which the earlier ones lead. -/
theorem Leads.split (h : Leads start (later ++ earlier) store) :
    ∃ middle, Leads start earlier middle ∧ Leads middle later store := by
  induction later generalizing store with
  | nil => exact ⟨store, h, .nil⟩
  | cons step later ih =>
    cases h with
    | cons hstep hrest =>
      obtain ⟨middle, hearlier, hlater⟩ := ih hrest
      exact ⟨middle, hearlier, .cons hstep hlater⟩

end Step

namespace Recorded
variable {α β : Type} {t t' t'' : Recorded}

/-- The steps that were taken down between two moments lead from one to the other. -/
def Continues (t t' : Recorded) : Prop :=
  ∃ steps, t'.steps = steps ++ t.steps ∧ Step.Leads t.machine.store steps t'.machine.store

theorem Continues.of_eq (hsteps : t'.steps = t.steps)
    (hstore : t'.machine.store = t.machine.store) : Continues t t' := by
  refine ⟨[], hsteps, ?_⟩
  rw [hstore]
  exact .nil

theorem Continues.trans (h : Continues t t') (h' : Continues t' t'') : Continues t t'' := by
  obtain ⟨earlier, hearlier, hled⟩ := h
  obtain ⟨later, hlater, hleads⟩ := h'
  refine ⟨later ++ earlier, ?_, hled.append hleads⟩
  rw [hlater, hearlier, List.append_assoc]

/-- Wherever the evaluation starts, its steps lead from the store before it to the one after it. -/
def Logs (x : EStateM Halt Recorded α) : Prop := ∀ t, Continues t (stateOf (x t))

namespace Logs
variable {x : EStateM Halt Recorded α}

theorem pure (a : α) : Logs (Pure.pure a) := fun _ => .of_eq rfl rfl

theorem throw (halt : Halt) : Logs (MonadExcept.throw halt : EStateM Halt Recorded α) :=
  fun _ => .of_eq rfl rfl

theorem get : Logs MonadState.get := fun _ => .of_eq rfl rfl

theorem bind {f : α → EStateM Halt Recorded β} (h : Logs x) (hf : ∀ a, Logs (f a)) :
    Logs (x >>= f) := by
  intro t
  have hx := h t
  change Continues t (stateOf (EStateM.bind x f t))
  unfold EStateM.bind
  cases hrun : x t with
  | ok a t' =>
    rw [hrun] at hx
    exact hx.trans (hf a t')
  | error halt t' =>
    rw [hrun] at hx
    exact hx

/-- A step that loses nothing is taken down. -/
theorem step (action : Action) {x : Eval α} (h : Enlarges x) : Logs (Recorded.step action x) := by
  intro t
  rw [stateOf_step]
  exact ⟨[stepOf action t (x t.machine)], rfl, .cons (h t.machine).grown .nil⟩

/-- A scope is opened, whatever scope it stands in. -/
theorem opens (new : Scope) : Logs (Recorded.step .opens (allocate (·.newScope new))) := by
  intro t
  rw [stateOf_step]
  exact ⟨[stepOf .opens t _], rfl, .cons (.newScope t.machine.store new) .nil⟩

-- What is set back when an evaluation ends is neither the store nor a step.

theorem inScope (h : Logs x) (scope : ScopeId) : Logs (Recorded.inScope scope x) := by
  intro t
  have hx := h { t with machine := { t.machine with scope }, declaring := none }
  unfold Recorded.inScope Annotated.inScope
  rw [leaving_leaving, stateOf_leaving]
  exact hx

theorem asCall {x : EStateM Halt Recorded Value} (h : Logs x) : Logs (Annotated.asCall x) := by
  intro t
  have hx := h { t with machine := { t.machine with callDepth := t.machine.callDepth + 1 } }
  unfold Annotated.asCall
  rw [stateOf_leaving]
  exact hx

theorem inBody (object : FunctionObject) (arguments : List Value)
    {x : EStateM Halt Recorded Completion} (h : Logs x) :
    Logs (Recorded.inBody object arguments x) := by
  intro t
  have hx := h { t with events := [] }
  unfold Recorded.inBody
  dsimp only
  rw [stateOf_leaving]
  exact hx

theorem inCallOf (callee : Value) (line : Nat) (arguments : List Value)
    {x : EStateM Halt Recorded Value} (h : Logs x) :
    Logs (Recorded.inCallOf callee line arguments x) := by
  intro t
  have hx := h { t with bodies := [] }
  unfold Recorded.inCallOf
  dsimp only
  rw [stateOf_leaving]
  exact hx

theorem note (event : Event) : Logs (Recorded.note event) := fun _ => .of_eq rfl rfl

end Logs

/-- The steps of every rule follow one another. -/
def logging : Congruence Recorded Recorded where
  Rel x _ := Logs x
  pure := .pure
  throw := .throw
  bind := Logs.bind

theorem logging_operations : logging.OfOperations operations operations where
  getStore _ := .of_eq rfl rfl
  printLine text := Logs.step _ (enlarging_steps.printLine text)
  readVariable id name := Logs.step _ (enlarging_steps.readVariable id name)
  writeVariable id name v := Logs.step _ (enlarging_steps.writeVariable id name v)
  superMethod id line method := Logs.step _ (enlarging_steps.superMethod id line method)
  setField id name v := Logs.step _ (enlarging_steps.setField id name v)
  newInstance c := Logs.step _ (enlarging_steps.newInstance c)
  bindTo f receiver := Logs.step _ (enlarging_steps.bindTo f receiver)
  declare name := Logs.step _ (enlarging_steps.declare name)
  define name v := Logs.step _ (enlarging_steps.define name v)
  newFunction f := Logs.step _ (enlarging_steps.newFunction f)
  newClass name superclass methods := Logs.step _ (enlarging_steps.newClass name superclass methods)
  inBlock h := Logs.get.bind fun _ => Logs.bind (.opens _) fun scope => h.inScope scope
  inCall _ object arguments h :=
    .inBody object arguments (.bind (.opens _) fun scope => h.inScope scope)
  receiver object := Logs.step _ (enlarging_steps.receiver object)

theorem logging_hooks : logging.OfHooks hooks hooks where
  expression e h := (Logs.note _).bind fun _ => h
  statement s h := (Logs.note _).bind fun _ => h.bind fun completion => by
    split
    · exact (Logs.note _).bind fun _ => .pure _
    · exact Logs.bind (.pure _) fun _ => .pure _
  call callee line arguments h := h.inCallOf callee line arguments

/-- However a run ends, its steps lead from the store in which it starts to the one in which it
ends. -/
theorem leads_interpret (fuel : Nat) (program : List Stmt) (machine : Machine) :
    Step.Leads machine.store (stateOf (interpret fuel program { machine })).steps
      (stateOf (Evaluation.interpret fuel program machine)).store := by
  have parts := logging_operations.ofCalls.evaluatorsWithHooks logging_hooks
    (Logs.get.bind fun _ => .pure _) Logs.asCall fuel
  have hrun : Logs (interpret fuel program) :=
    Logs.bind (logging.runAll (y := hooks.execute operations fuel) parts.execute program) fun _ =>
      .pure ()
  obtain ⟨steps, hsteps, hleads⟩ := hrun { machine }
  obtain ⟨-, hmachine, -⟩ := proper_interpret fuel program machine
  rw [List.append_nil] at hsteps
  rw [hsteps, ← hmachine]
  exact hleads

end Recorded
end Lox.Evaluation
