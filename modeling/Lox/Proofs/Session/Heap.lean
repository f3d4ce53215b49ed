import Lox.Proofs.Property.Exact
import Lox.Proofs.Record.History

/-!
# The store of a session

All that is ever done to the store of a session is one sequence of steps, and in none of them anything
is lost. So every chain of scopes or superclasses ends and is the same for the whole session, and a
search along it ends.
-/
namespace Lox
open Evaluation

namespace Session
variable {session : Session} {o : Observed}

theorem enlarged_perform {α : Type} (session : Session) {step : Eval α} (hstep : Enlarges step) :
    session.machine.Enlarged (session.perform step).2.2.machine := by
  have hended := hstep session.quiet
  rw [perform_eq]
  refine ⟨hended.grown, fun hm => ?_⟩
  have hafter := hended.rooted ⟨hm.store, hm.scope⟩
  exact ⟨hafter.store, hafter.scope⟩

theorem enlarged_resolve (session : Session) (program : List Stmt) :
    session.machine.Enlarged (session.resolve program).2.machine :=
  ⟨.refl _, fun hm => ⟨hm.store, hm.scope⟩⟩

theorem enlarged_run (session : Session) (source : String) :
    session.machine.Enlarged (session.run source).2.machine := by
  have hresolved : session.machine.Enlarged (session.resolved source).machine :=
    enlarged_resolve (session.read source).2 _
  cases haccept : session.accept? source with
  | none =>
    obtain ⟨-, -, hafter | hafter⟩ := run_of_reject haccept
    · rw [hafter]
      exact .refl session.machine
    · rw [hafter]
      exact hresolved
  | some program =>
    rw [run_of_accept? haccept]
    exact hresolved.trans (enlarged_perform _ (enlarges_interpret _ _))

theorem enlarged_force (session : Session) (source : String) (resolving : Bool) :
    session.machine.Enlarged (session.force source resolving).2.machine := by
  unfold Session.force
  dsimp only
  rw [session.fault?_read source]
  cases resolving with
  | true =>
    exact (enlarged_resolve (session.read source).2 _).trans
      (enlarged_perform _ (enlarges_interpret _ _))
  | false => exact enlarged_perform (session.read source).2 (enlarges_interpret _ _)

theorem enlarged_after (session : Session) (uses : List Use) :
    session.machine.Enlarged (session.after uses).machine := by
  induction uses generalizing session with
  | nil => exact .refl _
  | cons use uses ih =>
    cases use with
    | run source => exact (session.enlarged_run source).trans (ih _)
    | force source resolving => exact (session.enlarged_force source resolving).trans (ih _)

/-- In the beginning there is the global scope alone. -/
theorem rooted_initial (fuel : Nat) : (initial fuel).machine.Rooted :=
  have hnested : Store.Nested {} := fun _ _ hs => by cases hs
  ⟨⟨hnested.newScope nofun, nofun⟩, Nat.zero_lt_one⟩

theorem orderly_after (fuel : Nat) (uses : List Use) :
    ((initial fuel).after uses).machine.store.Orderly := by
  obtain ⟨o, hlinked⟩ := (linked_initial (Observed.invariant False) fuel).after uses
  obtain ⟨w, hfollows⟩ := hlinked.along
  have hrooted := ((initial fuel).enlarged_after uses).rooted (rooted_initial fuel)
  refine ⟨hrooted.store.nested, fun c d hc => ?_⟩
  rw [← hfollows.store] at hc
  exact hfollows.sound.superclasses hc

/-- The steps of an execution, the latest one first. -/
def stepsOf (fuel : Nat) : Option (List Stmt × Machine) → List Step
  | some (program, machine) => (stateOf (Recorded.interpret fuel program { machine })).steps
  | none => []

/-- All steps while sources are used, the latest one first. -/
def history (session : Session) : List Use → List Step
  | [] => []
  | use :: rest => (session.after [use]).history rest ++ stepsOf session.fuel (session.execution? use)

theorem Executes.leads {after : Session} {execution : Option (List Stmt × Machine)}
    (h : Executes session after execution) :
    Step.Leads session.machine.store (stepsOf session.fuel execution) after.machine.store := by
  cases h with
  | nothing hsame =>
    rw [hsame]
    exact .nil
  | @program program machine _ hbefore hafter =>
    rw [hafter, ← hbefore]
    exact Recorded.leads_interpret session.fuel program machine

/-- The steps lead from the store of a session to the one after the uses. -/
theorem Linked.leads (h : Linked (Observed.invariant False) session o) (uses : List Use) :
    Step.Leads session.machine.store (session.history uses) (session.after uses).machine.store := by
  induction uses generalizing session o with
  | nil => exact .nil
  | cons use uses ih =>
    obtain ⟨o', hlinked⟩ := h.after [use]
    rw [after_cons]
    exact (h.executes use).leads.append (ih hlinked)

/-- From whatever machine an evaluation starts and however it ends, nothing in the store is lost; and
a run that is recorded ends as it ends otherwise. In a session, with whatever uses of sources, each
step of each run leads from the store after the step before to a store that has grown. So between any
two moments no scope loses a name or the scope around it, no instance its class or a field, and no
function or class changes; the chains of scopes and of superclasses are the same at both moments,
they end, and so does every search along them. -/
theorem store_grows (fuel : Nat) (uses : List Use) :
    let history := (initial fuel).history uses
    let last := ((initial fuel).after uses).machine.store
    (∀ (limit : Nat) (m : Machine),
      (∀ e, m.store.Grown (stateOf (Evaluation.evaluate limit e m)).store) ∧
      (∀ s, m.store.Grown (stateOf (execute limit s m)).store) ∧
      (∀ callee line arguments,
        m.store.Grown (stateOf (callValue (execute limit) callee line arguments m)).store) ∧
      ∀ program,
        let recorded := Recorded.interpret limit program { machine := m }
        let ended := interpret limit program m
        resultOf recorded = resultOf ended ∧ (stateOf recorded).machine = stateOf ended) ∧
    Step.Leads (initial fuel).machine.store history last ∧
    ∀ later between earlier, history = later ++ (between ++ earlier) →
      ∃ before after, Step.Leads (initial fuel).machine.store earlier before ∧
        Step.Leads before between after ∧ Step.Leads after later last ∧
        before.Grown after ∧ before.Finite ∧
        (∀ s < before.scopes.size, ∀ d,
          along after.enclosing? d s = along before.enclosing? d s) ∧
        ∀ c < before.classes.size, ∀ d,
          along after.superclass? d c = along before.superclass? d c := by
  intro history last
  obtain ⟨o, hlinked⟩ : ∃ o, Linked (Observed.invariant False) (initial fuel) o :=
    ⟨_, linked_initial _ fuel⟩
  have hleads : Step.Leads (initial fuel).machine.store history last := hlinked.leads uses
  refine ⟨fun limit m => ⟨fun e => (enlarges_evaluate limit e m).grown,
    fun s => (enlarges_execute limit s m).grown, fun callee line arguments =>
      (enlarges_callValue limit callee line arguments m).grown, fun program => ?_⟩, hleads, ?_⟩
  · obtain ⟨hresult, hmachine, -⟩ := Recorded.proper_interpret limit program m
    exact ⟨hresult, hmachine⟩
  · intro later between earlier hhistory
    rw [hhistory] at hleads
    obtain ⟨after, hbefore, hlater⟩ := hleads.split
    obtain ⟨before, hearlier, hbetween⟩ := hbefore.split
    have hgrown := hbetween.grown
    have horderly := (hgrown.trans hlater.grown).orderly (orderly_after fuel uses)
    exact ⟨before, after, hearlier, hbetween, hlater, hgrown, horderly.finite,
      fun s hs => hgrown.along_enclosing? horderly.scopes hs,
      fun c hc => hgrown.along_superclass? horderly.superclasses hc⟩

/-- An instance that is its own field, and a function that is found through it; then an error. -/
def circularSource : String :=
  "class A \x7b m() \x7b this.me = this; return f; \x7d \x7d var a = A(); " ++
    "fun f() \x7b return a; \x7d a.m()(); b;"

/-- After the error nothing leads to the instance any more. -/
def circularUses : List Use := [.run circularSource, .run "a = nil;"]

/-- The run fails, and the instance keeps its field in the next one. -/
theorem store_grows_circular :
    (((initial 12).run circularSource).1.status = .runtimeError ∧
        ((initial 12).history circularUses).length = 20 ∧
        (((initial 12).after circularUses).machine.store.field? 0 "me").isSome = true) ∧
      ∃ before after, Step.Leads before ((initial 12).history circularUses) after ∧
        before.Grown after ∧ before.Finite := by
  refine ⟨⟨by decide +kernel, by decide +kernel, by decide +kernel⟩, ?_⟩
  obtain ⟨-, -, hmoments⟩ := store_grows 12 circularUses
  have hall : (initial 12).history circularUses = [] ++ ((initial 12).history circularUses ++ []) := by
    rw [List.append_nil, List.nil_append]
  obtain ⟨before, after, -, hbetween, -, hgrown, hfinite, -⟩ := hmoments _ _ _ hall
  exact ⟨before, after, hbetween, hgrown, hfinite⟩

end Session
end Lox
