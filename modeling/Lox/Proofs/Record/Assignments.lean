import Lox.Proofs.Record.Sessions

/-!
# Assignments and the names of scopes

In every run of programs without static errors an assignment writes a variable that is there, or it
fails and changes nothing. One gap is left: in the initializer of a local variable the variable
itself may be assigned to, and is then there before its declaration is over. So a scope gets no name
but by the declaration of that name in it.
-/
namespace Lox
open Evaluation

namespace Evaluation.Step
variable {start store : Store} {steps : List Step} {scope : ScopeId}
  {name : String}

/-- The step belongs to the declaration of the name in the scope: it gives the declared name its
value, or it is an assignment to it in its own initializer. -/
def Introduces (step : Step) (scope : ScopeId) (name : String) : Prop :=
  step.before.scope = scope ∧
    (step.action = .declares name ∨
      step.declaring = some name ∧ ∃ id line v, step.action = .assigns id ⟨name, line⟩ v ∧
        step.before.distances.find? id = some 0)

/-- Only what is written to changes in a store. -/
theorem findLocal?_define_of_some {written : ScopeId} {other : String} {v value : Value}
    (hold : store.findLocal? written other = some v) (hnone : store.findLocal? scope name = none) :
    (store.define written other value).findLocal? scope name = none := by
  rw [Store.findLocal?_define, if_neg, hnone]
  rintro ⟨rfl, rfl, -⟩
  rw [hold] at hnone
  cases hnone

/-- A step gives a scope that is there a new name only in the declaration of the name. -/
theorem Exact.introduces {step : Step} (h : step.Exact)
    (hscope : scope < step.before.store.scopes.size)
    (hnone : step.before.store.findLocal? scope name = none)
    (hsome : step.after.store.findLocal? scope name ≠ none) : step.Introduces scope name := by
  have hchanges : ¬ step.Keeps scope name := fun hkeeps => hsome (hkeeps.trans hnone)
  unfold Exact at h
  cases haction : step.action with
  | begins | opens | other =>
    rw [haction] at h
    exact (hchanges (h scope name hscope)).elim
  | declares declared =>
    rw [haction] at h
    obtain ⟨hrunning, rfl⟩ := (h scope name hscope).resolve_right hchanges
    exact ⟨hrunning.symm, .inl haction⟩
  | assigns id assigned v =>
    rw [haction] at h
    cases h with
    | undefined _ _ _ hafter =>
      rw [hafter] at hsome
      exact (hsome hnone).elim
    | updates _ hold _ hafter =>
      rw [hafter] at hsome
      exact (hsome (findLocal?_define_of_some hold hnone)).elim
    | initializes hdeclaring hdistance _ _ hafter =>
      rw [hafter] at hsome
      by_cases hsame : scope = step.before.scope ∧ name = assigned.text
      · obtain ⟨hrunning, rfl⟩ := hsame
        exact ⟨hrunning.symm, .inr ⟨hdeclaring, id, assigned.line, v, haction, hdistance⟩⟩
      · refine (hsome ?_).elim
        rw [Store.findLocal?_define, if_neg fun hwritten => hsame ⟨hwritten.1, hwritten.2.1⟩]
        exact hnone

/-- A name that a scope has got in a run was given to it by one of the steps. -/
theorem Chained.introduces (h : Chained start steps store) (hexact : ∀ step ∈ steps, step.Exact)
    (hscope : scope < start.scopes.size) (hnone : start.findLocal? scope name = none)
    (hsome : store.findLocal? scope name ≠ none) : ∃ step ∈ steps, step.Introduces scope name := by
  induction steps generalizing store with
  | nil =>
    subst h
    exact (hsome hnone).elim
  | cons step earlier ih =>
    obtain ⟨rfl, -, hearlier⟩ := h
    obtain ⟨hstep, hothers⟩ := List.forall_mem_cons.mp hexact
    by_cases hbefore : step.before.store.findLocal? scope name = none
    · have hthere := Nat.lt_of_lt_of_le hscope hearlier.preserves.store.scopes
      exact ⟨step, List.mem_cons_self, hstep.introduces hthere hbefore hsome⟩
    · obtain ⟨found, hmem, hintroduces⟩ := ih hearlier hothers hbefore
      exact ⟨found, List.mem_cons_of_mem _ hmem, hintroduces⟩

/-- Whether an assignment has taken effect in a scope that had no such name. -/
def creates (step : Step) : Bool :=
  match step.action with
  | .assigns id name _ =>
    step.result.isOk && ((step.target? id).bind (step.before.store.findLocal? · name.text)).isNone
  | .begins _ | .declares _ | .opens | .other => false

end Evaluation.Step

namespace Session

/-- After any sources, a clean program that is recorded ends as it ends otherwise, and its steps lead
from the first store to the last one. Every assignment updates a variable that exists, or it fails
with an error and changes nothing, or it is in the initializer of the local variable that it assigns
to. Between any two moments of the run, a scope that exists gets a name only in a declaration of that
name that is executed in the scope. -/
theorem assignments_exact (fuel : Nat) (sources : List String) {program : List Stmt} {hi : NodeId}
    (hprogram : Parser.FitsBody ((initial fuel).runAll sources).2.next hi program)
    (hclean : (((initial fuel).runAll sources).2.resolve program).1 = []) (limit : Nat) :
    let session := ((initial fuel).runAll sources).2
    let machine := (session.resolve program).2.quiet
    let ended := Evaluation.interpret limit program machine
    let recorded := Recorded.interpret limit program { machine }
    let steps := (stateOf recorded).steps
    (resultOf recorded = resultOf ended ∧ (stateOf recorded).machine = stateOf ended) ∧
      (∀ step ∈ steps, ∀ id name v, step.action = .assigns id name v → step.Assigned id name v) ∧
      ∀ later between earlier, steps = later ++ (between ++ earlier) →
        ∃ first last, Step.Chained machine.store earlier first ∧ Step.Chained first between last ∧
          Step.Chained last later (stateOf ended).store ∧
          ∀ scope name, scope < first.scopes.size → first.findLocal? scope name = none →
            last.findLocal? scope name ≠ none → ∃ step ∈ between, step.Introduces scope name := by
  intro session machine ended recorded steps
  obtain ⟨setting, w, hstrict, hstands, hwithin⟩ := starts_of_clean fuel sources hprogram hclean
  obtain ⟨w', hrecords⟩ := Recorded.records_interpret hstands hwithin limit
  obtain ⟨hresult, hmachine, -⟩ := Recorded.proper_interpret limit program machine
  have hexact := hrecords.steps (hstrict.mpr trivial)
  refine ⟨⟨hresult, hmachine⟩, fun step hstep id name v haction => ?_, ?_⟩
  · have hassigned := hexact step hstep
    rw [Step.Exact, haction] at hassigned
    exact hassigned
  · intro later between earlier hsteps
    have hchained := hrecords.chained
    change Step.Chained machine.store steps (stateOf ended).store at hchained
    rw [hsteps] at hchained
    obtain ⟨last, hbefore, hlater⟩ := hchained.split
    obtain ⟨first, hearlier, hbetween⟩ := hbefore.split
    refine ⟨first, last, hearlier, hbetween, hlater, fun scope name => ?_⟩
    refine hbetween.introduces fun step hstep => hexact step ?_
    change step ∈ steps
    rw [hsteps]
    exact List.mem_append_right _ (List.mem_append_left _ hstep)

/-- A function that assigns to a local variable, to a global one and to one that does not exist. -/
def assigningSource : String :=
  "var g; \x7b var l; fun f() \x7b l = g = true; \x7d f(); l = h = nil; \x7d"

/-- The first two assignments update variables; then the run fails. -/
theorem assignments_exact_undefined :
    let program := ((initial 9).read assigningSource).1.program.statements
    let machine := ((initial 9).resolve program).2.quiet
    let recorded := Recorded.interpret 9 program { machine }
    (resultOf recorded = .error (.failure ⟨.undefinedVariable "h", 1⟩) ∧
      ∀ step ∈ (stateOf recorded).steps, step.creates = false) ∧
      ∀ step ∈ (stateOf recorded).steps, ∀ id name v,
        step.action = .assigns id name v → step.Assigned id name v := by
  have hexact := assignments_exact 9 [] ((initial 9).fits_read assigningSource).2 (by decide +kernel) 9
  exact ⟨by decide +kernel, hexact.2.1⟩

/-- A local variable that is assigned to in its own initializer. -/
def selfAssigningSource : String := "\x7b var a = (a = nil); print a; \x7d"

/-- An assignment may create a variable, although a program has no static errors. -/
theorem not_assignments_updating :
    ¬ ∀ (fuel : Nat) (sources : List String) (program : List Stmt) (hi : NodeId),
      let session := ((initial fuel).runAll sources).2
      Parser.FitsBody session.next hi program → (session.resolve program).1 = [] → ∀ limit,
        let machine := (session.resolve program).2.quiet
        ∀ step ∈ (stateOf (Recorded.interpret limit program { machine })).steps, step.creates = false := by
  intro h
  have hnone := h 9 [] _ _ ((initial 9).fits_read selfAssigningSource).2 (by decide +kernel) 9
  exact absurd hnone (by decide +kernel)

end Session
end Lox
