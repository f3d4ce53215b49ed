import Lox.Proofs.Property.InStep
import Lox.Proofs.Record.Sessions

/-!
# Properties over chains of classes

In every run a property of an instance is the value that was last stored on it under the name, in
this run or in one before; or else the method of the closest class that declares one, bound to the
instance; or else an error. To store a value changes nothing but the one property.
-/
namespace Lox
open Evaluation Resolution

/-- The function is the method bound to the instance: it closes over a scope inside that of the method
in which `this` is the instance. -/
def Store.Bound (store : Store) (f : FunctionId) (method : FunctionObject) (i : InstanceId) : Prop :=
  ∃ closure, store.functions[f]? = some { method with closure } ∧
    store.enclosing? closure = some method.closure ∧
      store.findLocal? closure "this" = some (.instanceRef i)

theorem Store.bound_bindMethod (store : Store) (method : FunctionObject) (i : InstanceId) :
    (store.bindMethod method i).1.Bound (store.bindMethod method i).2 method i := by
  refine ⟨store.scopes.size, store.getElem?_bindMethod method i, ?_,
    store.findLocal?_bindMethod method i⟩
  change (store.newScope _).1.enclosing? store.scopes.size = _
  rw [enclosing?_newScope, if_pos rfl]

/-- A bound method stays what it is. -/
theorem Store.Bound.preserved {a b : Store} {f : FunctionId} {method : FunctionObject}
    {i : InstanceId} (h : a.Bound f method i) (hab : Preserves a b) : b.Bound f method i := by
  obtain ⟨closure, hfunction, henclosing, hthis⟩ := h
  exact ⟨closure, hab.store.functions hfunction, hab.store.enclosing henclosing,
    hab.special (.inl rfl) hthis⟩

namespace Session

/-- The program that is executed when a source is used, and the machine in which it starts. -/
def execution? (session : Session) : Use → Option (List Stmt × Machine)
  | .run source =>
    (session.accept? source).map fun program => (program, (session.resolved source).quiet)
  | .force source resolving =>
    let (reading, next) := session.read source
    let program := reading.program.statements
    some (program, next.starting resolving program)

/-- The journal after an execution. -/
def journalOf (fuel : Nat) (journal : Journal) : Option (List Stmt × Machine) → Journal
  | some (program, machine) =>
    (stateOf (Journaled.interpret fuel program ⟨machine, journal⟩)).entries
  | none => journal

/-- The journal after uses of sources. -/
def journalAfter (session : Session) (journal : Journal) : List Use → Journal
  | [] => journal
  | use :: rest =>
    (session.after [use]).journalAfter
      (journalOf session.fuel journal (session.execution? use)) rest

/-- How the machine of a session comes to be what it is after a source was used. -/
inductive Executes (session after : Session) : Option (List Stmt × Machine) → Prop where
  | nothing : after.machine.store = session.machine.store → Executes session after none
  | program {program : List Stmt} {machine : Machine} : Starts False machine program →
    machine.store = session.machine.store →
    after.machine.store = (stateOf (interpret session.fuel program machine)).store →
    Executes session after (some (program, machine))

variable {session : Session} {o : Observed} {journal : Journal}

theorem after_cons (session : Session) (use : Use) (rest : List Use) :
    session.after (use :: rest) = (session.after [use]).after rest := by
  cases use <;> rfl

theorem Linked.executes_run (h : Linked (Observed.invariant False) session o) (source : String) :
    Executes session (session.run source).2 (session.execution? (.run source)) := by
  cases haccept : session.accept? source with
  | none =>
    have hnone : session.execution? (.run source) = none := congrArg (Option.map _) haccept
    rw [hnone]
    refine .nothing ?_
    obtain ⟨-, -, hsession | hsession⟩ := run_of_reject haccept <;> rw [hsession] <;> rfl
  | some program =>
    have hsome : session.execution? (.run source) =
        some (program, (session.resolved source).quiet) := congrArg (Option.map _) haccept
    obtain ⟨w, hstands⟩ := (h.resolved source).stands
    rw [hsome]
    refine .program ⟨_, w, .rfl, hstands, h.accepted haccept⟩ rfl ?_
    rw [run_of_accept? haccept, perform_eq]
    rfl

theorem Linked.executes_force (h : Linked (Observed.invariant False) session o) (source : String)
    (resolving : Bool) :
    Executes session (session.force source resolving).2
      (session.execution? (.force source resolving)) := by
  have hfits := (session.fits_read source).2
  unfold execution? Session.force
  dsimp only
  rw [session.fault?_read source]
  cases resolving with
  | true =>
    obtain ⟨w, hstands⟩ := (h.resolved source).stands
    refine .program ⟨_, w, .rfl, hstands, h.within hfits False.elim⟩ rfl ?_
    simp only [if_true, perform_eq]
    rfl
  | false =>
    obtain ⟨w, hstands⟩ := (h.read source).stands
    have hwithin : Stmt.BodyWithin _ { globals := session.machine.knows }
        (session.read source).1.program.statements :=
      ⟨hfits.wellFormed, admits_unresolved hfits.numbered h.fresh _⟩
    refine .program ⟨_, w, .rfl, hstands, hwithin⟩ rfl ?_
    simp only [Bool.false_eq_true, if_false, perform_eq]
    rfl

/-- What a session does when a source is used, in whichever way. -/
theorem Linked.executes (h : Linked (Observed.invariant False) session o) (use : Use) :
    Executes session (session.after [use]) (session.execution? use) := by
  cases use with
  | run source => exact h.executes_run source
  | force source resolving => exact h.executes_force source resolving

/-- An execution keeps the journal as it must be. -/
theorem Executes.journals {after : Session} {execution : Option (List Stmt × Machine)}
    (h : Executes session after execution) (htells : journal.Tells session.machine.store)
    (hleads : journal.Leads session.machine.store) :
    Journal.Tells (journalOf session.fuel journal execution) after.machine.store ∧
      Journal.Leads (journalOf session.fuel journal execution) after.machine.store := by
  cases h with
  | nothing hsame =>
    rw [hsame]
    exact ⟨htells, hleads⟩
  | program hstarts hbefore hafter =>
    obtain ⟨setting, w, -, hstands, hwithin⟩ := hstarts
    rw [← hbefore] at htells hleads
    obtain ⟨-, w', hended⟩ := Journaled.journals_interpret hstands hwithin htells hleads session.fuel
    rw [hafter]
    exact ⟨hended.tells, hended.leads⟩

/-- The journal of a session tells of its store and leads to it. -/
theorem Linked.journals (h : Linked (Observed.invariant False) session o)
    (htells : journal.Tells session.machine.store) (hleads : journal.Leads session.machine.store)
    (uses : List Use) :
    Journal.Tells (session.journalAfter journal uses) (session.after uses).machine.store ∧
      Journal.Leads (session.journalAfter journal uses) (session.after uses).machine.store := by
  induction uses generalizing session o journal with
  | nil => exact ⟨htells, hleads⟩
  | cons use uses ih =>
    obtain ⟨o', hlinked⟩ := h.after [use]
    obtain ⟨htold, hled⟩ := (h.executes use).journals htells hleads
    rw [after_cons]
    exact ih hlinked htold hled

/-- After any uses of sources, and whether a program was resolved before or not, the program ends as
it ends otherwise when it is journaled. At every entry of the journal, from the first use on, all is as
it must be after the earlier entries: a property that is read is the value that was last stored, or the
method of the closest class, or an error; a value that is stored changes nothing else, nor what `super`
leads to; and a method that is bound is the same at all later entries and in the end. In the end every
property of every instance is what the journal tells. -/
theorem properties_exact (fuel : Nat) (uses : List Use) {program : List Stmt} {hi : NodeId}
    (hprogram : Parser.FitsBody ((initial fuel).after uses).next hi program) (resolving : Bool)
    (limit : Nat) :
    let machine := ((initial fuel).after uses).starting resolving program
    let ended := Evaluation.interpret limit program machine
    let journaled :=
      Journaled.interpret limit program ⟨machine, (initial fuel).journalAfter [] uses⟩
    (resultOf journaled = resultOf ended ∧ (stateOf journaled).machine = stateOf ended) ∧
      (∀ later entry earlier, (stateOf journaled).entries = later ++ entry :: earlier →
        entry.Exact earlier ∧ ∀ f method i, entry.after.Bound f method i →
          (stateOf ended).store.Bound f method i ∧
            ∀ next ∈ later, next.before.Bound f method i ∧ next.after.Bound f method i) ∧
      ∀ i < (stateOf ended).store.instances.size, ∀ name,
        let read := readProperty i name (stateOf ended)
        (stateOf journaled).entries.Answers i name (stateOf ended).store (resultOf read)
          (stateOf read).store := by
  intro machine ended journaled
  obtain ⟨setting, w, -, hstands, hwithin⟩ := starts_after fuel uses hprogram resolving
  have hstore : machine.store = ((initial fuel).after uses).machine.store := by
    cases resolving <;> rfl
  obtain ⟨htells, hleads⟩ := (linked_initial (Observed.invariant False) fuel).journals
    Journal.tells_initial trivial uses
  rw [← hstore] at htells hleads
  obtain ⟨hresult, w', hended⟩ :=
    Journaled.journals_interpret hstands hwithin htells hleads limit
  refine ⟨⟨hresult.symm, hended.machine⟩, fun later entry earlier hentries => ?_, fun i hi name =>
    hended.tells.answers hended.stands.sound hended.stands.store hi name⟩
  have hled := hended.leads
  change Journal.Leads (stateOf journaled).entries (stateOf ended).store at hled
  rw [hentries] at hled
  obtain ⟨hexact, hlast, hlater⟩ := hled.split
  refine ⟨hexact, fun f method i hbound => ⟨hbound.preserved hlast, fun next hnext => ?_⟩⟩
  obtain ⟨hbefore, hafter⟩ := hlater next hnext
  exact ⟨hbound.preserved hbefore, hbound.preserved hafter⟩

/-- A class that declares a method twice, and a class that inherits it. -/
def inheritedSource : String :=
  "class A \x7b m() \x7b print nil; \x7d m() \x7b print true; \x7d \x7d class B < A \x7b\x7d"

/-- A method is bound and then hidden by a value of the same name. -/
def shadowingSource : String :=
  "var b = B(); var bound = b.m; var other = b; other.m = false; bound(); print b.m; b.x;"

/-- The bound method is the last one; then the value is found, and a property that does not exist. -/
theorem properties_exact_shadowed :
    let uses : List Use := [.run inheritedSource]
    let session := (initial 20).after uses
    let program := (session.read shadowingSource).1.program.statements
    let machine := session.starting true program
    let journaled :=
      Journaled.interpret 20 program ⟨machine, (initial 20).journalAfter [] uses⟩
    (resultOf journaled = .error (.failure ⟨.undefinedProperty "x", 1⟩) ∧
      (stateOf journaled).machine.output = "true\nfalse\n" ∧
      (stateOf journaled).entries.length = 7) ∧
      ∀ later entry earlier, (stateOf journaled).entries = later ++ entry :: earlier →
        entry.Exact earlier := by
  have hexact := properties_exact 20 [.run inheritedSource]
    (((initial 20).after [.run inheritedSource]).fits_read shadowingSource).2 true 20
  refine ⟨by decide +kernel, fun later entry earlier hentries => ?_⟩
  exact (hexact.2.1 later entry earlier hentries).1

end Session
end Lox
