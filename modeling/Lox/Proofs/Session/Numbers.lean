import Lox.Proofs.Evaluation.Control
import Lox.Proofs.Resolution.Pass
import Lox.Proofs.Session.Safety

/-!
# References keep their distances

All references that are ever read get their numbers from one counter, and a session keeps the
distances of all of them in one table. Whatever happens to a session, the references that it reads
have numbers that no reference had before, and the distances of those before stay what they were.
-/
namespace Lox
open Evaluation Resolution

/-- What happens to a session. -/
inductive Event where
  | use (use : Use)
  /-- A source is read and resolved and then left alone. -/
  | resolve (source : String)
  | evaluate (expression : String)
  | define (name : String) (value : Value)
  /-- A source is read for another session. Its references get numbers all the same. -/
  | read (source : String)

/-- The text that is read. -/
def Event.text? : Event → Option String
  | .use (.run source) | .use (.force source _) | .resolve source | .read source => some source
  | .evaluate expression => some (expression ++ ";")
  | .define .. => none

theorem Stmt.listReferences_append (a b : List Stmt) :
    listReferences (a ++ b) = listReferences a ++ listReferences b := by
  induction a with
  | nil => rfl
  | cons s a ih => rw [List.cons_append, listReferences, listReferences, ih, List.append_assoc]

namespace Session

def step (session : Session) : Event → Session
  | .use use => session.after [use]
  | .resolve source => session.resolved source
  | .evaluate expression => (session.evaluate? expression).2
  | .define name value => session.define name value
  | .read source => (session.read source).2

def through (session : Session) (events : List Event) : Session := events.foldl step session

/-- The statements that can be read at an event, whatever errors there are. -/
def parsed (session : Session) (event : Event) : List Stmt :=
  match event.text? with
  | some text => (session.read text).1.program.statements
  | none => []

/-- All statements that are read in the course of events. -/
def produced (session : Session) : List Event → List Stmt
  | [] => []
  | event :: rest => session.parsed event ++ (session.step event).produced rest

/-- The program has been read since; its references have new numbers, and those from before have
their distances. -/
structure Adds (session after : Session) (program : List Stmt) : Prop where
  le : session.next ≤ after.next
  numbered : Numbered session.next after.next (Stmt.listReferences program)
  kept : ∀ id < session.next,
    after.machine.distances.find? id = session.machine.distances.find? id

variable {session middle after : Session} {program : List Stmt}

theorem Adds.refl (session : Session) : Adds session session [] :=
  ⟨Nat.le_refl _, .nil, fun _ _ => rfl⟩

theorem Adds.append (h : Adds session middle program) {rest : List Stmt}
    (h' : Adds middle after rest) : Adds session after (program ++ rest) := by
  refine ⟨Nat.le_trans h.le h'.le, ?_, fun id hid => ?_⟩
  · rw [Stmt.listReferences_append]
    exact h.numbered.append h'.numbered h.le h'.le
  · rw [h'.kept id (Nat.lt_of_lt_of_le hid h.le), h.kept id hid]

theorem adds_read (session : Session) (source : String) :
    Adds session (session.read source).2 (session.read source).1.program.statements := by
  obtain ⟨hnext, hfits⟩ := session.fits_read source
  exact ⟨hnext, hfits.numbered, fun _ _ => rfl⟩

/-- The static pass over some of the references that were added. -/
theorem Adds.resolve (h : Adds session after program) {part : List Stmt}
    (hpart : ∀ r ∈ Stmt.listReferences part, r ∈ Stmt.listReferences program) :
    Adds session (after.resolve part).2 program := by
  refine ⟨h.le, h.numbered, fun id hid => ?_⟩
  rw [← h.kept id hid]
  refine find?_ofProgram after.knows fun r hr heq => ?_
  have hbounds := h.numbered.bounds r (hpart r hr)
  lia

theorem Adds.perform (h : Adds session after program) {α : Type} {step : Eval α}
    (hstep : Keeps step) : Adds session (after.perform step).2.2 program := by
  have hkeeps := hstep after.quiet
  rw [perform_eq]
  exact ⟨h.le, h.numbered, fun id hid => hkeeps.distances ▸ h.kept id hid⟩

theorem adds_resolved (session : Session) (source : String) :
    Adds session (session.resolved source) (session.read source).1.program.statements :=
  (adds_read session source).resolve fun _ hr => hr

theorem adds_run (session : Session) (source : String) :
    Adds session (session.run source).2 (session.read source).1.program.statements := by
  cases haccept : session.accept? source with
  | none =>
    obtain ⟨-, -, hafter | hafter⟩ := run_of_reject haccept
    · rw [hafter]
      exact adds_read session source
    · rw [hafter]
      exact adds_resolved session source
  | some program =>
    rw [run_of_accept? haccept]
    exact (adds_resolved session source).perform (keeps_interpret _ _)

theorem adds_force (session : Session) (source : String) (resolving : Bool) :
    Adds session (session.force source resolving).2
      (session.read source).1.program.statements := by
  unfold force
  dsimp only
  rw [session.fault?_read source]
  cases resolving with
  | true => exact (adds_resolved session source).perform (keeps_interpret _ _)
  | false => exact (adds_read session source).perform (keeps_interpret _ _)

theorem adds_evaluate (session : Session) (expression : String) :
    Adds session (session.evaluate? expression).2
      (session.read (expression ++ ";")).1.program.statements := by
  have hread := adds_read session (expression ++ ";")
  unfold evaluate?
  dsimp only
  split
  · next e he =>
    obtain ⟨rest, hstatements⟩ := List.head?_eq_some_iff.mp he
    refine (hread.resolve fun r hr => ?_).perform (Keeps.evaluate _ e)
    rw [hstatements, Stmt.listReferences]
    rw [Stmt.listReferences, Stmt.listReferences, List.append_nil] at hr
    exact List.mem_append_left _ hr
  · exact hread

theorem adds_step (session : Session) (event : Event) :
    Adds session (session.step event) (session.parsed event) := by
  cases event with
  | use use =>
    cases use with
    | run source => exact adds_run session source
    | force source resolving => exact adds_force session source resolving
  | resolve source => exact adds_resolved session source
  | evaluate expression => exact adds_evaluate session expression
  | define name value => exact ⟨Nat.le_refl _, .nil, fun _ _ => rfl⟩
  | read source => exact adds_read session source

theorem adds_through (session : Session) (events : List Event) :
    Adds session (session.through events) (session.produced events) := by
  induction events generalizing session with
  | nil => exact .refl session
  | cons event rest ih => exact (adds_step session event).append (ih (session.step event))

/-- All references that are read in the course of any events have different numbers. What happens
after some of the events, successful or not, leaves each reference that they read with the distance
that it had, or without one. -/
theorem distances_kept (session : Session) (earlier later : List Event) :
    ((Stmt.listReferences (session.produced (earlier ++ later))).map (·.id)).Nodup ∧
      ∀ r ∈ Stmt.listReferences (session.produced earlier),
        (session.through (earlier ++ later)).machine.distances.find? r.id =
          (session.through earlier).machine.distances.find? r.id := by
  refine ⟨(adds_through session _).numbered.nodup, fun r hr => ?_⟩
  have hbounds := (adds_through session earlier).numbered.bounds r hr
  rw [through, List.foldl_append]
  exact (adds_through (session.through earlier) later).kept r.id hbounds.2

/-- The target of an assignment is numbered twice, and a declaration with an error uses up numbers
although it is left out. -/
example :
    (Stmt.listReferences ((initial 9).produced
      [.use (.run "var a; a = a;"), .resolve "a.b(a; for (; a; a = nil) print a;"])).map (·.id) =
        [2, 1, 5, 8, 7] := by
  decide +kernel

end Session
end Lox
