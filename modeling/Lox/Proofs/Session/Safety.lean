import Lox.Proofs.Dispatch.Sessions

/-!
# No session meets a fault

Sources may be run as programs, which executes them if they have no static error, or forced, which
executes what of them can be parsed whatever their errors are, with or without the static pass. In
whatever order a session does this, and whatever functions, classes and instances of earlier
sources the later ones use, the promises between the passes are kept: the parser stays within its
tokens, no distance leads past the outermost scope, and at the distance of a `super` there is a
class, with an instance under `this` one scope further in.
-/
namespace Lox
open Evaluation Resolution

/-- What can be done with a source. -/
inductive Use where
  | run (source : String)
  | force (source : String) (resolving : Bool)

namespace Session

/-- The fault that ends an execution. -/
def faultOf? : Except Halt Unit → Option Fault
  | .error (.fault fault) => some fault
  | .ok () | .error (.failure _) | .error .outOfFuel => none

/-- The fault that ends a use of a source. -/
def fault? (session : Session) : Use → Option Fault
  | .run source => (session.run source).1.fault?
  | .force source resolving => faultOf? (session.force source resolving).1.result

/-- The session after uses of sources. -/
def after (session : Session) : List Use → Session
  | [] => session
  | .run source :: rest => (session.run source).2.after rest
  | .force source resolving :: rest => (session.force source resolving).2.after rest

variable {strict : Prop} {session : Session} {o : Observed}

theorem faultOf?_eq_none {result : Except Halt Unit}
    (h : ∀ fault, result ≠ .error (.fault fault)) : faultOf? result = none := by
  unfold faultOf?
  split
  · exact absurd rfl (h _)
  · rfl
  · rfl
  · rfl

theorem fault?_outcome {result : Except Halt Unit} (output : String)
    (h : ∀ fault, result ≠ .error (.fault fault)) : (outcome result output).fault? = none := by
  unfold outcome
  split
  · rfl
  · rfl
  · exact absurd rfl (h _)
  · rfl

/-- A source that is run keeps the link; in a strict setting too, since only clean programs are
executed. -/
theorem Linked.run (h : Linked (Observed.invariant strict) session o) (source : String) :
    (session.run source).1.fault? = none ∧
      ∃ o, Linked (Observed.invariant strict) (session.run source).2 o := by
  refine ⟨?_, _, h.follow source⟩
  cases haccept : session.accept? source with
  | none => exact (run_of_reject haccept).2.1
  | some program =>
    obtain ⟨-, hended, -⟩ := (h.resolved source).interpret (h.accepted haccept) session.fuel
    rw [run_of_accept? haccept, perform_eq]
    exact fault?_outcome _ hended.1

/-- A source that is forced keeps the link. -/
theorem Linked.force (h : Linked (Observed.invariant False) session o) (source : String)
    (resolving : Bool) :
    (∀ fault, (session.force source resolving).1.result ≠ .error (.fault fault)) ∧
      ∃ o, Linked (Observed.invariant False) (session.force source resolving).2 o := by
  have hfits := (session.fits_read source).2
  unfold Session.force
  have hfault := session.fault?_read source
  dsimp only
  rw [hfault]
  cases resolving with
  | true =>
    obtain ⟨-, hended, hlinked⟩ :=
      (h.resolved source).interpret (h.within hfits False.elim) session.fuel
    simp only [if_true, perform_eq]
    exact ⟨hended.1, _, hlinked⟩
  | false =>
    have hwithin : Stmt.BodyWithin _ { globals := session.machine.knows }
        (session.read source).1.program.statements :=
      ⟨hfits.wellFormed, admits_unresolved hfits.numbered h.fresh _⟩
    obtain ⟨-, hended, hlinked⟩ := (h.read source).interpret hwithin session.fuel
    simp only [Bool.false_eq_true, if_false, perform_eq]
    exact ⟨hended.1, _, hlinked⟩

/-- Every use keeps the link. -/
theorem Linked.after (h : Linked (Observed.invariant False) session o) (uses : List Use) :
    ∃ o, Linked (Observed.invariant False) (session.after uses) o := by
  induction uses generalizing session o with
  | nil => exact ⟨o, h⟩
  | cons use uses ih =>
    cases use with
    | run source =>
      obtain ⟨-, o', hlinked⟩ := h.run source
      exact ih hlinked
    | force source resolving =>
      obtain ⟨-, o', hlinked⟩ := h.force source resolving
      exact ih hlinked

/-- After any uses of sources in any order, a use of another source meets no fault. -/
theorem fault?_after (fuel : Nat) (uses : List Use) (use : Use) :
    ((initial fuel).after uses).fault? use = none := by
  obtain ⟨o, hlinked⟩ := (linked_initial (Observed.invariant False) fuel).after uses
  cases use with
  | run source => exact (hlinked.run source).1
  | force source resolving => exact faultOf?_eq_none (hlinked.force source resolving).1

end Session
end Lox
