import Lox.Proofs.Record.Accounts
import Lox.Proofs.Record.InStep
import Lox.Proofs.Session.Safety

/-!
# Runs of sessions that are recorded

The machine with which a session starts a program stands where the program may rely on it: in a
strict setting if only clean programs were run and this one is clean, and in one that is not strict
whatever was run and whether the program was resolved or not.
-/
namespace Lox
open Evaluation Resolution

namespace Session
variable {strict : Prop} {session : Session} {o : Observed} {program : List Stmt} {hi : NodeId}

/-- A machine stands where a program is admitted. -/
def Starts (strict : Prop) (m : Machine) (program : List Stmt) : Prop :=
  ∃ setting w, (setting.strict ↔ strict) ∧ Observed.Stands setting ⟨outermostScope, {}⟩ w m ∧
    Stmt.BodyWithin setting.Admits { globals := m.knows } program

theorem Linked.stands (h : Linked (Observed.invariant strict) session o) :
    ∃ w, Observed.Stands ⟨session.machine.distances, session.next, strict⟩ ⟨outermostScope, {}⟩ w
      session.quiet := by
  obtain ⟨w, hfollows⟩ := h.along
  exact ⟨w, (Observed.stands_of_follows hfollows).quiet⟩

/-- Numbers are left out, so that no number of the program was given before. -/
theorem fitsBody_max (hprogram : Parser.FitsBody session.next hi program) :
    Parser.FitsBody session.next (max session.next hi) program :=
  ⟨hprogram.numbered.mono (Nat.le_refl _) (Nat.le_max_right session.next hi), hprogram.wellFormed⟩

theorem Linked.starts_resolved (h : Linked (Observed.invariant strict) session o)
    (hprogram : Parser.FitsBody session.next hi program)
    (hclean : strict → (session.resolve program).1 = []) :
    Starts strict (session.resolve program).2.quiet program := by
  have hfits := fitsBody_max hprogram
  obtain ⟨w, hstands⟩ := (h.resolve (Nat.le_max_left _ hi) hfits).stands
  exact ⟨_, w, .rfl, hstands, h.within hfits hclean⟩

theorem Linked.starts_unresolved (h : Linked (Observed.invariant False) session o)
    (hprogram : Parser.FitsBody session.next hi program) : Starts False session.quiet program := by
  have hfits := fitsBody_max hprogram
  have hlater := h.later (Nat.le_max_left _ hi) (fun _ _ => rfl)
    fun id hid => h.fresh id (Nat.le_trans (Nat.le_max_left _ hi) hid)
  obtain ⟨w, hstands⟩ := hlater.stands
  exact ⟨_, w, .rfl, hstands, hprogram.wellFormed, admits_unresolved hfits.numbered h.fresh _⟩

/-- A clean program that comes after any sources. -/
theorem starts_of_clean (fuel : Nat) (sources : List String)
    (hprogram : Parser.FitsBody ((initial fuel).runAll sources).2.next hi program)
    (hclean : (((initial fuel).runAll sources).2.resolve program).1 = []) :
    Starts True (((initial fuel).runAll sources).2.resolve program).2.quiet program :=
  ((linked_initial (Observed.invariant True) fuel).followAll sources).starts_resolved hprogram
    fun _ => hclean

/-- A program that is executed after any uses of sources, resolved or not. -/
def starting (session : Session) (resolving : Bool) (program : List Stmt) : Machine :=
  if resolving then (session.resolve program).2.quiet else session.quiet

theorem starts_after (fuel : Nat) (uses : List Use)
    (hprogram : Parser.FitsBody ((initial fuel).after uses).next hi program) (resolving : Bool) :
    Starts False (((initial fuel).after uses).starting resolving program) program := by
  obtain ⟨o, hlinked⟩ := (linked_initial (Observed.invariant False) fuel).after uses
  cases resolving with
  | true => exact hlinked.starts_resolved hprogram False.elim
  | false => exact hlinked.starts_unresolved hprogram

end Session
end Lox
