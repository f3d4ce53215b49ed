import Lox.Proofs.Scoping.Exact
import Lox.Proofs.Scoping.Lines

/-!
# Two programs in sequence

A program that consists of two, of which the second one is on other lines, does what both do one
after the other. The lines of the second one are told apart from those of earlier functions by being
odd, so that one run tells of each error which text it is in, and what is reported if this text is
on other lines.
-/
namespace Lox
open Evaluation

namespace Evaluation

/-- A program ends as its statements do. -/
theorem interpret_eq {σ : Type} (ops : Operations σ) (fuel : Nat) (program : List Stmt) (s : σ) :
    ops.interpret fuel program s =
      match runAll (ops.execute fuel) program s with
      | .ok _ s' => .ok () s'
      | .error halt s' => .error halt s' := by
  simp only [Operations.interpret, bind, EStateM.bind]
  cases runAll (ops.execute fuel) program s <;> rfl

namespace Lexical

/-- The lines of two texts, told apart: those of the second one are odd. -/
def tagged (second : Bool) (n : Nat) : Nat := 2 * n + second.toNat

/-- The line that is meant by a tagged one, if the second text is on other lines. -/
def untagged (line : Nat → Nat) (n : Nat) : Nat := if n % 2 = 0 then n / 2 else line (n / 2)

theorem untagged_comp_first (line : Nat → Nat) : untagged line ∘ tagged false = id := by
  funext n
  simp [untagged, tagged]

theorem untagged_comp_second (line : Nat → Nat) : untagged line ∘ tagged true = line := by
  funext n
  have hhalf : (2 * n + 1) / 2 = n := by omega
  simp [untagged, tagged, hhalf]

variable {fuel : Nat} {first second both : List Stmt} {l l' : Lexical} {line : Nat → Nat}

/-- What a program does on any lines is known from one run in which its lines are told apart from
those of earlier functions. -/
theorem interpret_tagged (printed : String) :
    operations.interpret fuel (Stmt.listOnLines line second) (l.onLines id printed) =
      resultOnLines (untagged line) printed
        (operations.interpret fuel (Stmt.listOnLines (tagged true) second)
          (l.onLines (tagged false) "")) := by
  have hsecond : Stmt.listOnLines (untagged line) (Stmt.listOnLines (tagged true) second) =
      Stmt.listOnLines line second := by
    rw [Stmt.listOnLines_onLines, untagged_comp_second]
  have hstate : (l.onLines (tagged false) "").onLines (untagged line) printed =
      l.onLines id printed := by
    rw [onLines_onLines, untagged_comp_first, String.append_empty]
  rw [← mirrors_interpret, hsecond, hstate]

theorem interpret_untagged (fuel : Nat) (l : Lexical) {program : List Stmt}
    (hprogram : Stmt.listOnLines id program = Stmt.listOnLines line second) :
    resultOnLines id "" (operations.interpret fuel program l) =
      resultOnLines (untagged line) ""
        (operations.interpret fuel (Stmt.listOnLines (tagged true) second)
          (l.onLines (tagged false) "")) := by
  rw [← mirrors_interpret fuel program l, hprogram, interpret_tagged]

/-- A program that consists of two runs the second one in the state in which the first one ends. -/
theorem interpret_both
    (hboth : Stmt.listOnLines id both = Stmt.listOnLines id first ++ Stmt.listOnLines line second)
    (hfirst : runAll (operations.execute fuel) first l = .ok .normal l') :
    resultOnLines id "" (operations.interpret fuel both l) =
      resultOnLines (untagged line) l'.output
        (operations.interpret fuel (Stmt.listOnLines (tagged true) second)
          (({ l' with output := "" } : Lexical).onLines (tagged false) "")) := by
  have hmirror : runAll (operations.execute fuel) (Stmt.listOnLines id first) (l.onLines id "") =
      .ok .normal (l'.onLines id "") := by
    rw [mirrors_runAll (mirrors_evaluators fuel).execute first l, hfirst]
    rfl
  have hstate : l'.onLines id "" = ({ l' with output := "" } : Lexical).onLines id l'.output := by
    unfold onLines
    simp
  rw [← mirrors_interpret fuel both l, hboth, ← interpret_tagged, ← hstate, interpret_eq,
    interpret_eq, runAll_append, hmirror]

/-- A program that consists of two fails where the first one fails. -/
theorem interpret_both_of_error {halt : Halt}
    (hboth : Stmt.listOnLines id both = Stmt.listOnLines id first ++ Stmt.listOnLines line second)
    (hfirst : runAll (operations.execute fuel) first l = .error halt l') :
    resultOnLines id "" (operations.interpret fuel both l) =
      resultOnLines id "" (.error halt l') := by
  have hmirror : runAll (operations.execute fuel) (Stmt.listOnLines id first) (l.onLines id "") =
      resultOnLines id "" (.error halt l') := by
    rw [mirrors_runAll (mirrors_evaluators fuel).execute first l, hfirst]
  rw [← mirrors_interpret fuel both l, hboth, interpret_eq, runAll_append, hmirror]
  rfl

/-- The state in which a program of a session starts. -/
def fresh (l : Lexical) : Lexical := { l with environment := {}, output := "" }

/-- Outside of all functions a clean program does not return. -/
theorem runAll_ne_returned {next : NodeId} {m : Machine} {program : List Stmt}
    (h : invariant.Along next m l)
    (hprogram : Stmt.BodyWithin (Resolution.Setting.Admits ⟨m.distances, next, True⟩)
      { globals := m.knows } program) (v : Value) (l' : Lexical) :
    runAll (operations.execute fuel) program l.fresh ≠ .ok (.returned v) l' := by
  obtain ⟨-, w, hagrees⟩ := h
  have sim : Simulates (correspondence ⟨m.distances, next, True⟩ m.globals) Operations.machine
      operations := simulates trivial m.globals
  obtain ⟨names, hrun⟩ := sim.runAll (sim.evaluators fuel).executes hprogram
    ⟨hagrees.placed {}, hagrees.runs m.knows⟩
  change (correspondence ⟨m.distances, next, True⟩ m.globals).Sim m.globals w _ _ _
    (runAll (operations.execute fuel) program l.fresh) at hrun
  intro hreturned
  refine hrun.ne_returned ?_ v (congrArg resultOf hreturned)
  rintro ⟨site, line, hasValue, hkind, hadmits⟩
  exact Resolution.Setting.not_admits_exit trivial hkind hadmits

end Lexical
end Evaluation

end Lox
