import Lox.Proofs.Session.Alike

/-!
# A rejected source leaves no trace

A source with a static error uses up numbers for its references, and if only the static pass finds
the error, distances stay behind. Two sessions that differ in this alone run every source alike. So
a session runs the sources after a rejected one as if it had not been there.
-/
namespace Lox
open Evaluation Resolution

namespace Session
open Lexical

/-- Two sessions keep the same, up to numbers and the distances that belong to them. -/
abbrev Alike := AlikeOn id

theorem Alike.runAll {a b : Session} {l l' : Lexical} (h : Alike a b l l') (sources : List String) :
    (a.runAll sources).1 = (b.runAll sources).1 := by
  have hboth := AlikeOn.runAll h (SameText.all_refl id sources)
  have hid : Outcome.onLines id = id := funext Outcome.onLines_id
  rwa [hid, List.map_id, List.map_id] at hboth

theorem runAll_append (session : Session) (before after : List String) :
    (session.runAll (before ++ after)).1 =
      (session.runAll before).1 ++ ((session.runAll before).2.runAll after).1 := by
  induction before generalizing session with
  | nil => rfl
  | cons source before ih => exact congrArg (List.cons _) (ih _)

theorem length_runAll (session : Session) (sources : List String) :
    (session.runAll sources).1.length = sources.length := by
  induction sources generalizing session with
  | nil => rfl
  | cons source rest ih => exact congrArg Nat.succ (ih _)

/-- A source with a static error prints nothing, and all other sources of the session show what they
show without it. -/
theorem runAll_rejected (fuel : Nat) (before after : List String) {source : String}
    (h : (((initial fuel).runAll before).2.run source).1.status = .staticError) :
    let shown := ((initial fuel).runAll (before ++ after)).1
    ∃ diagnostics, ((initial fuel).runAll (before ++ source :: after)).1 =
      shown.take before.length ++
        { status := .staticError, diagnostics, output := "" } :: shown.drop before.length := by
  intro shown
  have hlinked := (linked_initial Lexical.invariant fuel).followAll before
  have hreject := accept?_of_static h
  have halike : Alike _ _ _ _ :=
    ⟨fuel_run_of_reject hreject, hlinked.rejected hreject, hlinked, rfl⟩
  have hshown : shown = _ := runAll_append (initial fuel) before after
  have hlength := length_runAll (initial fuel) before
  have htake : shown.take before.length = ((initial fuel).runAll before).1 := by
    rw [← hlength, hshown, List.take_left]
  have hdrop : shown.drop before.length =
      (((initial fuel).runAll before).2.runAll after).1 := by
    rw [← hlength, hshown, List.drop_left]
  refine ⟨((initial fuel).runAll before).2.staticErrors source, ?_⟩
  rw [runAll_append, htake, hdrop, ← halike.runAll after]
  exact congrArg (_ ++ List.cons · _) (run_of_reject_fst hreject)

/-- A variable, and a function that reads it. -/
def readingFunction : String := "var a = true;\nfun f() \x7b return a; \x7d"

/-- A block whose references have distances, and then what must not stand there. -/
def strayReturn : String := "\x7b var a = nil; print a; \x7d\nreturn a;"

/-- The rejected source leaves distances behind, and the function reads its variable as without it. -/
theorem runAll_rejected_stray :
    let session := ((initial 9).runAll [readingFunction]).2
    let shown := ((initial 9).runAll [readingFunction, "print f();"]).1
    ((session.run strayReturn).2.machine.distances.find? session.next).isSome = true ∧
      shown.map (·.output) = ["", "true\n"] ∧
      ∃ diagnostics, ((initial 9).runAll [readingFunction, strayReturn, "print f();"]).1 =
        shown.take 1 ++ { status := .staticError, diagnostics, output := "" } :: shown.drop 1 := by
  refine ⟨by decide +kernel, by decide +kernel, ?_⟩
  exact runAll_rejected 9 [readingFunction] ["print f();"] (by decide +kernel)

end Session
end Lox
