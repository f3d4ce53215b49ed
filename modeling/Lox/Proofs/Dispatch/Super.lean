import Lox.Proofs.Dispatch.Sessions
import Mathlib

/-!
# Where `super` leads

In every session each evaluation of `super` leads to the closest method from the class upwards that
the superclass of the innermost class declaration was when that declaration was executed, bound to
the instance that is `this` there; or it is an error that the method is undefined.
-/
namespace Lox
open Evaluation Resolution

namespace Session

/-- After any sources, a clean program ends observed as it ends otherwise, and every evaluation of
`super` in it and in the sources before it is dispatched. -/
theorem super_dispatched (fuel : Nat) (sources : List String) {program : List Stmt} {hi : NodeId}
    (hprogram : Parser.FitsBody ((initial fuel).runAll sources).2.next hi program)
    (hclean : (((initial fuel).runAll sources).2.resolve program).1 = []) (limit : Nat) :
    let session := ((initial fuel).runAll sources).2
    let before := Observed.companion.followAll (initial fuel) .initial sources
    let machine := (session.resolve program).2.quiet
    let ended := Evaluation.interpret limit program machine
    let observed := Observed.operations.interpret limit program { before with machine }
    resultOf observed = resultOf ended ∧ (stateOf observed).machine = stateOf ended ∧
      ∀ call ∈ (stateOf observed).calls, call.Dispatched := by
  have hended := ended_of_clean (Observed.invariant True) fuel sources hprogram hclean limit
  obtain ⟨hresult, next, -, w, hfollows⟩ := hended
  exact ⟨hresult.symm, hfollows.machine, hfollows.calls trivial⟩

/-- A class whose method calls the method of its superclass, and a call of it. -/
def inheritingProgram : List Stmt :=
  [.classDecl ⟨"A", 1⟩ none [⟨⟨"m", 1⟩, [], []⟩],
    .classDecl ⟨"B", 2⟩ (some ⟨0, ⟨"A", 2⟩⟩)
      [⟨⟨"m", 2⟩, [], [.expression (.call (.super 1 2 ⟨"m", 2⟩) 2 [])]⟩],
    .expression (.call (.get (.call (.variable 2 ⟨"B", 3⟩) 3 []) ⟨"m", 3⟩) 3 [])]

theorem fits_inheritingProgram : Parser.FitsBody 0 3 inheritingProgram := by
  constructor
  · constructor
    · decide
    · decide
    · simp [inheritingProgram, Stmt.listReferences, Stmt.references, Stmt.methodReferences,
        Stmt.functionReferences, Superclass.references, Expr.references,
        Expr.references.listReferences, Reference.Proper, Name.Ordinary]
  · simp [inheritingProgram, Stmt.AllWellFormed, Stmt.WellFormed, Stmt.MethodsWellFormed,
      Stmt.FunctionWellFormed, Name.Ordinary]

/-- The one evaluation of `super` in the program is dispatched. -/
theorem super_dispatched_inherited :
    let machine := ((initial 9).resolve inheritingProgram).2.quiet
    let observed :=
      Observed.operations.interpret 9 inheritingProgram { Observed.initial with machine }
    resultOf observed = .ok () ∧ (stateOf observed).calls.size = 1 ∧
      ∀ call ∈ (stateOf observed).calls, call.Dispatched := by
  have hclean : ((initial 9).resolve inheritingProgram).1 = [] := by cbv
  have hdispatched := super_dispatched 9 [] fits_inheritingProgram hclean 9
  refine ⟨?_, ?_, hdispatched.2.2⟩
  · cbv
  · cbv

end Session
end Lox
