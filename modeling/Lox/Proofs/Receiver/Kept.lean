import Lox.Proofs.Dispatch.Sessions
import Lox.Proofs.Receiver.InStep

/-!
# Methods keep their receivers

In every session of programs without static errors `this` is the instance that the running method was
got from, wherever the method was stored meanwhile and whoever calls it, and also in the functions
that were declared in its body. What `this` and `super` are bound to never changes; a method that is
bound is a new function in a new scope and leaves all that exists as it is.
-/
namespace Lox
open Evaluation Resolution

namespace Evaluation.Marked

/-- Marked machines that go along with sessions. -/
def companion : Companion Marked where
  operations := operations
  initial := .initial
  start machine t := { t with machine }

/-- Marked machines follow the machines of sessions that run clean programs. -/
def invariant : companion.Invariant True where
  Along next m t :=
    ∃ w, Marks ⟨m.distances, next, True⟩ ⟨outermostScope, {}⟩ w m { t with machine := m }
  Ended next _ m t := ∃ w, Marks ⟨m.distances, next, True⟩ ⟨outermostScope, {}⟩ w m t
  initial := by
    refine ⟨_, rfl, Observed.stands_initial _ rfl, rfl, ?_, nofun, nofun, List.pairwise_singleton _ _⟩
    funext f
    rfl
  later := by
    rintro next next' m t table ⟨w, hmarks⟩ hnext htable
    have hlater : Setting.Later ⟨m.distances, next, True⟩ ⟨table, next', True⟩ :=
      ⟨hnext, htable, .rfl⟩
    exact ⟨w, hmarks.replaced (hmarks.stands.later hlater)⟩
  quiet := by
    rintro next m t ⟨w, hmarks⟩
    exact ⟨w, hmarks.replaced hmarks.stands.quiet⟩
  between := by
    rintro next result m t ⟨w, hmarks⟩
    exact ⟨w, hmarks.replaced hmarks.stands.quiet⟩
  interpret := by
    rintro next m t program fuel ⟨w, hmarks⟩ hprogram
    have sim : Simulates (correspondence ⟨m.distances, next, True⟩) Operations.machine operations :=
      simulates trivial
    obtain ⟨names, hrun⟩ := sim.interpret fuel hprogram ⟨hmarks, hmarks.stands.fits⟩
    rw [Operations.machine_interpret] at hrun
    obtain ⟨hresult, w', -, hended⟩ := sim.ends hrun
    change Marks ⟨m.distances, next, True⟩ ⟨outermostScope, {}⟩ w' _ _ at hended
    refine ⟨hresult, hended.stands.distances, w', ?_⟩
    rw [hended.stands.distances]
    exact hended

end Evaluation.Marked

namespace Session

/-- After any sources, a clean program ends marked as it ends otherwise. In it and in the sources
before it every `this` has been the instance that the running code was got from; each store has kept
what `this` and `super` were bound to in all stores before it; and every binding of a method has
added one scope and one function, with the instance that the method was got from as `this`. -/
theorem receivers_kept (fuel : Nat) (sources : List String) {program : List Stmt} {hi : NodeId}
    (hprogram : Parser.FitsBody ((initial fuel).runAll sources).2.next hi program)
    (hclean : (((initial fuel).runAll sources).2.resolve program).1 = []) (limit : Nat) :
    let session := ((initial fuel).runAll sources).2
    let before := Marked.companion.followAll (initial fuel) .initial sources
    let machine := (session.resolve program).2.quiet
    let ended := Evaluation.interpret limit program machine
    let marked := Marked.operations.interpret limit program { before with machine }
    resultOf marked = resultOf ended ∧ (stateOf marked).machine = stateOf ended ∧
      (∀ read ∈ (stateOf marked).reads, read.Faithful) ∧
      ((stateOf ended).store :: (stateOf marked).stores).Pairwise
        (fun later earlier => earlier.KeepsSpecial later) ∧
      ∀ binding ∈ (stateOf marked).bindings, binding.Exact := by
  have hended := ended_of_clean Marked.invariant fuel sources hprogram hclean limit
  obtain ⟨hresult, next, w, hmarks⟩ := hended
  have hstores := hmarks.stores
  rw [hmarks.stands.store] at hstores
  refine ⟨hresult.symm, hmarks.machine, hmarks.reads, ?_, hmarks.bindings⟩
  exact hstores.imp Preserves.keepsSpecial

/-- A method that is inherited through `super` returns a function that returns `this`. It is got
from an instance of the subclass and stored in a field of an instance of the superclass. -/
def storingSource : String :=
  "class A \x7b get() \x7b fun inner() \x7b return this; \x7d return inner; \x7d \x7d" ++
  "class B < A \x7b get() \x7b return super.get(); \x7d \x7d" ++
  "var b = B(); var a = A(); a.m = b.get;"

/-- Calls the method, and the function that it returns. -/
def callingProgram : List Stmt :=
  [.expression (.call (.call (.get (.variable 8 ⟨"a", 1⟩) ⟨"m", 1⟩) 1 []) 1 [])]

theorem fits_callingProgram {lo : NodeId} (hlo : lo ≤ 8) : Parser.FitsBody lo 9 callingProgram := by
  constructor
  · constructor
    · decide
    · intro r hr
      obtain rfl := List.mem_singleton.mp hr
      exact ⟨hlo, Nat.lt_succ_self 8⟩
    · simp [callingProgram, Stmt.listReferences, Stmt.references, Expr.references,
        Expr.references.listReferences, Reference.Proper, Name.Ordinary]
  · simp [callingProgram, Stmt.AllWellFormed, Stmt.WellFormed]

/-- `this` is the instance of the subclass, which is the first one that was made. -/
theorem receivers_kept_stored :
    let session := ((initial 9).runAll [storingSource]).2
    let before := Marked.companion.followAll (initial 9) .initial [storingSource]
    let machine := (session.resolve callingProgram).2.quiet
    let marked := Marked.operations.interpret 9 callingProgram { before with machine }
    (resultOf marked = .ok () ∧
      (stateOf marked).reads.map (·.receiver) = [some 0] ∧
      (stateOf marked).bindings.map (·.receiver) = [some 0, some 0]) ∧
      (∀ read ∈ (stateOf marked).reads, read.Faithful) ∧
      ∀ binding ∈ (stateOf marked).bindings, binding.Exact := by
  have hstart : ((initial 9).runAll [storingSource]).2.next ≤ 8 ∧
      (((initial 9).runAll [storingSource]).2.resolve callingProgram).1 = [] := by decide +kernel
  have hkept := receivers_kept 9 [storingSource] (fits_callingProgram hstart.1) hstart.2 9
  exact ⟨by decide +kernel, hkept.2.2.1, hkept.2.2.2.2⟩

end Session
end Lox
