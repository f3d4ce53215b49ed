import Lox.Proofs.Evaluation.Fuel
import Lox.Proofs.Scoping.InStep
import Lox.Proofs.Session.Companions
import Mathlib

/-!
# Static scoping is exact

The distances that the static pass finds lead to the variables that names mean lexically. In every
session, programs without static errors print what they print where a scope is a map from names to
locations and end as they do there, with or without an error.
-/
namespace Lox
open Evaluation Resolution

namespace Evaluation.Lexical

/-- Lexical states that go along with sessions. A program starts outside of all local scopes. -/
def companion : Companion Lexical where
  operations := operations
  initial := {}
  start _ l := { l with environment := {}, output := "" }

variable {setting setting' : Setting} {globals p : ScopeId} {w : Layout} {m : Machine} {l : Lexical}

/-- Nothing was run yet. -/
theorem agrees_initial (setting : Setting) (htable : setting.table = {}) :
    Agrees setting Machine.initial.globals Machine.initial.globals
      ⟨Machine.initial.store, {}, #[], #[]⟩ .initial {} := by
  have hunbound (s : ScopeId) (name : String) :
      Machine.initial.store.findLocal? s name = none := by
    change (Store.newScope {} {}).1.findLocal? s name = none
    rw [Store.findLocal?_newScope]
    split <;> rfl
  have hbound {s : ScopeId} {name : String} {v : Value} :
      Machine.initial.store.findLocal? s name ≠ some v := by
    rw [hunbound]
    exact nofun
  constructor
  · rfl
  · rfl
  · rfl
  · exact ⟨rfl, rfl, rfl⟩
  · exact ⟨fun hv => absurd hv hbound, nofun, nofun⟩
  · constructor
    · rfl
    · exact nofun
    · exact nofun
    · exact nofun
    · exact fun hv => absurd hv hbound
    · exact fun name => hunbound _ name
    · exact Nat.zero_lt_one
    · rfl
  · rfl
  · rfl
  · exact htable.symm
  · rfl
  · rfl

theorem Agrees.later (h : Agrees setting globals p w m l) (hlater : setting.Later setting') :
    Agrees setting' globals p w { m with distances := setting'.table } l := by
  have hholds := h.holds.imp (fun _ hv => hv.later hlater) fun _ hf => hf.later hlater
  exact ⟨h.store, h.objects, h.environments, h.alike, hholds, h.memory, h.globals, h.scope, rfl,
    h.callDepth, h.output⟩

theorem Agrees.printed (h : Agrees setting globals p w m l) (output : String) :
    Agrees setting globals p w { m with output } { l with output } :=
  ⟨h.store, h.objects, h.environments, h.alike, h.holds, h.memory, h.globals, h.scope, h.distances,
    h.callDepth, rfl⟩

/-- A program starts in the global scope. -/
theorem Agrees.runs (h : Agrees setting globals globals w m l) (known : String → Bool) :
    Runs globals globals w { globals := known } {} := by
  constructor
  · exact ⟨nofun, fun _ => rfl⟩
  · exact nofun
  · exact fun hslot => absurd rfl (h.memory.inner hslot).1
  · rfl
  · exact ⟨fun _ => rfl, fun _ => rfl⟩
  · rw [h.store]
    exact h.memory.known

/-- Lexical states agree with the machines of sessions that run clean programs. -/
def invariant : companion.Invariant True where
  Along next m l := m.output = "" ∧
    ∃ w, Agrees ⟨m.distances, next, True⟩ m.globals m.globals w m { l with output := "" }
  Ended next _ m l := ∃ w, Agrees ⟨m.distances, next, True⟩ m.globals m.globals w m l
  initial := ⟨rfl, _, agrees_initial _ rfl⟩
  later := by
    rintro next next' m l table ⟨houtput, w, hagrees⟩ hnext htable
    exact ⟨houtput, w, hagrees.later ⟨hnext, htable, .rfl⟩⟩
  quiet := by
    rintro next m l ⟨-, w, hagrees⟩
    exact ⟨rfl, w, hagrees.printed ""⟩
  between := by
    rintro next result m l ⟨w, hagrees⟩
    exact ⟨rfl, w, hagrees.printed ""⟩
  interpret := by
    rintro next m l program fuel ⟨houtput, w, hagrees⟩ hprogram
    have sim : Simulates (correspondence ⟨m.distances, next, True⟩ m.globals) Operations.machine
        operations := simulates trivial m.globals
    obtain ⟨names, hrun⟩ := sim.interpret fuel hprogram ⟨hagrees.placed {}, hagrees.runs _⟩
    rw [Operations.machine_interpret] at hrun
    obtain ⟨hresult, w', -, hended⟩ := sim.ends hrun
    change Agrees ⟨m.distances, next, True⟩ m.globals m.globals w' _ _ at hended
    refine ⟨hresult, hended.distances, w', ?_⟩
    rw [hended.distances, hended.globals]
    exact hended

end Evaluation.Lexical

namespace Session

/-- After any sources, a clean program that comes to an end does so in the machine exactly if it
does so lexically, and then it has printed the same text and ended in the same way. -/
theorem scoping_exact (fuel : Nat) (sources : List String) {program : List Stmt} {hi : NodeId}
    (hprogram : Parser.FitsBody ((initial fuel).runAll sources).2.next hi program)
    (hclean : (((initial fuel).runAll sources).2.resolve program).1 = []) :
    let session := ((initial fuel).runAll sources).2
    let before := Lexical.companion.followAll (initial fuel) {} sources
    let run limit := Evaluation.interpret limit program (session.resolve program).2.quiet
    let reference limit :=
      Lexical.operations.interpret limit program { before with environment := {}, output := "" }
    (∀ limit limit', resultOf (run limit) ≠ .error .outOfFuel →
      resultOf (reference limit') ≠ .error .outOfFuel →
        resultOf (run limit) = resultOf (reference limit') ∧
          (stateOf (run limit)).output = (stateOf (reference limit')).output) ∧
    ((∃ limit, resultOf (run limit) ≠ .error .outOfFuel) ↔
      ∃ limit, resultOf (reference limit) ≠ .error .outOfFuel) := by
  intro session before run reference
  have hsame (limit : Nat) : resultOf (run limit) = resultOf (reference limit) ∧
      (stateOf (run limit)).output = (stateOf (reference limit)).output := by
    obtain ⟨hresult, next, w, hagrees⟩ :=
      ended_of_clean Lexical.invariant fuel sources hprogram hclean limit
    exact ⟨hresult, hagrees.output⟩
  constructor
  · intro limit limit' hrun hreference
    obtain ⟨hresult, houtput⟩ := hsame limit'
    -- With more fuel than both have, the machine does what it does with either.
    rw [← hresult] at hreference
    have hmost := interpret_more (Nat.le_max_left limit limit') program _ hrun
    have hmost' := interpret_more (Nat.le_max_right limit limit') program _ hreference
    have hequal : run limit = run limit' := hmost.symm.trans hmost'
    rw [hequal]
    exact ⟨hresult, houtput⟩
  · constructor
    · rintro ⟨limit, hrun⟩
      rw [(hsame limit).1] at hrun
      exact ⟨limit, hrun⟩
    · rintro ⟨limit, hreference⟩
      rw [← (hsame limit).1] at hreference
      exact ⟨limit, hreference⟩

/-- A function is declared and called where a name is that of a variable further out, before and
after the name is declared anew. -/
def shadowingProgram : List Stmt :=
  [.block [.varDecl ⟨"a", 1⟩ (some (.literal (.string "outer"))),
    .block [.funDecl ⟨⟨"show", 2⟩, [], [.print (.variable 0 ⟨"a", 2⟩)]⟩,
      .expression (.call (.variable 1 ⟨"show", 3⟩) 3 []),
      .varDecl ⟨"a", 4⟩ (some (.literal (.string "inner"))),
      .expression (.call (.variable 2 ⟨"show", 5⟩) 5 [])]]]

theorem fits_shadowingProgram : Parser.FitsBody 0 3 shadowingProgram := by
  constructor
  · constructor
    · decide
    · decide
    · simp [shadowingProgram, Stmt.listReferences, Stmt.references, Stmt.functionReferences,
        Expr.references, Expr.references.listReferences, Reference.Proper, Name.Ordinary]
  · simp [shadowingProgram, Stmt.AllWellFormed, Stmt.WellFormed, Stmt.FunctionWellFormed,
      Name.Ordinary]

/-- Both print the variable that the name meant where the function was declared. -/
theorem scoping_exact_shadowed :
    let run := Evaluation.interpret 9 shadowingProgram ((initial 9).resolve shadowingProgram).2.quiet
    let reference := Lexical.operations.interpret 9 shadowingProgram {}
    resultOf run = .ok () ∧ (stateOf run).output = "outer\nouter\n" ∧
      resultOf run = resultOf reference ∧
        (stateOf run).output = (stateOf reference).output := by
  have hclean : ((initial 9).resolve shadowingProgram).1 = [] := by cbv
  have hexact := (scoping_exact 9 [] fits_shadowingProgram hclean).1 9 9
  have hrun : resultOf (Evaluation.interpret 9 shadowingProgram
      ((initial 9).resolve shadowingProgram).2.quiet) = .ok () := by cbv
  have hreference : resultOf (Lexical.operations.interpret 9 shadowingProgram {}) = .ok () := by cbv
  refine ⟨hrun, ?_, hexact ?_ ?_⟩
  · cbv
  · intro hout
    cases hrun.symm.trans hout
  · intro hout
    cases hreference.symm.trans hout

end Session
end Lox
