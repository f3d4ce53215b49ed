import Lox.Proofs.Dispatch.Sessions
import Lox.Proofs.Lookup.InStep
import Mathlib

/-!
# Every resolved name is found

In every session of programs without static errors, each name that is read has a binding in the
scope that its distance leads to, whenever the code that reads it runs: in closures that are called
later, in the scopes of repeated loops, and after runs that have failed. Only names that have
resolved to the globals can be undefined, and not even these in their own initializers.
-/
namespace Lox
open Evaluation Resolution

namespace Evaluation.Watched

/-- Watched machines that go along with sessions. -/
def companion : Companion Watched where
  operations := operations
  initial := .initial
  start machine t := { t with machine, declaring := none }

/-- Watched machines follow the machines of sessions that run clean programs. -/
def invariant : companion.Invariant True where
  Along next m t := ∃ w, Watches ⟨m.distances, next, True⟩ ⟨outermostScope, {}⟩ w m
    { t with machine := m }
  Ended next result m t := ∃ w, (∀ halt, result = .error halt → Explained w.2 halt) ∧
    Watches ⟨m.distances, next, True⟩ ⟨outermostScope, {}⟩ w m t
  initial := ⟨(_, #[]), rfl, Observed.stands_initial _ rfl, rfl, nofun⟩
  later := by
    rintro next next' m t table ⟨w, hwatches⟩ hnext htable
    have hlater : Setting.Later ⟨m.distances, next, True⟩ ⟨table, next', True⟩ :=
      ⟨hnext, htable, .rfl⟩
    exact ⟨w, rfl, hwatches.stands.later hlater, hwatches.lookups, hwatches.found⟩
  quiet := by
    rintro next m t ⟨w, hwatches⟩
    exact ⟨w, rfl, hwatches.stands.quiet, hwatches.lookups, hwatches.found⟩
  between := by
    rintro next result m t ⟨w, -, hwatches⟩
    exact ⟨w, rfl, hwatches.stands.quiet, hwatches.lookups, hwatches.found⟩
  interpret := by
    rintro next m t program fuel ⟨w, hwatches⟩ hprogram
    have sim : Simulates (correspondence ⟨m.distances, next, True⟩) Operations.machine operations :=
      simulates trivial
    have hstarts : Watches ⟨m.distances, next, True⟩ ⟨outermostScope, {}⟩ w m
        (companion.start m t) := ⟨rfl, hwatches.stands, hwatches.lookups, hwatches.found⟩
    obtain ⟨names, hrun⟩ :=
      sim.interpret fuel hprogram ⟨hstarts, hwatches.stands.fits, nofun⟩
    rw [Operations.machine_interpret] at hrun
    obtain ⟨hresult, w', hhalt, hended⟩ := sim.ends hrun
    change Watches ⟨m.distances, next, True⟩ ⟨outermostScope, {}⟩ w' _ _ at hended
    refine ⟨hresult, hended.stands.distances, w', hhalt, ?_⟩
    rw [hended.stands.distances]
    exact hended

end Evaluation.Watched

namespace Session

/-- After any sources, a clean program ends watched as it ends otherwise. In it and in the sources
before it every use of a name has found what the static pass promised; so no run fails because
`super` stands outside of a class, or because of an undefined variable other than one that a
reference without a distance has named. -/
theorem lookups_found (fuel : Nat) (sources : List String) {program : List Stmt} {hi : NodeId}
    (hprogram : Parser.FitsBody ((initial fuel).runAll sources).2.next hi program)
    (hclean : (((initial fuel).runAll sources).2.resolve program).1 = []) (limit : Nat) :
    let session := ((initial fuel).runAll sources).2
    let before := Watched.companion.followAll (initial fuel) .initial sources
    let machine := (session.resolve program).2.quiet
    let ended := Evaluation.interpret limit program machine
    let watched := Watched.operations.interpret limit program
      { before with machine, declaring := none }
    resultOf watched = resultOf ended ∧ (stateOf watched).machine = stateOf ended ∧
      (∀ l ∈ (stateOf watched).lookups, l.Found) ∧
        ∀ e : RuntimeError, resultOf ended = .error (.failure e) →
          e.cause ≠ .superOutsideClass ∧
            ∀ x, e.cause = .undefinedVariable x → ∃ l ∈ (stateOf watched).lookups,
              l.result = .error (.failure e) ∧ l.distance? = none ∧
                l.reference.name = ⟨x, e.line⟩ := by
  have hended := ended_of_clean Watched.invariant fuel sources hprogram hclean limit
  obtain ⟨hresult, next, w, hexplained, hwatches⟩ := hended
  have hfound := hwatches.found
  rw [← hwatches.lookups] at hfound hexplained
  refine ⟨hresult.symm, hwatches.machine, hfound, fun e he => ?_⟩
  obtain ⟨hsuper, hundefined⟩ := hexplained _ he e.cause e.line rfl
  refine ⟨hsuper, fun x hx => ?_⟩
  obtain ⟨l, hmem, hl, -⟩ := hundefined x hx
  have hcause : l.result = .error (.failure ⟨.undefinedVariable x, e.line⟩) := by
    rw [hl, ← hx]
  obtain ⟨hdistance, hname⟩ := (hfound l hmem).undefined x e.line hcause
  exact ⟨l, hmem, hl, hdistance, hname⟩

/-- A global variable is declared again with its own value, a closure reads a local one, and a name
is not that of any variable. -/
def redeclaringProgram : List Stmt :=
  [.varDecl ⟨"a", 1⟩ none, .varDecl ⟨"a", 2⟩ (some (.variable 0 ⟨"a", 2⟩)),
    .block [.varDecl ⟨"b", 3⟩ (some (.variable 1 ⟨"a", 3⟩)),
      .funDecl ⟨⟨"show", 4⟩, [], [.print (.variable 2 ⟨"b", 4⟩)]⟩,
      .expression (.call (.variable 3 ⟨"show", 5⟩) 5 [])],
    .print (.variable 4 ⟨"c", 6⟩)]

theorem fits_redeclaringProgram : Parser.FitsBody 0 5 redeclaringProgram := by
  constructor
  · constructor
    · decide
    · decide
    · simp [redeclaringProgram, Stmt.listReferences, Stmt.references, Stmt.functionReferences,
        Expr.references, Expr.references.listReferences, Reference.Proper, Name.Ordinary]
  · simp [redeclaringProgram, Stmt.AllWellFormed, Stmt.WellFormed, Stmt.FunctionWellFormed,
      Name.Ordinary]

/-- Of the five names that are used only the last is undefined, which has no distance. -/
theorem lookups_found_redeclared :
    let machine := ((initial 9).resolve redeclaringProgram).2.quiet
    let watched :=
      Watched.operations.interpret 9 redeclaringProgram { Watched.initial with machine }
    let lookups := (stateOf watched).lookups
    resultOf watched = .error (.failure ⟨.undefinedVariable "c", 6⟩) ∧
      lookups.toList.map Lookup.distance? = [none, none, some 0, some 1, none] ∧
        (∀ l ∈ lookups, l.Found) ∧ ∃ l ∈ lookups, l.distance? = none ∧ l.reference.name = ⟨"c", 6⟩ := by
  have hclean : ((initial 9).resolve redeclaringProgram).1 = [] := by cbv
  obtain ⟨hresult, -, hfound, hexplained⟩ := lookups_found 9 [] fits_redeclaringProgram hclean 9
  have hrun : resultOf (Watched.operations.interpret 9 redeclaringProgram
      { Watched.initial with machine := ((initial 9).resolve redeclaringProgram).2.quiet }) =
        .error (.failure ⟨.undefinedVariable "c", 6⟩) := by cbv
  obtain ⟨-, hundefined⟩ := hexplained _ (hresult.symm.trans hrun)
  obtain ⟨l, hmem, -, hdistance, hname⟩ := hundefined "c" rfl
  refine ⟨hrun, ?_, hfound, l, hmem, hdistance, hname⟩
  cbv

end Session
end Lox
