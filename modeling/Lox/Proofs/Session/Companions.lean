import Lox.Proofs.Evaluation.Simulation
import Lox.Proofs.Resolution.Setting
import Lox.Proofs.Session.Sources

/-!
# States that go along with a session

Another evaluator can go along with a session: it runs the programs of the sources that the session
runs, each in the state that the one before has left. What relates its state to the machine of the
session is an invariant; if it survives new distances and the run of a program, then it holds after
any sources.
-/
namespace Lox
open Evaluation Resolution

/-- An evaluator that goes along with a session. -/
structure Companion (τ : Type) where
  operations : Operations τ
  /-- The state in which nothing was run yet. -/
  initial : τ
  /-- The state in which a program starts, when the session starts it in a machine. -/
  start : Machine → τ → τ

/-- Whether a global variable has a value. -/
def Evaluation.Machine.knows (m : Machine) (name : String) : Bool :=
  (m.store.findLocal? m.globals name).isSome

/-- A session with an empty output. -/
def Session.quiet (session : Session) : Machine := { session.machine with output := "" }

namespace Companion
variable {τ : Type}

/-- The state after a session has run a source. -/
def follow (c : Companion τ) (session : Session) (t : τ) (source : String) : τ :=
  match session.accept? source with
  | some program =>
    stateOf (c.operations.interpret session.fuel program
      (c.start (session.resolved source).quiet t))
  | none => t

/-- The state after a session has run sources. -/
def followAll (c : Companion τ) (session : Session) (t : τ) : List String → τ
  | [] => t
  | source :: rest => c.followAll (session.run source).2 (c.follow session t source) rest

/-- What relates a state to the machine of a session, between runs and after one. If `strict`, only
programs without static errors are run. -/
structure Invariant (c : Companion τ) (strict : Prop) where
  /-- The state goes along with a machine in which references have numbers below the given one. -/
  Along : NodeId → Machine → τ → Prop
  /-- The same when a run has ended with a result. -/
  Ended : NodeId → Except Halt Unit → Machine → τ → Prop
  initial : Along 0 .initial c.initial
  later : ∀ {next next' m t} {table : Distances}, Along next m t → next ≤ next' →
    (∀ id < next, table.find? id = m.distances.find? id) →
      Along next' { m with distances := table } t
  interpret : ∀ {next m t program} fuel, Along next m t →
    Stmt.BodyWithin (Setting.Admits ⟨m.distances, next, strict⟩) { globals := m.knows } program →
      let ended := Evaluation.interpret fuel program m
      let other := c.operations.interpret fuel program (c.start m t)
      resultOf ended = resultOf other ∧ (stateOf ended).distances = m.distances ∧
        Ended next (resultOf ended) (stateOf ended) (stateOf other)
  quiet : ∀ {next m t}, Along next m t → Along next { m with output := "" } t
  between : ∀ {next result m t}, Ended next result m t → Along next { m with output := "" } t

end Companion

namespace Session
variable {τ : Type} {c : Companion τ} {strict : Prop}

/-- The state goes along with the session. -/
structure Linked (i : c.Invariant strict) (session : Session) (t : τ) : Prop where
  fresh : ∀ id, session.next ≤ id → session.machine.distances.find? id = none
  along : i.Along session.next session.machine t

variable {i : c.Invariant strict} {session : Session} {t : τ} {program : List Stmt}

theorem linked_initial (i : c.Invariant strict) (fuel : Nat) :
    Linked i (.initial fuel) c.initial :=
  ⟨fun _ _ => rfl, i.initial⟩

/-- More numbers are given and more distances are found. -/
theorem Linked.later (h : Linked i session t) {table : Distances} {next : NodeId}
    (hnext : session.next ≤ next)
    (htable : ∀ id < session.next, table.find? id = session.machine.distances.find? id)
    (hfresh : ∀ id, next ≤ id → table.find? id = none) :
    Linked i ⟨{ session.machine with distances := table }, next, session.fuel⟩ t :=
  ⟨hfresh, i.later h.along hnext htable⟩

/-- A program whose numbers are new is resolved. -/
theorem Linked.resolve (h : Linked i session t) {hi : NodeId} (hhi : session.next ≤ hi)
    (hprogram : Parser.FitsBody session.next hi program) :
    Linked i ({ session with next := hi }.resolve program).2 t := by
  refine h.later hhi (fun id hid => ?_) fun id hid => ?_
  · refine find?_ofProgram _ fun r hr heq => ?_
    have hbounds := hprogram.numbered.bounds r hr
    lia
  · have hfresh := h.fresh id (Nat.le_trans hhi hid)
    rw [← hfresh]
    refine find?_ofProgram _ fun r hr heq => ?_
    have hbounds := hprogram.numbered.bounds r hr
    lia

/-- A program all of whose occurrences are admitted is executed. -/
theorem Linked.interpret (h : Linked i session t)
    (hprogram : Stmt.BodyWithin
      (Setting.Admits ⟨session.machine.distances, session.next, strict⟩)
      { globals := session.machine.knows } program) (fuel : Nat) :
    let ended := Evaluation.interpret fuel program session.quiet
    let other := c.operations.interpret fuel program (c.start session.quiet t)
    resultOf ended = resultOf other ∧
      i.Ended session.next (resultOf ended) (stateOf ended) (stateOf other) ∧
        Linked i ⟨{ stateOf ended with output := "" }, session.next, session.fuel⟩
          (stateOf other) := by
  intro ended other
  obtain ⟨hresult, hdistances, hended⟩ := i.interpret fuel (i.quiet h.along) hprogram
  change (stateOf ended).distances = session.machine.distances at hdistances
  refine ⟨hresult, hended, ?_, i.between hended⟩
  intro id hid
  change (stateOf ended).distances.find? id = none
  rw [hdistances]
  exact h.fresh id hid

theorem Linked.resolved (h : Linked i session t) (source : String) :
    Linked i (session.resolved source) t := by
  obtain ⟨hnext, hfits⟩ := session.fits_read source
  exact h.resolve hnext hfits

theorem Linked.read (h : Linked i session t) (source : String) :
    Linked i (session.read source).2 t := by
  obtain ⟨hnext, -⟩ := session.fits_read source
  exact h.later hnext (fun _ _ => rfl) fun id hid => h.fresh id (Nat.le_trans hnext hid)

/-- A program with new numbers that was resolved is admitted, in a strict setting if it is clean. -/
theorem Linked.within (h : Linked i session t) {hi : NodeId}
    (hprogram : Parser.FitsBody session.next hi program)
    (hclean : strict → (session.resolve program).1 = []) :
    Stmt.BodyWithin
      (Setting.Admits ⟨(session.resolve program).2.machine.distances, hi, strict⟩)
      { globals := session.machine.knows } program :=
  ⟨hprogram.wellFormed, admits_ofProgram hprogram.numbered h.fresh hclean⟩

/-- The program of an accepted source is clean. -/
theorem Linked.accepted (h : Linked i session t) {source : String}
    (haccept : session.accept? source = some program) :
    Stmt.BodyWithin
      (Setting.Admits
        ⟨(session.resolved source).machine.distances, (session.resolved source).next, strict⟩)
      { globals := (session.resolved source).machine.knows } program := by
  obtain ⟨hstatements, hclean⟩ := statements_of_accept? haccept
  have hfits := (session.fits_read source).2
  unfold Session.resolved
  rw [hstatements] at hfits ⊢
  exact h.within hfits fun _ => hclean

/-- A source that is not accepted changes nothing that the state depends on. -/
theorem Linked.rejected (h : Linked i session t) {source : String}
    (hreject : session.accept? source = none) : Linked i (session.run source).2 t := by
  obtain ⟨-, -, hsession | hsession⟩ := run_of_reject hreject
  · rw [hsession]
    exact h.read source
  · rw [hsession]
    exact h.resolved source

/-- What follows a session that runs a source stays linked to it. -/
theorem Linked.follow (h : Linked i session t) (source : String) :
    Linked i (session.run source).2 (c.follow session t source) := by
  unfold Companion.follow
  cases haccept : session.accept? source with
  | none => exact h.rejected haccept
  | some program =>
    have hresolved := h.resolved source
    obtain ⟨-, -, hlinked⟩ := hresolved.interpret (h.accepted haccept) session.fuel
    rw [run_of_accept? haccept, perform_eq]
    exact hlinked

theorem Linked.followAll (h : Linked i session t) (sources : List String) :
    Linked i (session.runAll sources).2 (c.followAll session t sources) := by
  induction sources generalizing session t with
  | nil => exact h
  | cons source rest ih => exact ih (h.follow source)

/-- A clean program that comes after any sources ends alike in what follows the session. -/
theorem ended_of_clean (i : c.Invariant strict) (fuel : Nat) (sources : List String) {hi : NodeId}
    (hprogram : Parser.FitsBody ((initial fuel).runAll sources).2.next hi program)
    (hclean : (((initial fuel).runAll sources).2.resolve program).1 = []) (limit : Nat) :
    let session := ((initial fuel).runAll sources).2
    let before := c.followAll (initial fuel) c.initial sources
    let machine := (session.resolve program).2.quiet
    let ended := Evaluation.interpret limit program machine
    let other := c.operations.interpret limit program (c.start machine before)
    resultOf ended = resultOf other ∧
      ∃ next, i.Ended next (resultOf ended) (stateOf ended) (stateOf other) := by
  have hlinked := (linked_initial i fuel).followAll sources
  let next := ((initial fuel).runAll sources).2.next
  have hfits : Parser.FitsBody next (max next hi) program :=
    ⟨hprogram.numbered.mono (Nat.le_refl _) (Nat.le_max_right next hi), hprogram.wellFormed⟩
  have hresolved := hlinked.resolve (Nat.le_max_left _ hi) hfits
  have hwithin := hlinked.within hfits fun _ => hclean
  obtain ⟨hresult, hended, -⟩ := hresolved.interpret hwithin limit
  exact ⟨hresult, _, hended⟩

end Session
end Lox
