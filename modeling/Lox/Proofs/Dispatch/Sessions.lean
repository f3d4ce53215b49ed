import Lox.Proofs.Dispatch.Standing
import Lox.Proofs.Session.Companions

/-!
# Observed sessions

An observed machine goes along with a session. Its objects stay sound between runs, and no run ends
with a fault.
-/
namespace Lox.Evaluation.Observed
open Resolution

/-- Observed machines that go along with sessions. -/
def companion : Companion Observed where
  operations := operations
  initial := .initial
  start machine o := { o with machine }

variable {strict : Prop} {next next' : NodeId} {m : Machine} {o : Observed} {w : Objects}
  {program : List Stmt}

/-- Nothing was run yet. -/
theorem follows_initial (setting : Setting) (htable : setting.table = {}) :
    Follows setting ⟨outermostScope, {}⟩ initial.objects .initial initial := by
  refine ⟨rfl, rfl, rfl, rfl, rfl, ?_, htable.symm, fun _ => nofun⟩
  refine ⟨⟨fun {s name v} hv => ?_, nofun, nofun⟩, nofun, nofun, rfl, Nat.zero_lt_one, rfl⟩
  change (Store.newScope {} {}).1.findLocal? s name = some v at hv
  rw [Store.findLocal?_newScope] at hv
  split at hv <;> cases hv

/-- A machine with the same objects takes the place of the machine. -/
theorem Follows.replaced {setting : Setting} {p : Place} (h : Follows setting p w m o)
    {m' : Machine} (hstore : m'.store = m.store) (hscope : m'.scope = m.scope)
    (hglobals : m'.globals = m.globals) (hdistances : m'.distances = m.distances) :
    Follows setting p w m' { o with machine := m' } := by
  obtain rfl := h.machine
  constructor
  · rfl
  · rw [← h.objects]
    unfold Observed.objects
    rw [hstore]
  · exact hscope.trans h.scope
  · exact h.home
  · exact hglobals.trans h.globals
  · exact h.sound
  · exact hdistances.trans h.distances
  · exact h.calls

theorem Follows.later {setting setting' : Setting} {p : Place} (h : Follows setting p w m o)
    (hlater : setting.Later setting') :
    Follows setting' p w { m with distances := setting'.table }
      { o with machine := { m with distances := setting'.table } } := by
  obtain rfl := h.machine
  refine ⟨rfl, h.objects, h.scope, h.home, h.globals, h.sound.later hlater, rfl,
    fun hstrict => ?_⟩
  exact h.calls (hlater.strict.mpr hstrict)

theorem stands_initial (setting : Setting) (htable : setting.table = {}) :
    Stands setting ⟨outermostScope, {}⟩ initial.objects .initial :=
  stands_of_follows (follows_initial setting htable)

theorem Stands.later {setting setting' : Setting} {p : Place} (h : Stands setting p w m)
    (hlater : setting.Later setting') :
    Stands setting' p w { m with distances := setting'.table } :=
  stands_of_follows (Follows.later h hlater)

theorem Stands.quiet {setting : Setting} {p : Place} (h : Stands setting p w m) :
    Stands setting p w { m with output := "" } :=
  stands_of_follows (Follows.replaced h rfl rfl rfl rfl)

/-- A program starts in the outermost scope, and what the machine knows is bound there. -/
theorem Follows.fits {setting : Setting} (h : Follows setting ⟨outermostScope, {}⟩ w m o) :
    Fits w.store (Context.mk [] m.knows none none) outermostScope {} := by
  refine ⟨⟨rfl, h.sound.known, fun {d name} hat _ => ?_⟩, nofun, nofun⟩
  obtain ⟨rfl, hknows⟩ : d = 0 ∧ m.knows name = true := hat
  obtain ⟨v, hv⟩ := Option.isSome_iff_exists.mp hknows
  rw [h.globals, ← h.store] at hv
  exact ⟨outermostScope, rfl, v, hv⟩

/-- Observed machines follow the machines of sessions, and runs meet no fault. -/
def invariant (strict : Prop) : companion.Invariant strict where
  Along next m o := ∃ w, Follows ⟨m.distances, next, strict⟩ ⟨outermostScope, {}⟩ w m { o with machine := m }
  Ended next result m o := (∀ fault, result ≠ .error (.fault fault)) ∧
    ∃ w, Follows ⟨m.distances, next, strict⟩ ⟨outermostScope, {}⟩ w m o
  initial := ⟨_, follows_initial _ rfl⟩
  later := by
    rintro next next' m o table ⟨w, hfollows⟩ hnext htable
    exact ⟨w, hfollows.later ⟨hnext, htable, .rfl⟩⟩
  quiet := by
    rintro next m o ⟨w, hfollows⟩
    exact ⟨w, hfollows.replaced rfl rfl rfl rfl⟩
  between := by
    rintro next result m o ⟨-, w, hfollows⟩
    exact ⟨w, hfollows.replaced rfl rfl rfl rfl⟩
  interpret := by
    rintro next m o program fuel ⟨w, hfollows⟩ hprogram
    let setting : Setting := ⟨m.distances, next, strict⟩
    have sim := simulates setting
    obtain ⟨names, hrun⟩ := sim.interpret fuel hprogram ⟨hfollows, hfollows.fits⟩
    rw [Operations.machine_interpret] at hrun
    obtain ⟨hresult, w', hhalt, hended⟩ := sim.ends hrun
    change Follows setting ⟨outermostScope, {}⟩ w' _ _ at hended
    refine ⟨hresult, hended.distances, fun fault heq => hhalt _ heq fault rfl, w', ?_⟩
    rw [hended.distances]
    exact hended

end Lox.Evaluation.Observed
