import Lox.Proofs.Dispatch.Sessions
import Lox.Proofs.Evaluation.Composable
import Lox.Proofs.Property.Telling

/-!
# Machine and journaling machine in step

A journaling machine does what the machine does. All the time its journal tells of the store, and
each entry is exact after the earlier ones. What was there at one entry is so at the later ones.
-/
namespace Lox.Evaluation
open Resolution Observed

namespace Journal

/-- The entries lead to the store: each of them is exact, and what was there before is so still. -/
def Leads : Journal → Store → Prop
  | [], _ => True
  | entry :: earlier, store => Preserves entry.after store ∧
    Preserves entry.before entry.after ∧ entry.Exact earlier ∧ Leads earlier entry.before

theorem Leads.later {journal : Journal} {a b : Store} (h : Leads journal a) (hab : Preserves a b) :
    Leads journal b := by
  cases journal with
  | nil => trivial
  | cons entry earlier => exact ⟨h.1.trans hab, h.2⟩

/-- Every entry is exact, and what is there after it is preserved by the later entries and in the
end. -/
theorem Leads.split {later earlier : Journal} {entry : Entry} {store : Store}
    (h : Leads (later ++ entry :: earlier) store) :
    entry.Exact earlier ∧ Preserves entry.after store ∧
      ∀ next ∈ later, Preserves entry.after next.before ∧ Preserves entry.after next.after := by
  induction later generalizing store with
  | nil => exact ⟨h.2.2.1, h.1, nofun⟩
  | cons last later ih =>
    obtain ⟨hafter, hlast, -, hrest⟩ := h
    obtain ⟨hexact, hpast, hlater⟩ := ih hrest
    refine ⟨hexact, (hpast.trans hlast).trans hafter, List.forall_mem_cons.mpr ⟨?_, hlater⟩⟩
    exact ⟨hpast, hpast.trans hlast⟩

end Journal

/-- The classes and instances afterwards are those from before. -/
def Spares {α : Type} (x : Eval α) : Prop := ∀ m : Machine,
  (stateOf (x m)).store.classes = m.store.classes ∧
    (stateOf (x m)).store.instances = m.store.instances

theorem sequential_spares : Sequential @Spares where
  pure _ _ := ⟨rfl, rfl⟩
  throw _ _ := ⟨rfl, rfl⟩
  bind := by
    intro α β x f h hf m
    have hx := h m
    change (stateOf (EStateM.bind x f m)).store.classes = _ ∧
      (stateOf (EStateM.bind x f m)).store.instances = _
    unfold EStateM.bind
    cases hrun : x m with
    | ok a ended =>
      rw [hrun] at hx
      exact ⟨(hf a ended).1.trans hx.1, (hf a ended).2.trans hx.2⟩
    | error halt ended =>
      rw [hrun] at hx
      exact hx
  get _ := ⟨rfl, rfl⟩

theorem composable_spares : Composable @Spares where
  toSequential := sequential_spares
  define _ _ _ _ := ⟨rfl, rfl⟩
  bindTo := sequential_spares.bindTo fun _ _ _ => ⟨rfl, rfl⟩

/-- What a class declaration adds to the store. -/
theorem objects_newClass (m : Machine) (name : Name) (superclass : Option ClassId)
    (methods : List FunctionDecl) :
    let after := (stateOf (Operations.machine.newClass name superclass methods m)).store
    let closure := (withMethodScope (m.store.define m.scope name.text .nil) m.scope superclass).2
    after.classes = m.store.classes.push
        ⟨name.text, superclass, methodNumbers m.store.functions.size methods .empty⟩ ∧
      after.functions = m.store.functions ++ (methodObjects closure methods).toArray ∧
        after.instances = m.store.instances := by
  rw [newClass_apply, writeFrom_apply]
  split
  · cases superclass <;> exact ⟨rfl, rfl, rfl⟩
  · cases superclass <;> exact ⟨rfl, rfl, rfl⟩

namespace Journaled
open Annotated (lift resultOf_lift stateOf_lift)
variable {α : Type}

/-- The journaling machine runs at the place as the machine does, and its journal tells of the store
and leads to it. -/
structure Journals (setting : Setting) (p : Place) (w : Objects) (m : Machine) (t : Journaled) :
    Prop where
  machine : t.machine = m
  stands : Stands setting p w m
  tells : t.entries.Tells m.store
  leads : t.entries.Leads m.store

def correspondence (setting : Setting) : Correspondence Machine Journaled where
  World := Objects
  Position := Place
  Grows _ := Objects.Grows
  States p w site m t := Journals setting p w m t ∧ Fits w.store site p.scope p.home
  Ended := Journals setting
  ValueOk := Objects.ValueOk setting
  MethodOk := Objects.IsMethod setting
  Closures w f a b := a = b ∧ ∃ home ctx, w.Closes setting f a home ctx
  HaltOk _ _ := True
  Admits := setting.Admits

variable {setting : Setting} {p : Place} {w w' : Objects} {site after : Site} {ctx : Context}
  {m m' : Machine} {t : Journaled} {x : Eval α} {post : Objects → α → Prop}

theorem lawful (setting : Setting) : (correspondence setting).Lawful where
  grows_refl _ := .refl
  grows_trans := .trans
  ended hs := hs.1

theorem Journals.preserves (h : Journals setting p w m t) (hgrows : w.Grows w')
    (hstands : Stands setting p w' m') : Preserves m.store m'.store := by
  have hpreserves := hgrows.store
  rw [h.stands.store, hstands.store] at hpreserves
  exact hpreserves

theorem Journals.methodsThere (h : Journals setting p w m t) : Journal.MethodsThere m.store := by
  rw [← h.stands.store]
  exact Journal.methodsThere_of_sound h.stands.sound

/-- What is entered of a step. -/
def entryOf (deed : Machine → Except Halt α → Deed) (x : Eval α) (m : Machine) : Entry :=
  ⟨deed m (resultOf (x m)), m.store, (stateOf (x m)).store⟩

theorem resultOf_entering (deed : Machine → Except Halt α → Deed) (x : Eval α) (t : Journaled) :
    resultOf (entering deed x t) = resultOf (x t.machine) := by
  unfold entering lift
  cases x t.machine <;> rfl

theorem stateOf_entering (deed : Machine → Except Halt α → Deed) (x : Eval α) (t : Journaled) :
    stateOf (entering deed x t) =
      ⟨stateOf (x t.machine), entryOf deed x t.machine :: t.entries⟩ := by
  unfold entering lift entryOf
  cases x t.machine <;> rfl

/-- What goes alike in the observed machine goes alike in the journaling machine, if its journal is
as it must be. -/
theorem sim_of_observed {x : EStateM.Result Halt Machine α} {y : EStateM.Result Halt Observed α}
    {z : EStateM.Result Halt Journaled α}
    (h : (Observed.correspondence setting).Sim p w after post x y) (hresult : resultOf z = resultOf x)
    (hjournals : ∀ {w'}, w.Grows w' → Stands setting p w' (stateOf x) →
      Journals setting p w' (stateOf x) (stateOf z)) :
    (correspondence setting).Sim p w after post x z := by
  refine h.carry hresult (fun hgrows hstates hpost => ?_) fun hgrows hended _ => ?_
  · have hjournal := hjournals hgrows (stands_of_follows hstates.1)
    exact ⟨_, hgrows, ⟨hjournal, hstates.2⟩, hpost⟩
  · exact ⟨_, hgrows, hjournals hgrows (stands_of_follows hended), trivial⟩

/-- A step that changes no object leaves the journal as it is. -/
theorem sim_lift (hs : (correspondence setting).States p w site m t)
    {y : EStateM.Result Halt Observed α}
    (h : (Observed.correspondence setting).Sim p w after post (x m) y) (hspares : Spares x) :
    (correspondence setting).Sim p w after post (x m) (lift x t) := by
  obtain ⟨hjournals, -⟩ := hs
  obtain rfl := hjournals.machine
  refine sim_of_observed h (resultOf_lift x t) fun hgrows hstands => ?_
  obtain ⟨hclasses, hinstances⟩ := hspares t.machine
  have hpreserves := hjournals.preserves hgrows hstands
  rw [stateOf_lift]
  exact ⟨rfl, hstands,
    hjournals.tells.same hjournals.methodsThere hpreserves.store hclasses hinstances,
    hjournals.leads.later hpreserves⟩

/-- A step is entered that the journal can tell of. -/
theorem sim_entering (deed : Machine → Except Halt α → Deed)
    (hs : (correspondence setting).States p w site m t) {y : EStateM.Result Halt Observed α}
    (h : (Observed.correspondence setting).Sim p w after post (x m) y)
    (htells : m.store.Extends (stateOf (x m)).store →
      Journal.Tells (entryOf deed x m :: t.entries) (stateOf (x m)).store)
    (hexact : (entryOf deed x m).Exact t.entries) :
    (correspondence setting).Sim p w after post (x m) (entering deed x t) := by
  obtain ⟨hjournals, -⟩ := hs
  obtain rfl := hjournals.machine
  refine sim_of_observed h (resultOf_entering deed x t) fun hgrows hstands => ?_
  have hpreserves := hjournals.preserves hgrows hstands
  rw [stateOf_entering]
  exact ⟨rfl, hstands, htells hpreserves.store, .refl _, hpreserves, hexact, hjournals.leads⟩

theorem sim_newInstance (hs : (correspondence setting).States p w site m t) {c : ClassId}
    (hc : w.ValueOk setting (.classRef c)) :
    (correspondence setting).Sim p w site (fun w i => w.ValueOk setting (.instanceRef i))
      (Operations.machine.newInstance c m) (operations.newInstance c t) := by
  have hsim := (Observed.simulates setting).newInstance (hs.1.stands.states hs.2) hc
  have hclass : c < m.store.classes.size := by
    rw [← hs.1.stands.store]
    exact hc
  refine sim_entering (fun m _ => .creates m.store.instances.size c) hs hsim
    (fun _ => hs.1.tells.created c) ⟨?_, (hs.1.tells.declared c).mpr hclass⟩
  rw [hs.1.tells.instances, Array.getElem?_eq_none (Nat.le_refl _)]
  rfl

theorem sim_setField (hs : (correspondence setting).States p w site m t) {i : InstanceId}
    (name : String) {v : Value} (hi : w.ValueOk setting (.instanceRef i))
    (hv : w.ValueOk setting v) :
    (correspondence setting).Sim p w site (fun _ _ => True)
      (Operations.machine.setField i name v m) (operations.setField i name v t) := by
  have hsim := (Observed.simulates setting).setField name (hs.1.stands.states hs.2) hi hv
  have hthere : i < m.store.instances.size := by
    rw [← hs.1.stands.store]
    exact hi
  refine sim_entering (fun _ _ => .stores i name v) hs hsim (fun _ => hs.1.tells.stored hthere)
    ⟨?_, stored_setField hthere name v⟩
  rw [hs.1.tells.instances, Array.getElem?_eq_getElem hthere]
  rfl

theorem sim_newClass {name : Name}
    (hs : (correspondence setting).States p w (ctx.superclass name.text) m t)
    (hname : name.Ordinary) {superclass : Option ClassId}
    (hsuperclass : ∀ c ∈ superclass, w.ValueOk setting (.classRef c)) {methods : List FunctionDecl}
    (hmethods : Stmt.MethodsWithin setting.Admits
      ((ctx.declare name.text).method (kindOf superclass)) methods) :
    (correspondence setting).Sim p w (ctx.declare name.text) (fun _ _ => True)
      (Operations.machine.newClass name superclass methods m)
      (operations.newClass name superclass methods t) := by
  have hsim := (Observed.simulates setting).newClass (hs.1.stands.states hs.2) hname hsuperclass
    hmethods
  obtain ⟨hclasses, hfunctions, hinstances⟩ := objects_newClass m name superclass methods
  refine sim_entering (fun m _ => declaring name superclass methods m) hs hsim
    (fun hextends =>
      hs.1.tells.declares hs.1.methodsThere hextends hclasses hfunctions hinstances)
    ⟨?_, fun c hc => (hs.1.tells.declared c).mpr ?_⟩
  · rw [← Option.not_isSome_iff_eq_none, hs.1.tells.declared]
    exact Nat.lt_irrefl _
  · rw [← hs.1.stands.store]
    exact hsuperclass c hc

/-- A property that is read is what the journal tells. -/
theorem sim_readProperty (hs : (correspondence setting).States p w site m t) {i : InstanceId}
    {name : Name} (hi : w.ValueOk setting (.instanceRef i)) :
    (correspondence setting).Sim p w site (Objects.ValueOk setting)
      (Operations.machine.readProperty i name m)
      (entering (fun _ result => .reads i name result) (readProperty i name) t) := by
  have hsim := @Simulates.readProperty _ _ _ _ _ (Observed.simulates setting) _ _ _ _ _ _ name
    (hs.1.stands.states hs.2) hi
  have hthere : i < m.store.instances.size := by
    rw [← hs.1.stands.store]
    exact hi
  obtain ⟨hclasses, hinstances⟩ := composable_spares.readProperty i name m
  rw [Operations.machine_readProperty] at hsim ⊢
  exact sim_entering (fun _ result => .reads i name result) hs hsim
    (fun hextends => (hs.1.tells.same hs.1.methodsThere hextends hclasses hinstances).read)
    (hs.1.tells.answers hs.1.stands.sound hs.1.stands.store hthere name)

theorem Journals.atDepth (h : Journals setting p w m t) (depth : Nat) :
    Journals setting p w { m with callDepth := depth }
      { t with machine := { m with callDepth := depth } } :=
  ⟨rfl, h.stands.atDepth depth, h.tells, h.leads⟩

/-- What is run in a scope of its own leaves the place as it is. -/
theorem sim_inScope (hs : (correspondence setting).States p w site m t) {inner : Context}
    {q : Place} (hinner : Fits w.store inner q.scope q.home) {x : Eval Completion}
    {y : EStateM Halt Journaled Completion} (h : (correspondence setting).Bodies inner x y) :
    (correspondence setting).Sim p w site ((correspondence setting).CompletionOk inner)
      (Evaluation.inScope q.scope x m) (Annotated.inScope q.scope y t) := by
  obtain ⟨hjournals, hfits⟩ := hs
  obtain rfl := hjournals.machine
  have hmoved : Journals setting q w { t.machine with scope := q.scope }
      { t with machine := { t.machine with scope := q.scope } } :=
    ⟨rfl, hjournals.stands.moved q, hjournals.tells, hjournals.leads⟩
  obtain ⟨after, hsim⟩ := h q w _ _ ⟨hmoved, hinner⟩
  rw [inScope_apply]
  refine (lawful setting).leave hsim fun hgrows hended => ⟨hgrows, ?_⟩
  change Journals setting q _ _ _ at hended
  obtain rfl := hended.machine
  have hback := hended.stands.moved p
  rw [← hjournals.stands.scope] at hback
  exact ⟨⟨rfl, hback, hended.tells, hended.leads⟩, hfits.preserved hgrows.store⟩

/-- A scope is opened, and something is run in it. -/
theorem sim_inNewScope (hs : (correspondence setting).States p w site m t) (new : Scope)
    (hnew : ∀ {name v}, new.bindings.find? name = some v → w.ValueOk setting v) {inner : Context}
    {home : Home} (hinner : Fits (w.store.newScope new).1 inner w.store.scopes.size home)
    {x : Eval Completion} {y : EStateM Halt Journaled Completion}
    (h : (correspondence setting).Bodies inner x y) :
    (correspondence setting).Sim p w site ((correspondence setting).CompletionOk inner)
      ((allocate (·.newScope new) >>= fun scope => Evaluation.inScope scope x) m)
      ((lift (allocate (·.newScope new)) >>= fun scope => Annotated.inScope scope y) t) := by
  obtain ⟨hjournals, hfits⟩ := hs
  obtain ⟨store, homes⟩ := w
  obtain rfl : store = m.store := hjournals.stands.store
  obtain rfl := hjournals.machine
  have hgrows := Objects.grows_newScope ⟨t.machine.store, homes⟩ new
  have htells : t.entries.Tells (t.machine.store.newScope new).1 :=
    hjournals.tells.same hjournals.methodsThere hgrows.store.store rfl rfl
  have hopened : Journals setting p _ _
      ⟨{ t.machine with store := (t.machine.store.newScope new).1 }, t.entries⟩ :=
    ⟨rfl, hjournals.stands.newScope hnew, htells, hjournals.leads.later hgrows.store⟩
  have hin := sim_inScope (q := ⟨t.machine.store.scopes.size, home⟩)
    ⟨hopened, hfits.preserved hgrows.store⟩ hinner h
  exact (lawful setting).later hgrows hin

theorem atDepths (setting : Setting) : (correspondence setting).AtDepths where
  toLawful := lawful setting
  machine := Journals.machine
  states depth hs := ⟨hs.1.atDepth depth, hs.2⟩
  stopped depth hended := Journals.atDepth hended depth

/-- The operations of the machine and of the journaling machine stay in step. -/
theorem simulates (setting : Setting) :
    Simulates (correspondence setting) Operations.machine operations where
  toLawful := lawful setting
  value_grows hw hv := hv.grows hw
  closures_grows := by
    rintro p w w' f o o' hw ⟨rfl, home, ctx, hf⟩
    exact ⟨rfl, home, ctx, hf.grows hw⟩
  halt_failure _ _ _ := trivial
  halt_outOfFuel _ := trivial
  value_plain w v hv := (Observed.simulates setting).value_plain w hv
  alike hs := by
    obtain rfl := hs.1.machine
    exact ⟨rfl, rfl, rfl⟩
  callDepth hs := by
    obtain rfl := hs.1.machine
    rfl
  function _ _ _ := trivial
  closures := by
    rintro p w site m t f a b hs hf ha hb
    obtain rfl := hs.1.machine
    exact (Observed.simulates setting).closures (hs.1.stands.states hs.2) hf ha hb
  instance_ _ _ _ := trivial
  field hs hv := (Observed.simulates setting).field (hs.1.stands.states hs.2) hv
  method hs hf := (Observed.simulates setting).method (hs.1.stands.states hs.2) hf
  asCall := (atDepths setting).asCall
  printLine text hs :=
    sim_lift hs ((Observed.simulates setting).printLine text (hs.1.stands.states hs.2))
      fun _ => ⟨rfl, rfl⟩
  readVariable r hs hr hkind :=
    sim_lift hs ((Observed.simulates setting).readVariable r (hs.1.stands.states hs.2) hr hkind)
      (composable_spares.readVariable r.id r.name)
  writeVariable id name hs hr hv :=
    sim_lift hs ((Observed.simulates setting).writeVariable id name (hs.1.stands.states hs.2) hr hv)
      (composable_spares.writeVariable id name _)
  superMethod id line method hs hr :=
    sim_lift hs ((Observed.simulates setting).superMethod id line method (hs.1.stands.states hs.2) hr)
      (composable_spares.superMethod id line method)
  setField name hs hi hv := sim_setField hs name hi hv
  newInstance hs hc := sim_newInstance hs hc
  newInstance_keeps := classArity_newInstance
  bindTo_keeps := arity_bindTo
  bindTo hs hf hi :=
    sim_lift hs ((Observed.simulates setting).bindTo (hs.1.stands.states hs.2) hf hi)
      (composable_spares.bindTo _ _)
  declare hs hadmits hname :=
    sim_lift hs ((Observed.simulates setting).declare (hs.1.stands.states hs.2) hadmits hname)
      fun _ => ⟨rfl, rfl⟩
  define hs hname hv :=
    sim_lift hs ((Observed.simulates setting).define (hs.1.stands.states hs.2) hname hv)
      fun _ => ⟨rfl, rfl⟩
  defineFunction := by
    rintro p w m t f ctx hs hname hf
    have hsim := (Observed.simulates setting).defineFunction (hs.1.stands.states hs.2) hname hf
    exact sim_lift hs hsim fun _ => ⟨rfl, rfl⟩
  superclass hs := ⟨hs.1, hs.2.superclass⟩
  newClass hs hname hsuper hmethods := sim_newClass hs hname hsuper hmethods
  inBlock := by
    rintro p w m t x y ctx hs h
    have hinner := @Fits.enter _ _ _ _ hs.2 { enclosing := some m.scope }
      (congrArg some hs.1.stands.scope)
    have hsim := sim_inNewScope hs { enclosing := some m.scope } nofun hinner h
    obtain rfl := hs.1.machine
    exact hsim
  inCall := by
    rintro p w site m t f a b arguments hs ⟨rfl, home, around, hf⟩ - harity harguments
    refine ⟨around, hf.within, fun x y h => ?_⟩
    exact sim_inNewScope hs _ (fun hv => harguments _ (find?_bindArguments hv)) (hf.enter harity) h
  receiver := by
    rintro p w site m t f a b hs ⟨rfl, hcloses⟩ hinitializer
    exact sim_lift hs
      ((Observed.simulates setting).receiver (hs.1.stands.states hs.2) ⟨rfl, hcloses⟩ hinitializer)
      fun _ => ⟨rfl, rfl⟩

section
variable {x : Operations.Parts Machine} {y : Operations.Parts Journaled}
  (parts : (correspondence setting).Evaluators x y)
include parts

theorem sim_evaluateForm :
    (correspondence setting).Evaluates (Operations.machine.evaluateForm x) (evaluateForm y) := by
  intro e p w site m t h hs
  cases e with
  | get object name =>
    have hobject := parts.evaluates object p w site m t h hs
    refine (lawful setting).bind hobject fun v w' m t _ hs hv => ?_
    cases v with
    | instanceRef i => exact sim_readProperty hs hv
    | nil | bool _ | number _ | string _ | functionRef _ | classRef _ =>
      exact (simulates setting).fail hs _ _ id
  | literal | grouping | unary | binary | logical | «variable» | assign | call | set | this | super =>
    exact (simulates setting).evaluateForm parts _ p w site m t h hs

end

theorem evaluators (setting : Setting) (fuel : Nat) :
    (correspondence setting).Evaluators
      ⟨fuel, Operations.machine.evaluate fuel, Operations.machine.execute fuel⟩
      ⟨fuel, evaluate fuel, execute fuel⟩ := by
  induction fuel with
  | zero =>
    refine ⟨rfl, fun e p w site m t _ hs => ?_, fun stmt p w ctx m t _ hs => ?_⟩
    · change (correspondence setting).Sim p w site _ (Operations.machine.evaluate 0 e m)
        (evaluate 0 e t)
      rw [Operations.evaluate, evaluate]
      exact (lawful setting).throw hs trivial
    · change (correspondence setting).Sim p w _ _ (Operations.machine.execute 0 stmt m)
        (execute 0 stmt t)
      rw [Operations.execute, execute]
      exact (lawful setting).throw hs trivial
  | succ fuel ih =>
    refine ⟨rfl, fun e p w site m t h hs => ?_, fun stmt p w ctx m t h hs => ?_⟩
    · change (correspondence setting).Sim p w site _ (Operations.machine.evaluate (fuel + 1) e m)
        (evaluate (fuel + 1) e t)
      rw [Operations.evaluate, evaluate]
      exact sim_evaluateForm ih e p w site m t h hs
    · change (correspondence setting).Sim p w _ _ (Operations.machine.execute (fuel + 1) stmt m)
        (execute (fuel + 1) stmt t)
      rw [Operations.execute, execute]
      exact (simulates setting).executeForm ih stmt p w ctx m t h hs

/-- A program that is journaled from where a machine stands ends as it ends otherwise, and its journal
is as it must be. -/
theorem journals_interpret (hstands : Stands setting ⟨outermostScope, {}⟩ w m) {program : List Stmt}
    (hprogram : Stmt.BodyWithin setting.Admits { globals := m.knows } program) {journal : Journal}
    (htells : journal.Tells m.store) (hleads : journal.Leads m.store) (fuel : Nat) :
    let ended := Evaluation.interpret fuel program m
    let journaled := interpret fuel program ⟨m, journal⟩
    resultOf ended = resultOf journaled ∧
      ∃ w, Journals setting ⟨outermostScope, {}⟩ w (stateOf ended) (stateOf journaled) := by
  intro ended journaled
  have hstart : Journals setting ⟨outermostScope, {}⟩ w m ⟨m, journal⟩ :=
    ⟨rfl, hstands, htells, hleads⟩
  obtain ⟨names, hrun⟩ := (simulates setting).runAll (evaluators setting fuel).executes hprogram
    ⟨hstart, hstands.fits⟩
  have hsim : (correspondence setting).Sim _ w _ (fun _ _ => True)
      (Operations.machine.interpret fuel program m) journaled :=
    (lawful setting).bind hrun fun _ _ _ _ _ hs _ => (lawful setting).pure hs trivial
  rw [Operations.machine_interpret] at hsim
  obtain ⟨hresult, w', -, hended⟩ := (lawful setting).ends hsim
  exact ⟨hresult, w', hended⟩

end Journaled
end Lox.Evaluation
