import Lox.Proofs.Dispatch.Standing
import Lox.Proofs.Lookup.Watching

/-!
# Machine and watched machine in step

The operations of a watched machine do what those of the machine do. What an observed machine may
rely on holds of it too, so that in a strict setting every name that is used is found where the
static pass has promised it: the scopes around the running code bind what was declared there before.
-/
namespace Lox.Evaluation
open Resolution Observed

namespace Watched
open Annotated (lift)

/-- An evaluation has not ended because of a name that the static pass has promised. -/
def Explained (lookups : Array Lookup) (halt : Halt) : Prop :=
  ∀ cause line, halt = .failure ⟨cause, line⟩ → cause ≠ .superOutsideClass ∧
    ∀ x, cause = .undefinedVariable x →
      ∃ l ∈ lookups, l.result = .error halt ∧ l.distance? = none

/-- The watched machine runs at the place as the machine does, and all names were found. -/
structure Watches (setting : Setting) (p : Place) (w : Objects × Array Lookup) (m : Machine)
    (t : Watched) : Prop where
  machine : t.machine = m
  stands : Stands setting p w.1 m
  lookups : t.lookups = w.2
  found : ∀ l ∈ w.2, l.Found

def correspondence (setting : Setting) : Correspondence Machine Watched where
  World := Objects × Array Lookup
  Position := Place
  Grows _ w w' := w.1.Grows w'.1
  States p w site m t := Watches setting p w m t ∧ Fits w.1.store site p.scope p.home ∧
    ∀ name ∈ t.declaring, site.declares name = true
  Ended := Watches setting
  ValueOk w := w.1.ValueOk setting
  MethodOk w := w.1.IsMethod setting
  Closures w f a b := a = b ∧ ∃ home ctx, w.1.Closes setting f a home ctx
  HaltOk w := Explained w.2
  Admits := setting.Admits

variable {α : Type} {setting : Setting} {p : Place} {w w' : Objects × Array Lookup} {site : Site}
  {ctx : Context} {m m' : Machine} {t : Watched} {post : Objects → α → Prop} {objects : Objects}
  {r : Reference} {d : Nat}

theorem lawful (setting : Setting) : (correspondence setting).Lawful where
  grows_refl _ w := .refl w.1
  grows_trans := .trans
  ended hs := hs.1

section
variable (hstrict : setting.strict) (hstands : Stands setting p objects m)
  (hfits : Fits objects.store site p.scope p.home) (hr : setting.Admits ⟨site, .reference r⟩)
include hstrict hstands hr

omit hstands in
theorem not_opens (hkind : r.kind = .variable) : ¬ site.Opens r.name.text := by
  obtain ⟨kind, id, name⟩ := r
  obtain rfl : kind = .variable := hkind
  rintro (hopens | hopens)
  · exact (hr.clean hstrict).not_violates _ (.readInOwnInitializer hopens)
  · exact (hr.clean hstrict).not_violates _ (.inheritsFromItself hopens)

include hfits

/-- `this` and `super` have distances. -/
theorem exists_distance (hkind : r.kind = .this ∨ r.kind = .super) :
    ∃ d, m.distances.find? r.id = some d := by
  rw [hstands.find?_eq_expected hstrict hr]
  unfold Context.expected?
  rcases hkind with hkind | hkind
  · have hclass := (hr.clean hstrict).inClass hkind
    obtain ⟨i, hthis, -⟩ := hfits.inClass hclass
    refine ⟨i, ?_⟩
    rw [hkind]
    exact (if_pos hclass).trans hthis
  · have hclass := (hr.clean hstrict).inDerived hkind
    obtain ⟨i, hsuper, -⟩ := hfits.derived hclass
    refine ⟨i + 1, ?_⟩
    rw [hkind]
    exact (if_pos hclass).trans hsuper

/-- The name is bound where the distance leads. -/
theorem exists_bound (hkind : r.kind ≠ .assign) (hd : m.distances.find? r.id = some d) :
    ∃ scope v, m.store.ancestor? d m.scope = some scope ∧
      m.store.findLocal? scope r.sought = some v := by
  rw [hstands.find?_eq_expected hstrict hr] at hd
  obtain ⟨hallows, -⟩ := Context.expected?_eq_some.mp hd
  have hopens := not_opens hstrict hr
  rw [hstands.scope, ← hstands.store]
  obtain ⟨kind, id, name⟩ := r
  match kind with
  | .variable =>
    obtain ⟨s, hs, v, hv⟩ := hfits.bound (Context.hasAt_of_distance hd) fun _ => hopens rfl
    exact ⟨s, v, hs, hv⟩
  | .assign => exact absurd rfl hkind
  | .this =>
    obtain ⟨i, hthis, inner, id, hinner, hv, -⟩ :=
      hfits.inClass (Option.isSome_iff_ne_none.mpr hallows)
    obtain rfl : d = i := by
      unfold Context.expected? at hd
      exact Option.some.inj ((Option.ite_none_right_eq_some.mp hd).2.symm.trans hthis)
    exact ⟨inner, _, hinner, hv⟩
  | .super =>
    obtain ⟨i, hsuper, -, ⟨outer, c, houter, hc, -⟩⟩ := hfits.derived hallows
    obtain rfl : d = i + 1 := by
      unfold Context.expected? at hd
      exact Option.some.inj ((Option.ite_none_right_eq_some.mp hd).2.symm.trans hsuper)
    exact ⟨outer, _, houter, hc⟩

/-- In its own initializer a variable without a distance is a global one that has a value. -/
theorem exists_global (hkind : r.kind = .variable) (hdeclares : site.declares r.name.text = true)
    (hd : m.distances.find? r.id = none) : ∃ v, m.store.lookup? m.globals r.name.text = some v := by
  rw [hstands.find?_eq_expected hstrict hr] at hd
  have hopens := not_opens hstrict hr hkind
  obtain ⟨s, hs, v, hv⟩ := hfits.bound (Context.hasAt_zero.mpr hdeclares) fun _ => hopens
  obtain rfl : p.scope = s := Option.some.inj hs
  have hscopes : site.scopes = [] := by
    unfold Context.expected? at hd
    rw [hkind] at hd
    cases hnames : site.scopes with
    | nil => rfl
    | cons names outer =>
      unfold Context.declares at hdeclares
      unfold Context.distance? at hd
      rw [hnames] at hdeclares hd
      rw [List.findIdx?_cons, if_pos hdeclares] at hd
      cases hd
  have hchain := hfits.chain
  rw [hscopes] at hchain
  obtain hscope : p.scope = outermostScope := Option.some.inj hchain
  rw [hstands.globals, ← hscope, ← hstands.store]
  exact ⟨v, Store.lookup?_of_findLocal? hv⟩

omit hstrict hstands hfits in
theorem sought_eq (hkind : r.kind = .variable ∨ r.kind = .this) : r.sought = r.name.text := by
  have hproper := (hr.reference r rfl).proper
  unfold Reference.Proper at hproper
  unfold Reference.sought
  rcases hkind with hkind | hkind
  · rw [hkind]
  · rw [hkind] at hproper ⊢
    exact hproper.symm

/-- The result of a step, as it is taken down. -/
def noteOf (valueOf : α → Value) : EStateM.Result Halt Machine α → Except Halt Value
  | .ok a _ => .ok (valueOf a)
  | .error halt _ => .error halt

theorem found_read_bound (hkind : r.kind = .variable ∨ r.kind = .this) (declaring : Option String)
    (hd : m.distances.find? r.id = some d) :
    Lookup.Found ⟨r, declaring, m, noteOf (fun v => v) (readVariable r.id r.name m)⟩ := by
  have hassign : r.kind ≠ .assign := by
    rcases hkind with hkind | hkind <;> rw [hkind] <;> exact nofun
  obtain ⟨scope, v, hscope, hv⟩ := exists_bound hstrict hstands hfits hr hassign hd
  have hread : readVariable r.id r.name m = .ok v m := by
    rw [sought_eq hr hkind] at hv
    rw [readVariable_apply, hd]
    dsimp only
    rw [readAt_apply, hscope]
    dsimp only
    rw [hv]
  rw [hread]
  exact .of_leadsTo hd ⟨scope, v, hscope, hv⟩ (fun _ _ => nofun) (fun _ => nofun)
    fun _ => ⟨v, rfl⟩

theorem found_read_global (hkind : r.kind = .variable ∨ r.kind = .this)
    {declaring : Option String} (hdeclaring : ∀ name ∈ declaring, site.declares name = true)
    (hd : m.distances.find? r.id = none) :
    Lookup.Found ⟨r, declaring, m, noteOf (fun v => v) (readVariable r.id r.name m)⟩ := by
  have hthis : r.kind ≠ .this := fun hthis => by
    obtain ⟨d, hsome⟩ := exists_distance hstrict hstands hfits hr (.inl hthis)
    cases hd.symm.trans hsome
  have hvariable := hkind.resolve_right hthis
  have hsuper : r.kind ≠ .super := by
    rw [hvariable]
    exact nofun
  have hread : readVariable r.id r.name m = readGlobal r.name m := by
    rw [readVariable_apply, hd]
  rw [hread, readGlobal_apply]
  constructor
  · intro _ d' hd'
    cases hd.symm.trans hd'
  · exact fun hkind => (hkind.elim hthis hsuper).elim
  · intro x line h
    split at h <;> cases h
    exact ⟨hd, rfl⟩
  · intro line h
    split at h <;> cases h
  · intro _ hown
    obtain ⟨v, hv⟩ := exists_global hstrict hstands hfits hr hvariable (hdeclaring _ hown) hd
    rw [hv]
    exact ⟨v, rfl⟩

/-- A variable or `this` is read where its distance leads, or it is a global variable. -/
theorem found_read (hkind : r.kind = .variable ∨ r.kind = .this) {declaring : Option String}
    (hdeclaring : ∀ name ∈ declaring, site.declares name = true) :
    Lookup.Found ⟨r, declaring, m, noteOf (fun v => v) (readVariable r.id r.name m)⟩ := by
  cases hd : m.distances.find? r.id with
  | some d => exact found_read_bound hstrict hstands hfits hr hkind declaring hd
  | none => exact found_read_global hstrict hstands hfits hr hkind hdeclaring hd

end

theorem found_super (hstrict : setting.strict) (hstands : Stands setting p objects m)
    (hfits : Fits objects.store site p.scope p.home) {id : NodeId} {line : Nat} {method : Name}
    (hr : setting.Admits ⟨site, .reference ⟨.super, id, ⟨method.text, line⟩⟩⟩)
    (declaring : Option String) :
    Lookup.Found ⟨⟨.super, id, ⟨method.text, line⟩⟩, declaring, m,
      noteOf (fun v => v) (superMethod id line method m)⟩ := by
  obtain ⟨d, hd⟩ := exists_distance hstrict hstands hfits hr (.inr rfl)
  have hleads := exists_bound hstrict hstands hfits hr nofun hd
  -- The method is there or it is an undefined property; nothing else can happen.
  have hresult := hstands.superMethod_eq hstrict hfits hr
  refine .of_leadsTo hd hleads ?_ ?_ nofun
  · intro x line h
    rcases hresult with ⟨_, _, _, _, _, _, -, -, -, hok⟩ | hmissing
    · rw [hok] at h
      cases h
    · rw [hmissing] at h
      cases h
  · intro line h
    rcases hresult with ⟨_, _, _, _, _, _, -, -, -, hok⟩ | hmissing
    · rw [hok] at h
      cases h
    · rw [hmissing] at h
      cases h

/-- An assignment fails only if the variable is a global one that is undefined. -/
theorem writeVariable_eq_failure {id : NodeId} {name : Name} {v : Value} {error : RuntimeError}
    (h : writeVariable id name v m = .error (.failure error) m') :
    m.distances.find? id = none ∧ error = ⟨.undefinedVariable name.text, name.line⟩ := by
  rw [writeVariable_apply] at h
  split at h
  · rw [writeAt_apply] at h
    split at h <;> cases h
  · next hd =>
    rw [writeFrom_apply] at h
    split at h <;> cases h
    exact ⟨hd, rfl⟩

theorem found_write (m : Machine) (id : NodeId) (name : Name) (v : Value)
    (declaring : Option String) :
    Lookup.Found ⟨⟨.assign, id, name⟩, declaring, m,
      noteOf (fun _ => v) (writeVariable id name v m)⟩ := by
  have hfails {error : RuntimeError}
      (h : noteOf (fun _ => v) (writeVariable id name v m) = .error (.failure error)) :
      m.distances.find? id = none ∧ error = ⟨.undefinedVariable name.text, name.line⟩ := by
    cases hwrite : writeVariable id name v m with
    | ok a m' =>
      rw [hwrite] at h
      cases h
    | error halt m' =>
      rw [hwrite] at h
      cases h
      exact writeVariable_eq_failure hwrite
  constructor
  · exact fun h => (h rfl).elim
  · exact nofun
  · intro x line h
    obtain ⟨hd, herror⟩ := hfails h
    cases herror
    exact ⟨hd, rfl⟩
  · exact fun line h => nomatch (hfails h).2
  · exact nofun

/-- A step that succeeds goes alike in the watched machine. -/
theorem sim_lift (step : Eval α) {a : α} (hs : (correspondence setting).States p w site m t)
    (hstep : step m = .ok a m') {y : EStateM.Result Halt Observed α} {after : Site}
    (h : (Observed.correspondence setting).Sim p w.1 after post (step m) y)
    (hafter : ∀ name ∈ t.declaring, after.declares name = true) :
    (correspondence setting).Sim p w after (fun w => post w.1) (step m) (lift step t) := by
  obtain ⟨hwatches, -, -⟩ := hs
  obtain rfl := hwatches.machine
  rw [Annotated.lift_ok t hstep]
  rw [hstep] at h ⊢
  cases h with
  | @ok _ _ _ objects hgrows hstates hpost =>
    have hw : (correspondence setting).Grows p w (objects, w.2) := hgrows
    exact .ok hw ⟨⟨rfl, stands_of_follows hstates.1, hwatches.lookups, hwatches.found⟩,
      hstates.2, hafter⟩ hpost

/-- A step that uses a name goes alike if the name is found. -/
theorem sim_noted {step : Eval α} {valueOf : α → Value}
    (hs : (correspondence setting).States p w site m t) {y : EStateM.Result Halt Observed α}
    (h : (Observed.correspondence setting).Sim p w.1 site post (step m) y)
    (hfound : Lookup.Found ⟨r, t.declaring, m, noteOf valueOf (step m)⟩) :
    (correspondence setting).Sim p w site (fun w => post w.1) (step m)
      (noted r valueOf step t) := by
  obtain ⟨hwatches, -, hdeclaring⟩ := hs
  obtain rfl := hwatches.machine
  obtain ⟨objects, lookups⟩ := w
  obtain rfl : t.lookups = lookups := hwatches.lookups
  have hall {l : Lookup} (hl : l.Found) : ∀ other ∈ t.lookups.push l, other.Found := by
    intro other hmem
    rcases Array.mem_push.mp hmem with hold | rfl
    · exact hwatches.found other hold
    · exact hl
  unfold noted
  generalize step t.machine = result at h hfound ⊢
  cases h with
  | @ok a _ _ objects' hgrows hstates hpost =>
    have hworld : (correspondence setting).Grows p (objects, t.lookups)
      (objects', t.lookups.push ⟨r, t.declaring, t.machine, .ok (valueOf a)⟩) := hgrows
    exact .ok hworld
      ⟨⟨rfl, stands_of_follows hstates.1, rfl, hall hfound⟩, hstates.2, hdeclaring⟩ hpost
  | @error halt _ _ objects' hhalt hgrows hended =>
    have hworld : (correspondence setting).Grows p (objects, t.lookups)
      (objects', t.lookups.push ⟨r, t.declaring, t.machine, .error halt⟩) := hgrows
    refine .error ?_ hworld
      ⟨rfl, stands_of_follows hended, rfl, hall hfound⟩
    rintro cause line rfl
    refine ⟨?_, ?_⟩
    · rintro rfl
      exact hfound.inClass line rfl
    · rintro x rfl
      exact ⟨_, Array.mem_push_self, rfl, (hfound.undefined x line rfl).1⟩

/-- What is run in a scope of its own leaves the place and the declaration as they are. -/
theorem sim_inScope (hs : (correspondence setting).States p w site m t) {inner : Context}
    {q : Place} (hinner : Fits w.1.store inner q.scope q.home) {x : Eval Completion}
    {y : EStateM Halt Watched Completion} (h : (correspondence setting).Bodies inner x y) :
    (correspondence setting).Sim p w site ((correspondence setting).CompletionOk inner)
      (Evaluation.inScope q.scope x m) (inScope q.scope y t) := by
  obtain ⟨hwatches, hfits, hdeclaring⟩ := hs
  obtain rfl := hwatches.machine
  have hmoved : Watches setting q w { t.machine with scope := q.scope }
      { t with machine := { t.machine with scope := q.scope }, declaring := none } :=
    ⟨rfl, hwatches.stands.moved q, hwatches.lookups, hwatches.found⟩
  obtain ⟨after, hsim⟩ := h q w _ _ ⟨hmoved, hinner, nofun⟩
  unfold inScope Annotated.inScope
  rw [inScope_apply, leaving_leaving]
  refine (lawful setting).leave hsim fun hgrows hended => ⟨hgrows, ?_⟩
  change Watches setting q _ _ _ at hended
  obtain rfl := hended.machine
  have hback := hended.stands.moved p
  rw [← hwatches.stands.scope] at hback
  exact ⟨⟨rfl, hback, hended.lookups, hended.found⟩,
    hfits.preserved (Objects.Grows.store hgrows), hdeclaring⟩

theorem Watches.atDepth (h : Watches setting p w m t) (depth : Nat) :
    Watches setting p w { m with callDepth := depth }
      { t with machine := { m with callDepth := depth } } := by
  obtain rfl := h.machine
  exact ⟨rfl, h.stands.atDepth depth, h.lookups, h.found⟩

/-- A scope is added. -/
theorem Watches.newScope (h : Watches setting p w m t) {new : Scope}
    (hnew : ∀ {name v}, new.bindings.find? name = some v → w.1.ValueOk setting v) :
    Watches setting p ({ w.1 with store := (w.1.store.newScope new).1 }, w.2)
      { m with store := (m.store.newScope new).1 }
      { t with machine := { t.machine with store := (t.machine.store.newScope new).1 } } := by
  obtain rfl := h.machine
  exact ⟨rfl, h.stands.newScope hnew, h.lookups, h.found⟩

theorem sim_inBlock (hs : (correspondence setting).States p w ctx m t) {x : Eval Completion}
    {y : EStateM Halt Watched Completion}
    (h : (correspondence setting).Bodies (ctx.enter []) x y) :
    (correspondence setting).Sim p w ctx ((correspondence setting).CompletionOk ctx)
      (Operations.machine.inBlock x m) (operations.inBlock y t) := by
  obtain ⟨hwatches, hfits, hdeclaring⟩ := hs
  obtain ⟨⟨store, homes⟩, lookups⟩ := w
  obtain rfl : store = m.store := hwatches.stands.store
  let new : Scope := { enclosing := some m.scope }
  have hgrows := Objects.grows_newScope ⟨m.store, homes⟩ new
  have hworld : (correspondence setting).Grows p (⟨m.store, homes⟩, lookups)
      (⟨(m.store.newScope new).1, homes⟩, lookups) := hgrows
  have hnew := @Watches.newScope _ _ _ _ _ hwatches new nofun
  have hinner := @Fits.enter _ _ _ _ hfits new (congrArg some hwatches.stands.scope)
  have hstates := And.intro hnew (And.intro (hfits.preserved hgrows.store) hdeclaring)
  have hin := sim_inScope (q := ⟨m.store.scopes.size, p.home⟩) hstates hinner h
  obtain rfl := hwatches.machine
  exact (lawful setting).later hworld hin

theorem sim_inCall (hs : (correspondence setting).States p w site m t) {f : FunctionId}
    {object : FunctionObject} {home : Home} {around : Context} {arguments : List Value}
    (hf : w.1.Closes setting f object home around)
    (harity : object.declaration.arity = arguments.length)
    (harguments : ∀ v ∈ arguments, w.1.ValueOk setting v) {x : Eval Completion}
    {y : EStateM Halt Watched Completion}
    (h : (correspondence setting).Bodies (around.function object.declaration.parameters) x y) :
    (correspondence setting).Sim p w site
      ((correspondence setting).CompletionOk (around.function object.declaration.parameters))
      (Operations.machine.inCall f object arguments x m)
      (operations.inCall f object arguments y t) := by
  obtain ⟨hwatches, hfits, hdeclaring⟩ := hs
  obtain ⟨⟨store, homes⟩, lookups⟩ := w
  obtain rfl : store = m.store := hwatches.stands.store
  let bindings := bindArguments object.declaration.parameters arguments
  let new : Scope := { bindings, enclosing := some object.closure }
  have hgrows := Objects.grows_newScope ⟨m.store, homes⟩ new
  have hworld : (correspondence setting).Grows p (⟨m.store, homes⟩, lookups)
      (⟨(m.store.newScope new).1, homes⟩, lookups) := hgrows
  have hnew := @Watches.newScope _ _ _ _ _ hwatches new
    fun hv => harguments _ (find?_bindArguments hv)
  have hstates := And.intro hnew (And.intro (hfits.preserved hgrows.store) hdeclaring)
  have hin := sim_inScope (q := ⟨m.store.scopes.size, home⟩) hstates (hf.enter harity) h
  obtain rfl := hwatches.machine
  exact (lawful setting).later hworld hin

theorem atDepths (setting : Setting) : (correspondence setting).AtDepths where
  toLawful := lawful setting
  machine := Watches.machine
  states depth hs := ⟨hs.1.atDepth depth, hs.2⟩
  stopped depth hended := Watches.atDepth hended depth

/-- A declaration is under way, whose name is known from here on. -/
theorem sim_declare (hs : (correspondence setting).States p w ctx m t) {name : Name}
    (hname : name.Ordinary) :
    (correspondence setting).Sim p w (ctx.initializer name.text) (fun _ _ => True)
      (Operations.machine.declare name.text m) (operations.declare name.text t) := by
  obtain ⟨hwatches, hfits, -⟩ := hs
  refine .ok ((lawful setting).grows_refl p w)
    ⟨⟨hwatches.machine, hwatches.stands, hwatches.lookups, hwatches.found⟩,
      hfits.initializer hname, ?_⟩ trivial
  rintro other ⟨⟩
  exact Context.hasAt_zero.mp (Context.hasAt_declare.mpr (.inl ⟨rfl, rfl⟩))

/-- A declaration is over once its step has succeeded. -/
theorem sim_declared (step : Eval Unit)
    (hs : (correspondence setting).States p w site m t) (hstep : step m = .ok () m')
    {y : EStateM.Result Halt Observed Unit} {ctx : Context}
    (h : (Observed.correspondence setting).Sim p w.1 ctx (fun _ _ => True) (step m) y) :
    (correspondence setting).Sim p w ctx (fun _ _ => True) (step m)
      ((lift step >>= fun _ => setDeclaring none) t) := by
  obtain ⟨hwatches, -, -⟩ := hs
  obtain rfl := hwatches.machine
  change (correspondence setting).Sim p w ctx _ _ (EStateM.bind (lift step) _ t)
  unfold EStateM.bind
  rw [Annotated.lift_ok t hstep]
  rw [hstep] at h ⊢
  cases h with
  | @ok _ _ _ objects hgrows hstates hpost =>
    have hw : (correspondence setting).Grows p w (objects, w.2) := hgrows
    exact .ok hw ⟨⟨rfl, stands_of_follows hstates.1, hwatches.lookups, hwatches.found⟩,
      hstates.2, nofun⟩ trivial

/-- The name of a class is bound when the class takes its place. -/
theorem newClass_eq_ok (hstands : Stands setting p objects m)
    (hfits : Fits objects.store site p.scope p.home) (name : Name) (superclass : Option ClassId)
    (methods : List FunctionDecl) :
    ∃ m', Operations.machine.newClass name superclass methods m = .ok () m' := by
  have hscope : m.scope < m.store.scopes.size := by
    rw [hstands.scope, ← hstands.store]
    exact hfits.known
  rw [newClass_apply, writeFrom_apply]
  dsimp only
  rw [holder?_withClass hscope]
  exact ⟨_, rfl⟩

theorem readKind_eq (hproper : r.Proper) (hkind : r.kind = .variable ∨ r.kind = .this) :
    readKind r.name.text = r.kind := by
  unfold Reference.Proper at hproper
  rcases hkind with hkind | hkind
  · rw [hkind] at hproper ⊢
    exact if_neg hproper.1
  · rw [hkind] at hproper ⊢
    exact if_pos hproper

/-- The operations of the machine and of the watched machine stay in step. -/
theorem simulates (hstrict : setting.strict) :
    Simulates (correspondence setting) Operations.machine operations where
  toLawful := lawful setting
  value_grows hw hv := hv.grows hw
  closures_grows := by
    rintro p w w' f o o' hw ⟨rfl, home, ctx, hf⟩
    exact ⟨rfl, home, ctx, hf.grows hw⟩
  halt_failure := by
    rintro w e hcause cause line ⟨⟩
    constructor
    · rintro rfl
      exact hcause trivial
    · rintro x rfl
      exact (hcause trivial).elim
  halt_outOfFuel _ := nofun
  value_plain w v hv := (Observed.simulates setting).value_plain w.1 hv
  alike hs := by
    obtain rfl := hs.1.machine
    exact ⟨rfl, rfl, rfl⟩
  callDepth hs := by
    obtain rfl := hs.1.machine
    rfl
  function _ _ _ := nofun
  closures := by
    rintro p w site m t f a b hs hf ha hb
    obtain rfl := hs.1.machine
    exact (Observed.simulates setting).closures (hs.1.stands.states hs.2.1) hf ha hb
  instance_ _ _ _ := nofun
  field hs hv := (Observed.simulates setting).field (hs.1.stands.states hs.2.1) hv
  method hs hf := (Observed.simulates setting).method (hs.1.stands.states hs.2.1) hf
  asCall := (atDepths setting).asCall
  printLine text hs :=
    sim_lift (Operations.machine.printLine text) hs rfl
      ((Observed.simulates setting).printLine text (hs.1.stands.states hs.2.1)) hs.2.2
  readVariable := by
    rintro p w site m t r hs hr hkind
    have hsim := (Observed.simulates setting).readVariable r (hs.1.stands.states hs.2.1) hr hkind
    have hfound := found_read hstrict hs.1.stands hs.2.1 hr hkind hs.2.2
    have hreference : (⟨readKind r.name.text, r.id, r.name⟩ : Reference) = r := by
      rw [readKind_eq (hr.reference r rfl).proper hkind]
    rw [← hreference] at hfound
    exact sim_noted hs hsim hfound
  writeVariable id name hs hr hv :=
    sim_noted hs ((Observed.simulates setting).writeVariable id name (hs.1.stands.states hs.2.1) hr hv)
      (found_write _ id name _ _)
  superMethod id line method hs hr :=
    sim_noted hs ((Observed.simulates setting).superMethod id line method (hs.1.stands.states hs.2.1) hr)
      (found_super hstrict hs.1.stands hs.2.1 hr _)
  setField name hs hi hv :=
    sim_lift (Operations.machine.setField _ name _) hs rfl
      ((Observed.simulates setting).setField name (hs.1.stands.states hs.2.1) hi hv) hs.2.2
  newInstance hs hc :=
    sim_lift (Operations.machine.newInstance _) hs rfl
      ((Observed.simulates setting).newInstance (hs.1.stands.states hs.2.1) hc) hs.2.2
  newInstance_keeps := classArity_newInstance
  bindTo_keeps := arity_bindTo
  bindTo := by
    rintro p w site m t f i hs hf hi
    have hsim := (Observed.simulates setting).bindTo (hs.1.stands.states hs.2.1) hf hi
    obtain ⟨object, home, around, kind, hmethod⟩ := hf
    have hfunction := hmethod.function
    rw [hs.1.stands.store] at hfunction
    exact sim_lift (bindTo f i) hs (bindTo_apply m hfunction i) hsim hs.2.2
  declare hs _ hname := sim_declare hs hname
  define hs hname hv :=
    sim_declared (Operations.machine.define _ _) hs rfl
      ((Observed.simulates setting).define (hs.1.stands.states hs.2.1) hname hv)
  defineFunction := by
    rintro p w m t f ctx hs hname hf
    have hsim := (Observed.simulates setting).defineFunction (hs.1.stands.states hs.2.1) hname hf
    exact sim_declared (Operations.machine.newFunction f >>= fun id =>
      Operations.machine.define f.name.text (.functionRef id)) hs rfl hsim
  superclass hs := ⟨hs.1, hs.2.1.superclass, hs.2.2⟩
  newClass := by
    rintro p w m t superclass methods ctx name hs hname hsuper hmethods
    obtain ⟨m', hok⟩ := newClass_eq_ok hs.1.stands hs.2.1 name superclass methods
    have hsim := (Observed.simulates setting).newClass (hs.1.stands.states hs.2.1) hname hsuper hmethods
    exact sim_declared (Operations.machine.newClass name superclass methods) hs hok hsim
  inBlock hs h := sim_inBlock hs h
  inCall := by
    rintro p w ctx m t f a b arguments hs ⟨rfl, home, around, hf⟩ - harity harguments
    exact ⟨around, hf.within, fun x y h => sim_inCall hs hf harity harguments h⟩
  receiver := by
    rintro p w ctx m t f a b hs ⟨rfl, hcloses⟩ hinitializer
    exact sim_lift (Operations.machine.receiver a) hs rfl
      ((Observed.simulates setting).receiver (hs.1.stands.states hs.2.1) ⟨rfl, hcloses⟩ hinitializer)
      hs.2.2

end Watched
end Lox.Evaluation
