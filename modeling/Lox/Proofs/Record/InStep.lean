import Lox.Proofs.Dispatch.Sessions
import Lox.Proofs.Record.Recording

/-!
# Machine and recording machine in step

The operations of a recording machine do what those of the machine do. In a strict setting each
step that it takes down changes only what its action says: a declaration changes its own name in
the running scope, an assignment a variable that is there, and no other step changes what a name is
bound to in a scope that is there already. The objects before each call are sound, and those after
it have grown out of them.
-/
namespace Lox.Evaluation
open Resolution Observed

namespace Step

/-- The scope that an assignment writes to. -/
def target? (step : Step) (id : NodeId) : Option ScopeId :=
  match step.before.distances.find? id with
  | some d => step.before.store.ancestor? d step.before.scope
  | none => some step.before.globals

/-- What an assignment has done. It writes a variable that exists, or it fails since a global one
does not exist. Only in the initializer of a local variable the variable that is declared may be
assigned to before it exists. -/
inductive Assigned (step : Step) (id : NodeId) (name : Name) (v : Value) : Prop where
  | updates {scope : ScopeId} {old : Value} : step.target? id = some scope →
    step.before.store.findLocal? scope name.text = some old → step.result = .ok () →
    step.after = { step.before with store := step.before.store.define scope name.text v } →
      Assigned step id name v
  | initializes : step.declaring = some name.text → step.before.distances.find? id = some 0 →
    step.before.store.findLocal? step.before.scope name.text = none → step.result = .ok () →
    step.after =
        { step.before with store := step.before.store.define step.before.scope name.text v } →
      Assigned step id name v
  | undefined : step.before.distances.find? id = none →
    step.before.store.findLocal? step.before.globals name.text = none →
    step.result = .error (.failure ⟨.undefinedVariable name.text, name.line⟩) →
    step.after = step.before → Assigned step id name v

/-- What a name is bound to in a scope is as it was before. -/
def Keeps (step : Step) (scope : ScopeId) (name : String) : Prop :=
  step.after.store.findLocal? scope name = step.before.store.findLocal? scope name

/-- The step has changed what its action says. -/
def Exact (step : Step) : Prop :=
  match step.action with
  | .declares name => ∀ scope x, scope < step.before.store.scopes.size →
    scope = step.before.scope ∧ x = name ∨ step.Keeps scope x
  | .assigns id name v => step.Assigned id name v
  | .begins _ | .opens | .other => ∀ scope x, scope < step.before.store.scopes.size →
    step.Keeps scope x

/-- The steps, the latest one first, lead from one store to the other without a gap, and each of
them preserves what was there before. -/
def Chained (start : Store) : List Step → Store → Prop
  | [], store => store = start
  | step :: earlier, store => store = step.after.store ∧
    Preserves step.before.store step.after.store ∧ Chained start earlier step.before.store

section
variable {start store : Store} {step : Step} {steps later earlier : List Step}

theorem Chained.preserves (h : Chained start steps store) : Preserves start store := by
  induction steps generalizing store with
  | nil =>
    subst h
    exact .refl _
  | cons step earlier ih =>
    obtain ⟨rfl, hpreserves, hearlier⟩ := h
    exact (ih hearlier).trans hpreserves

/-- Between any two steps there is a store to which the earlier steps lead. -/
theorem Chained.split (h : Chained start (later ++ earlier) store) :
    ∃ middle, Chained start earlier middle ∧ Chained middle later store := by
  induction later generalizing store with
  | nil => exact ⟨store, h, rfl⟩
  | cons step later ih =>
    obtain ⟨rfl, hpreserves, hrest⟩ := h
    obtain ⟨middle, hearlier, hlater⟩ := ih hrest
    exact ⟨middle, hearlier, rfl, hpreserves, hlater⟩

theorem Chained.preserves_of_mem (h : Chained start steps store) (hmem : step ∈ steps) :
    Preserves step.before.store step.after.store ∧ Preserves step.after.store store := by
  obtain ⟨later, earlier, rfl⟩ := List.append_of_mem hmem
  obtain ⟨middle, hearlier, hlater⟩ := h.split
  obtain ⟨rfl, hstep, -⟩ := hearlier
  exact ⟨hstep, hlater.preserves⟩

end

end Step

/-- The body has preserved what was there before. -/
def Body.Sound (body : Body) : Prop := Preserves body.before body.after

/-- The objects before a call are sound, and so is what is called and the arguments. Each body
preserves what was there before it. -/
structure Call.Sound (call : Call) : Prop where
  objects : ∃ setting homes, Objects.Sound setting ⟨call.before.store, homes⟩ ∧
    Objects.ValueOk setting ⟨call.before.store, homes⟩ call.callee ∧
      ∀ v ∈ call.arguments, Objects.ValueOk setting ⟨call.before.store, homes⟩ v
  bodies : ∀ body ∈ call.bodies, body.Sound

namespace Recorded
variable {α : Type}

/-- The recording machine runs at the place as the machine does, and what it has taken down is as it
must be. -/
structure Records (setting : Setting) (start : Store) (p : Place) (w : Objects) (m : Machine)
    (t : Recorded) : Prop where
  machine : t.machine = m
  stands : Stands setting p w m
  chained : Step.Chained start t.steps m.store
  steps : setting.strict → ∀ step ∈ t.steps, step.Exact
  bodies : ∀ body ∈ t.bodies, body.Sound
  calls : ∀ call ∈ t.calls, call.Sound ∧ Preserves call.before.store m.store

/-- The declaration that is under way at a site is the one that directly contains what is done, or
its name is bound already. -/
def Underway (site : Site) (p : Place) (w : Objects) (declaring : Option String) : Prop :=
  ∀ name, site.Opens name → declaring = some name ∨ w.store.Has p.scope name

def correspondence (setting : Setting) (start : Store) : Correspondence Machine Recorded where
  World := Objects
  Position := Place
  Grows _ := Objects.Grows
  States p w site m t := Records setting start p w m t ∧ Fits w.store site p.scope p.home ∧
    Underway site p w t.declaring
  Ended := Records setting start
  ValueOk := Objects.ValueOk setting
  MethodOk := Objects.IsMethod setting
  Closures w f a b := a = b ∧ ∃ home ctx, w.Closes setting f a home ctx
  HaltOk _ _ := True
  Admits := setting.Admits

variable {setting : Setting} {start : Store} {p : Place} {w w' : Objects} {site after : Site}
  {ctx : Context} {m m' : Machine} {t : Recorded} {post : Objects → α → Prop}
  {declaring : Option String}

theorem lawful (setting : Setting) (start : Store) : (correspondence setting start).Lawful where
  grows_refl _ := .refl
  grows_trans := .trans
  ended hs := hs.1

theorem Underway.grows (h : Underway site p w declaring) (hgrows : w.Grows w') :
    Underway site p w' declaring :=
  fun name hopen => (h name hopen).imp_right hgrows.store.bound

/-- No declaration is under way between statements. -/
theorem underway_context (ctx : Context) : Underway ctx p w declaring :=
  fun name hopen => (ctx.not_opens name hopen).elim

theorem underway_initializer {name : String} :
    Underway (ctx.initializer name) p w (some name) := by
  intro other hopen
  rw [Context.eq_of_opens_initializer hopen]
  exact .inl rfl

/-- A class is declared before its superclass clause; its name is new or bound already. -/
theorem Underway.superclass {name : String} (h : Underway (ctx.initializer name) p w declaring)
    (hfits : Fits w.store (ctx.initializer name) p.scope p.home) :
    Underway (ctx.superclass name) p w declaring := by
  intro other hopen
  obtain rfl := Context.opens_superclass.mp hopen
  by_cases hinitializer : (ctx.initializer other).Opens other
  · exact h other hinitializer
  · have hat : (ctx.initializer other).HasAt 0 other := Context.hasAt_declare.mpr (.inl ⟨rfl, rfl⟩)
    obtain ⟨scope, hscope, hhas⟩ := hfits.bound hat fun _ => hinitializer
    obtain rfl : p.scope = scope := Option.some.inj hscope
    exact .inr hhas

/-- What is taken down of a step. -/
def stepOf (action : Action) (t : Recorded) (result : EStateM.Result Halt Machine α) : Step :=
  ⟨action, t.declaring, t.machine, (resultOf result).map fun _ => (), stateOf result⟩

theorem resultOf_step (action : Action) (x : Eval α) (t : Recorded) :
    resultOf (step action x t) = resultOf (x t.machine) := by
  unfold step
  cases x t.machine <;> rfl

theorem stateOf_step (action : Action) (x : Eval α) (t : Recorded) :
    stateOf (step action x t) =
      { t with
        machine := stateOf (x t.machine)
        declaring := action.declaring t.declaring
        steps := stepOf action t (x t.machine) :: t.steps } := by
  unfold step
  cases x t.machine <;> rfl

/-- A step is taken down. -/
theorem Records.step (h : Records setting start p w m t) {step : Step}
    (hpreserves : Preserves m.store step.after.store) (hstands : Stands setting p w' step.after)
    (hbefore : step.before = m) (hexact : setting.strict → step.Exact) (declaring : Option String) :
    Records setting start p w' step.after
      { t with machine := step.after, declaring, steps := step :: t.steps } where
  machine := rfl
  stands := hstands
  chained := by
    subst hbefore
    exact ⟨rfl, hpreserves, h.chained⟩
  steps hstrict := List.forall_mem_cons.mpr ⟨hexact hstrict, h.steps hstrict⟩
  bodies := h.bodies
  calls call hcall := (h.calls call hcall).imp_right fun hpast => hpast.trans hpreserves

/-- What goes alike in the observed machine goes alike in the recording machine, if there it is
taken down as it must be. -/
theorem sim_of_observed {x : EStateM.Result Halt Machine α} {y : EStateM.Result Halt Observed α}
    {z : EStateM.Result Halt Recorded α} (h : (Observed.correspondence setting).Sim p w after post x y)
    (hresult : resultOf z = resultOf x)
    (hrecords : ∀ {w'}, w.Grows w' → Stands setting p w' (stateOf x) →
      Records setting start p w' (stateOf x) (stateOf z))
    (hunderway : ∀ {w'}, w.Grows w' → Underway after p w' (stateOf z).declaring) :
    (correspondence setting start).Sim p w after post x z := by
  refine h.carry hresult (fun hgrows hstates hpost => ?_) fun hgrows hended _ => ?_
  · have hrecorded := hrecords hgrows (stands_of_follows hstates.1)
    exact ⟨_, hgrows, ⟨hrecorded, hstates.2, hunderway hgrows⟩, hpost⟩
  · exact ⟨_, hgrows, hrecords hgrows (stands_of_follows hended), trivial⟩

/-- So does a single step. -/
theorem sim_step {action : Action} {x : Eval α}
    (hs : (correspondence setting start).States p w site m t)
    {y : EStateM.Result Halt Observed α}
    (h : (Observed.correspondence setting).Sim p w after post (x m) y)
    (hexact : setting.strict → (stepOf action t (x m)).Exact)
    (hunderway : ∀ {w'}, w.Grows w' → Underway after p w' (action.declaring t.declaring)) :
    (correspondence setting start).Sim p w after post (x m) (step action x t) := by
  obtain ⟨hrecords, -, -⟩ := hs
  obtain rfl := hrecords.machine
  refine sim_of_observed h (resultOf_step action x t) (fun hgrows hstands => ?_) fun hgrows => ?_
  · have hpreserves := hgrows.store
    rw [hrecords.stands.store, hstands.store] at hpreserves
    rw [stateOf_step]
    exact @Records.step _ _ _ _ _ _ _ hrecords (stepOf action t (x t.machine)) hpreserves hstands rfl
      hexact _
  · rw [stateOf_step]
    exact hunderway hgrows

/-- A step within a declaration or outside of all of them leaves it at that. -/
theorem sim_within {action : Action} {x : Eval α}
    (hs : (correspondence setting start).States p w site m t)
    {y : EStateM.Result Halt Observed α}
    (h : (Observed.correspondence setting).Sim p w site post (x m) y)
    (hexact : setting.strict → (stepOf action t (x m)).Exact)
    (hdeclaring : action.declaring t.declaring = t.declaring) :
    (correspondence setting start).Sim p w site post (x m) (step action x t) := by
  refine sim_step hs h hexact fun hgrows => ?_
  rw [hdeclaring]
  exact hs.2.2.grows hgrows

theorem exact_of_scopes {action : Action} {result : EStateM.Result Halt Machine α}
    (haction : action = .opens ∨ action = .other ∨ ∃ name, action = .begins name)
    (h : ∀ scope x, scope < t.machine.store.scopes.size →
      (stateOf result).store.findLocal? scope x = t.machine.store.findLocal? scope x) :
    (stepOf action t result).Exact := by
  unfold stepOf Step.Exact
  obtain rfl | rfl | ⟨name, rfl⟩ := haction <;> exact h

/-- Most steps leave all scopes as they are. -/
theorem exact_other {result : EStateM.Result Halt Machine α}
    (h : (stateOf result).store.scopes = t.machine.store.scopes) :
    (stepOf .other t result).Exact := by
  refine exact_of_scopes (.inr (.inl rfl)) fun scope x _ => ?_
  unfold Store.findLocal?
  rw [h]

theorem findLocal?_newScope_of_lt {store : Store} {scope : ScopeId} (h : scope < store.scopes.size)
    (new : Scope) (x : String) :
    (store.newScope new).1.findLocal? scope x = store.findLocal? scope x := by
  rw [Store.findLocal?_newScope, if_neg (Nat.ne_of_lt h)]

theorem stateOf_readVariable (id : NodeId) (name : Name) (m : Machine) :
    stateOf (readVariable id name m) = m := by
  rw [readVariable_apply]
  split
  · rw [readAt_apply]
    repeat' split
    all_goals rfl
  · rw [readGlobal_apply]
    split <;> rfl

/-- The stores differ by the scope of the bound method only. -/
theorem exact_bound {object : FunctionObject} {i : InstanceId} {a : α} :
    (stepOf .other t (.ok a { t.machine with store := (t.machine.store.bindMethod object i).1 }
      : EStateM.Result Halt Machine α)).Exact :=
  exact_of_scopes (.inr (.inl rfl)) fun _ x hscope => findLocal?_newScope_of_lt hscope _ x

/-- Only a scope for `super` is added around the methods of a class. -/
theorem findLocal?_withMethodScope {store : Store} {scope here : ScopeId}
    (h : scope < store.scopes.size) (superclass : Option ClassId) (x : String) :
    (withMethodScope store here superclass).1.findLocal? scope x = store.findLocal? scope x := by
  cases superclass with
  | none => rfl
  | some c => exact findLocal?_newScope_of_lt h _ x

section
variable (hstrict : setting.strict) (hstands : Stands setting p w t.machine)
  (hfits : Fits w.store site p.scope p.home)
include hstrict hstands hfits

theorem exact_superMethod {id : NodeId} {line : Nat} {method : Name}
    (hr : setting.Admits ⟨site, .reference ⟨.super, id, ⟨method.text, line⟩⟩⟩) :
    (stepOf .other t (superMethod id line method t.machine)).Exact := by
  rcases hstands.superMethod_eq hstrict hfits hr with
    ⟨_, object, _, _, _, i, -, -, -, hbound⟩ | hmissing
  · rw [hbound]
    exact exact_bound
  · rw [hmissing]
    exact exact_other rfl

omit hstrict hfits in
/-- A global variable is assigned to if it is there. -/
theorem assigned_global {id : NodeId} {name : Name} (v : Value)
    (hd : t.machine.distances.find? id = none) :
    (stepOf (.assigns id name v) t (writeVariable id name v t.machine)).Assigned id name v := by
  have hglobals := hstands.globals
  have htop := hstands.sound.top
  have hknown := hstands.sound.known
  rw [hstands.store, ← hglobals] at htop hknown
  have hwrite : writeVariable id name v t.machine =
      writeFrom t.machine.globals name v t.machine := by
    rw [writeVariable_apply, hd]
  rw [hwrite, writeFrom_apply, Store.holder?_outermost hknown htop]
  cases hold : t.machine.store.findLocal? t.machine.globals name.text with
  | none => exact .undefined hd hold rfl rfl
  | some old =>
    refine .updates ?_ hold rfl rfl
    unfold stepOf Step.target?
    rw [hd]

/-- An assignment writes a variable that is there, unless the variable is declared just then. -/
theorem assigned_writeVariable {id : NodeId} {name : Name} (v : Value)
    (hunderway : Underway site p w t.declaring)
    (hr : setting.Admits ⟨site, .reference ⟨.assign, id, name⟩⟩) :
    (stepOf (.assigns id name v) t (writeVariable id name v t.machine)).Assigned id name v := by
  cases hd : t.machine.distances.find? id with
  | none => exact assigned_global hstands v hd
  | some d =>
    have hexpected := hstands.find?_eq_expected hstrict hr
    rw [hd] at hexpected
    have hdistance : site.distance? name.text = some d := hexpected.symm
    have hat := Context.hasAt_of_distance hdistance
    have hwrite : writeVariable id name v t.machine = writeAt d name.text v t.machine := by
      rw [writeVariable_apply, hd]
    rw [hwrite]
    have hupdates {scope : ScopeId} {old : Value}
        (hscope : t.machine.store.ancestor? d t.machine.scope = some scope)
        (hold : t.machine.store.findLocal? scope name.text = some old) :
        (stepOf (.assigns id name v) t (writeAt d name.text v t.machine)).Assigned id name v := by
      rw [writeAt_apply, hscope]
      refine .updates ?_ hold rfl rfl
      unfold stepOf Step.target?
      rw [hd]
      exact hscope
    by_cases hown : d = 0 ∧ site.Opens name.text
    · obtain ⟨rfl, hopen⟩ := hown
      cases hold : t.machine.store.findLocal? t.machine.scope name.text with
      | some old => exact hupdates rfl hold
      | none =>
        refine .initializes ((hunderway _ hopen).resolve_right ?_) hd hold rfl rfl
        rintro ⟨old, hbound⟩
        rw [hstands.store, ← hstands.scope, hold] at hbound
        cases hbound
    · obtain ⟨scope, hscope, old, hold⟩ := hfits.bound hat fun hzero hopen => hown ⟨hzero, hopen⟩
      rw [hstands.store, ← hstands.scope] at hscope
      rw [hstands.store] at hold
      exact hupdates hscope hold

omit hstrict in
/-- A class declaration changes what its own name is bound to. -/
theorem exact_newClass (name : Name) (superclass : Option ClassId) (methods : List FunctionDecl) :
    (stepOf (.declares name.text) t
      (Operations.machine.newClass name superclass methods t.machine)).Exact := by
  have hknown : t.machine.scope < t.machine.store.scopes.size := by
    rw [hstands.scope, ← hstands.store]
    exact hfits.known
  rw [newClass_apply, writeFrom_apply]
  dsimp only
  rw [holder?_withClass hknown]
  dsimp only
  intro scope x hscope
  unfold Step.Keeps
  change _ ∨ (Store.define _ _ _ _).findLocal? scope x = _
  rw [Store.findLocal?_define]
  split
  · next hsame => exact .inl ⟨hsame.1, hsame.2.1⟩
  · change _ ∨ (withMethodScope _ _ superclass).1.findLocal? scope x = _
    have hdefined : scope < (t.machine.store.define t.machine.scope name.text .nil).scopes.size :=
      Nat.lt_of_lt_of_eq hscope (Array.size_modify ..).symm
    rw [findLocal?_withMethodScope hdefined, Store.findLocal?_define]
    split
    · next hsame => exact .inl ⟨hsame.1, hsame.2.1⟩
    · exact .inr rfl

end

/-- A declaration gives its own name a value. -/
theorem exact_define (name : String) (v : Value) :
    (stepOf (.declares name) t (Operations.machine.define name v t.machine)).Exact := by
  intro scope x _
  change _ ∨ (t.machine.store.define t.machine.scope name v).findLocal? scope x = _
  rw [Store.findLocal?_define]
  split
  · next hsame => exact .inl ⟨hsame.1, hsame.2.1⟩
  · exact .inr rfl

/-- What is recorded of bodies and calls changes nothing else. -/
theorem Records.noted (h : Records setting start p w m t) (events : List Event)
    {bodies : List Body} (hbodies : ∀ body ∈ bodies, body.Sound) {calls : List Call}
    (hcalls : ∀ call ∈ calls, call.Sound ∧ Preserves call.before.store m.store) :
    Records setting start p w m { t with events, bodies, calls } :=
  ⟨h.machine, h.stands, h.chained, h.steps, hbodies, hcalls⟩

/-- Neither does what is recorded when an evaluation has ended. -/
theorem sim_leaving {u : EStateM.Result Halt Machine α} {z : EStateM.Result Halt Recorded α}
    (h : (correspondence setting start).Sim p w after post u z) {back : Recorded → Recorded}
    (hdeclaring : ∀ t, (back t).declaring = t.declaring)
    (hback : ∀ {w'}, w.Grows w' → Records setting start p w' (stateOf u) (stateOf z) →
      Records setting start p w' (stateOf u) (back (stateOf z))) :
    (correspondence setting start).Sim p w after post u (leaving back z) := by
  cases h with
  | @ok a m' t' w' hgrows hstates hpost =>
    have hunderway := hstates.2.2
    rw [← hdeclaring t'] at hunderway
    exact .ok hgrows ⟨hback hgrows hstates.1, hstates.2.1, hunderway⟩ hpost
  | error hhalt hgrows hended => exact .error trivial hgrows (hback hgrows hended)

/-- What is run in a scope of its own leaves the place and the declaration as they are. -/
theorem sim_inScope (hs : (correspondence setting start).States p w site m t) {inner : Context}
    {q : Place} (hinner : Fits w.store inner q.scope q.home) {x : Eval Completion}
    {y : EStateM Halt Recorded Completion} (h : (correspondence setting start).Bodies inner x y) :
    (correspondence setting start).Sim p w site ((correspondence setting start).CompletionOk inner)
      (Evaluation.inScope q.scope x m) (inScope q.scope y t) := by
  obtain ⟨hrecords, hfits, hunderway⟩ := hs
  obtain rfl := hrecords.machine
  have hmoved : Records setting start q w { t.machine with scope := q.scope }
      { t with machine := { t.machine with scope := q.scope }, declaring := none } :=
    ⟨rfl, hrecords.stands.moved q, hrecords.chained, hrecords.steps, hrecords.bodies, hrecords.calls⟩
  obtain ⟨after, hsim⟩ := h q w _ _ ⟨hmoved, hinner, underway_context inner⟩
  unfold inScope Annotated.inScope
  rw [inScope_apply, leaving_leaving]
  refine (lawful setting start).leave hsim fun hgrows hended => ⟨hgrows, ?_⟩
  change Records setting start q _ _ _ at hended
  obtain rfl := hended.machine
  have hback := hended.stands.moved p
  rw [← hrecords.stands.scope] at hback
  exact ⟨⟨rfl, hback, hended.chained, hended.steps, hended.bodies, hended.calls⟩,
    hfits.preserved hgrows.store, hunderway.grows hgrows⟩

/-- The recording machine after a scope was opened. -/
def opened (t : Recorded) (new : Scope) : Recorded :=
  let machine := { t.machine with store := (t.machine.store.newScope new).1 }
  { t with machine, steps := ⟨.opens, t.declaring, t.machine, .ok (), machine⟩ :: t.steps }

theorem Records.opened (h : Records setting start p w m t) {new : Scope}
    (hnew : ∀ {name v}, new.bindings.find? name = some v → w.ValueOk setting v) :
    Records setting start p { w with store := (w.store.newScope new).1 }
      { m with store := (m.store.newScope new).1 } (t.opened new) := by
  obtain rfl := h.machine
  let after : Machine := { t.machine with store := (t.machine.store.newScope new).1 }
  refine @Records.step _ _ _ _ _ _ _ h ⟨.opens, t.declaring, t.machine, .ok (), after⟩
    (.newScope t.machine.store new) (h.stands.newScope hnew) rfl (fun _ => ?_) t.declaring
  exact @exact_of_scopes _ t _ (.ok () after : EStateM.Result Halt Machine Unit) (.inl rfl)
    fun scope x hscope => findLocal?_newScope_of_lt hscope new x

theorem sim_inBlock (hs : (correspondence setting start).States p w ctx m t) {x : Eval Completion}
    {y : EStateM Halt Recorded Completion}
    (h : (correspondence setting start).Bodies (ctx.enter []) x y) :
    (correspondence setting start).Sim p w ctx ((correspondence setting start).CompletionOk ctx)
      (Operations.machine.inBlock x m) (operations.inBlock y t) := by
  obtain ⟨hrecords, hfits, hunderway⟩ := hs
  obtain ⟨store, homes⟩ := w
  obtain rfl : store = m.store := hrecords.stands.store
  let new : Scope := { enclosing := some m.scope }
  have hgrows := Objects.grows_newScope ⟨m.store, homes⟩ new
  have hnew := @Records.opened _ _ _ _ _ _ hrecords new nofun
  have hinner := @Fits.enter _ _ _ _ hfits new (congrArg some hrecords.stands.scope)
  have hstates := And.intro hnew
    (And.intro (hfits.preserved hgrows.store) (hunderway.grows hgrows))
  have hin := sim_inScope (q := ⟨m.store.scopes.size, p.home⟩) hstates hinner h
  obtain rfl := hrecords.machine
  exact (lawful setting start).later hgrows hin

/-- The body of a function is taken down with what it has preserved. -/
theorem sim_inBody (hs : (correspondence setting start).States p w site m t)
    (object : FunctionObject) (arguments : List Value) {u : EStateM.Result Halt Machine Completion}
    {y : EStateM Halt Recorded Completion} {post : Objects → Completion → Prop}
    (h : ∀ t', (correspondence setting start).States p w site m t' →
      (correspondence setting start).Sim p w after post u (y t')) :
    (correspondence setting start).Sim p w after post u (inBody object arguments y t) := by
  obtain ⟨hrecords, hsite⟩ := hs
  have hbefore := hrecords.noted [] hrecords.bodies hrecords.calls
  refine sim_leaving (h { t with events := [] } ⟨hbefore, hsite⟩) (fun _ => rfl)
    fun hgrows hended => hended.noted _ (List.forall_mem_cons.mpr ⟨?_, hended.bodies⟩) hended.calls
  have hpreserves := hgrows.store
  rw [hrecords.stands.store, hended.stands.store, ← hrecords.machine, ← hended.machine] at hpreserves
  exact hpreserves

theorem sim_inCall (hs : (correspondence setting start).States p w site m t) {f : FunctionId}
    {object : FunctionObject} {home : Home} {around : Context} {arguments : List Value}
    (hf : w.Closes setting f object home around)
    (harity : object.declaration.arity = arguments.length)
    (harguments : ∀ v ∈ arguments, w.ValueOk setting v) {x : Eval Completion}
    {y : EStateM Halt Recorded Completion}
    (h : (correspondence setting start).Bodies (around.function object.declaration.parameters) x y) :
    (correspondence setting start).Sim p w site
      ((correspondence setting start).CompletionOk (around.function object.declaration.parameters))
      (Operations.machine.inCall f object arguments x m)
      (operations.inCall f object arguments y t) := by
  refine sim_inBody hs object arguments fun t hs => ?_
  obtain ⟨hrecords, hfits, hunderway⟩ := hs
  obtain ⟨store, homes⟩ := w
  obtain rfl : store = m.store := hrecords.stands.store
  let bindings := bindArguments object.declaration.parameters arguments
  let new : Scope := { bindings, enclosing := some object.closure }
  have hgrows := Objects.grows_newScope ⟨m.store, homes⟩ new
  have hnew := @Records.opened _ _ _ _ _ _ hrecords new
    fun hv => harguments _ (find?_bindArguments hv)
  have hstates := And.intro hnew
    (And.intro (hfits.preserved hgrows.store) (hunderway.grows hgrows))
  have hin := sim_inScope (q := ⟨m.store.scopes.size, home⟩) hstates (hf.enter harity) h
  obtain rfl := hrecords.machine
  exact (lawful setting start).later hgrows hin

theorem Records.atDepth (h : Records setting start p w m t) (depth : Nat) :
    Records setting start p w { m with callDepth := depth }
      { t with machine := { m with callDepth := depth } } := by
  obtain rfl := h.machine
  exact ⟨rfl, h.stands.atDepth depth, h.chained, h.steps, h.bodies, h.calls⟩

theorem atDepths (setting : Setting) (start : Store) :
    (correspondence setting start).AtDepths where
  toLawful := lawful setting start
  machine := Records.machine
  states depth hs := ⟨hs.1.atDepth depth, hs.2⟩
  stopped depth hended := Records.atDepth hended depth

/-- The function is made before its name is bound to it; both are steps. -/
theorem sim_defineFunction {f : FunctionDecl}
    (hs : (correspondence setting start).States p w (ctx.initializer f.name.text) m t)
    (hname : f.name.Ordinary)
    (hf : Stmt.FunctionWithin setting.Admits ((ctx.declare f.name.text).inFunction .ordinary) f) :
    (correspondence setting start).Sim p w (ctx.declare f.name.text) (fun _ _ => True)
      ((Operations.machine.newFunction f >>= fun id =>
        Operations.machine.define f.name.text (.functionRef id)) m)
      ((operations.newFunction f >>= fun id =>
        operations.define f.name.text (.functionRef id)) t) := by
  obtain ⟨hrecords, hfits, -⟩ := hs
  obtain rfl := hrecords.machine
  refine sim_of_observed (Observed.sim_defineFunction (hrecords.stands.states hfits) hname hf) rfl
    (fun {w'} _ hstands => ?_) fun _ => underway_context _
  obtain ⟨store, homes⟩ := w
  obtain rfl : store = t.machine.store := hrecords.stands.store
  let object : FunctionObject := ⟨f, t.machine.scope, false⟩
  have hmade := Objects.grows_addFunctions ⟨t.machine.store, homes⟩ #[object] #[p.home]
  have hstates := Follows.states hrecords.stands hfits hmade
    (@Objects.Sound.addFunctions _ _ hrecords.stands.sound #[object] #[p.home] rfl)
  have hmaking := @Records.step _ _ _ _ _ _ _ hrecords
    (stepOf .other t (Operations.machine.newFunction f t.machine))
    (.of_scopes (.newFunction t.machine.store object) rfl)
    (stands_of_follows hstates.1) rfl (fun _ => exact_other rfl) t.declaring
  let made := stateOf (step .other (Operations.machine.newFunction f) t)
  exact @Records.step _ _ _ _ _ _ _ hmaking
    (stepOf (.declares f.name.text) made (Operations.machine.define f.name.text _ made.machine))
    (.define _ _ (not_special hname) _) hstands rfl (fun _ => exact_define _ _) none

/-- The operations of the machine and of the recording machine stay in step. -/
theorem simulates (setting : Setting) (start : Store) :
    Simulates (correspondence setting start) Operations.machine operations where
  toLawful := lawful setting start
  value_grows hw hv := hv.grows hw
  closures_grows := by
    rintro p w w' f o o' hw ⟨rfl, home, ctx, hf⟩
    exact ⟨rfl, home, ctx, hf.grows hw⟩
  halt_failure _ _ _ := trivial
  halt_outOfFuel _ := trivial
  value_plain w v hv := (Observed.simulates setting).value_plain w hv
  alike hs := by
    obtain rfl := hs.1.machine
    exact ⟨rfl, rfl, rfl⟩
  callDepth hs := by
    obtain rfl := hs.1.machine
    rfl
  function _ _ _ := trivial
  closures := by
    rintro p w site m t f a b hs hf ha hb
    obtain rfl := hs.1.machine
    exact (Observed.simulates setting).closures (hs.1.stands.states hs.2.1) hf ha hb
  instance_ _ _ _ := trivial
  field hs hv := (Observed.simulates setting).field (hs.1.stands.states hs.2.1) hv
  method hs hf := (Observed.simulates setting).method (hs.1.stands.states hs.2.1) hf
  asCall := (atDepths setting start).asCall
  printLine text hs :=
    sim_within hs ((Observed.simulates setting).printLine text (hs.1.stands.states hs.2.1))
      (fun _ => exact_other (by rw [hs.1.machine]; rfl)) rfl
  readVariable := by
    rintro p w site m t r hs hr hkind
    have hsim := (Observed.simulates setting).readVariable r (hs.1.stands.states hs.2.1) hr hkind
    obtain rfl := hs.1.machine
    refine sim_within hs hsim (fun _ => exact_other ?_) rfl
    exact congrArg (·.store.scopes) (stateOf_readVariable r.id r.name t.machine)
  writeVariable := by
    rintro p w site m t v id name hs hr hv
    have hsim := (Observed.simulates setting).writeVariable id name (hs.1.stands.states hs.2.1) hr hv
    obtain rfl := hs.1.machine
    exact sim_within hs hsim
      (fun hstrict => assigned_writeVariable hstrict hs.1.stands hs.2.1 v hs.2.2 hr) rfl
  superMethod := by
    rintro p w site m t id line method hs hr
    have hsim := (Observed.simulates setting).superMethod id line method
      (hs.1.stands.states hs.2.1) hr
    obtain rfl := hs.1.machine
    exact sim_within hs hsim
      (fun hstrict => exact_superMethod hstrict hs.1.stands hs.2.1 hr) rfl
  setField name hs hi hv :=
    sim_within hs ((Observed.simulates setting).setField name (hs.1.stands.states hs.2.1) hi hv)
      (fun _ => exact_other (by rw [hs.1.machine]; rfl)) rfl
  newInstance hs hc :=
    sim_within hs ((Observed.simulates setting).newInstance (hs.1.stands.states hs.2.1) hc)
      (fun _ => exact_other (by rw [hs.1.machine]; rfl)) rfl
  newInstance_keeps := classArity_newInstance
  bindTo_keeps := arity_bindTo
  bindTo := by
    rintro p w site m t f i hs hf hi
    have hsim := (Observed.simulates setting).bindTo (hs.1.stands.states hs.2.1) hf hi
    obtain rfl := hs.1.machine
    refine sim_within hs hsim (fun _ => ?_) rfl
    obtain ⟨object, home, around, kind, hmethod⟩ := hf
    have hfunction := hmethod.function
    rw [hs.1.stands.store] at hfunction
    have hbound : Operations.machine.bindTo f i t.machine = _ :=
      Evaluation.bindTo_apply _ hfunction i
    rw [hbound]
    exact exact_bound
  declare hs hadmits hname :=
    sim_step hs ((Observed.simulates setting).declare (hs.1.stands.states hs.2.1) hadmits hname)
      (fun _ => exact_of_scopes (.inr (.inr ⟨_, rfl⟩)) fun _ _ _ => by rw [hs.1.machine]; rfl)
      fun _ => underway_initializer
  define := by
    rintro p w m t v ctx name hs hname hv
    have hsim := (Observed.simulates setting).define (hs.1.stands.states hs.2.1) hname hv
    obtain rfl := hs.1.machine
    exact sim_step hs hsim (fun _ => exact_define _ _) fun _ => underway_context _
  defineFunction hs hname hf := sim_defineFunction hs hname hf
  superclass hs := ⟨hs.1, hs.2.1.superclass, hs.2.2.superclass hs.2.1⟩
  newClass := by
    rintro p w m t superclass methods ctx name hs hname hsuper hmethods
    have hsim := (Observed.simulates setting).newClass (hs.1.stands.states hs.2.1) hname hsuper
      hmethods
    obtain rfl := hs.1.machine
    exact sim_step hs hsim (fun _ => exact_newClass hs.1.stands hs.2.1 name superclass methods)
      fun _ => underway_context _
  inBlock hs h := sim_inBlock hs h
  inCall := by
    rintro p w site m t f a b arguments hs ⟨rfl, home, around, hf⟩ - harity harguments
    exact ⟨around, hf.within, fun x y h => sim_inCall hs hf harity harguments h⟩
  receiver := by
    rintro p w site m t f a b hs ⟨rfl, hcloses⟩ hinitializer
    exact sim_within hs
      ((Observed.simulates setting).receiver (hs.1.stands.states hs.2.1) ⟨rfl, hcloses⟩ hinitializer)
      (fun _ => exact_other (by rw [hs.1.machine]; rfl)) rfl

/-- What is taken down around expressions, statements and calls changes nothing. -/
theorem transparent (setting : Setting) (start : Store) :
    hooks.Transparent (correspondence setting start) where
  expression e hs h :=
    h _ ⟨hs.1.noted _ hs.1.bodies hs.1.calls, hs.2⟩
  statement := by
    rintro p w site after m t u y post stmt hs h
    have hsim := h _ ⟨hs.1.noted (.executes stmt :: t.events) hs.1.bodies hs.1.calls, hs.2⟩
    change (correspondence setting start).Sim p w after post u
      (EStateM.bind y _ { t with events := .executes stmt :: t.events })
    unfold EStateM.bind
    generalize y { t with events := .executes stmt :: t.events } = z at hsim ⊢
    cases hsim with
    | error hhalt hgrows hended => exact .error trivial hgrows hended
    | @ok completion _ t' _ hgrows hstates hpost =>
      dsimp only
      cases eventOf? stmt completion with
      | none => exact .ok hgrows hstates hpost
      | some event =>
        exact .ok hgrows ⟨hstates.1.noted _ hstates.1.bodies hstates.1.calls, hstates.2⟩ hpost
  call := by
    rintro p w site m t u y callee arguments line hs hcallee harguments h
    have hbefore := hs.1.noted t.events (List.forall_mem_nil _) hs.1.calls
    refine sim_leaving (h { t with bodies := [] } ⟨hbefore, hs.2⟩) (fun _ => rfl)
      fun hgrows hended => hended.noted _ hs.1.bodies (List.forall_mem_cons.mpr ⟨?_, hended.calls⟩)
    obtain ⟨store, homes⟩ := w
    obtain rfl := hs.1.machine
    obtain rfl : store = t.machine.store := hs.1.stands.store
    have hpast := hgrows.store
    rw [hended.stands.store] at hpast
    exact ⟨⟨⟨setting, homes, hs.1.stands.sound, hcallee, harguments⟩, hended.bodies⟩, hpast⟩

/-- A program that is recorded from where a machine stands leaves all as it must be. -/
theorem records_interpret (hstands : Stands setting ⟨outermostScope, {}⟩ w m) {program : List Stmt}
    (hprogram : Stmt.BodyWithin setting.Admits { globals := m.knows } program) (fuel : Nat) :
    ∃ w, Records setting m.store ⟨outermostScope, {}⟩ w (stateOf (Evaluation.interpret fuel program m))
      (stateOf (interpret fuel program { machine := m })) := by
  have hstart : Records setting m.store ⟨outermostScope, {}⟩ w m { machine := m } :=
    ⟨rfl, hstands, rfl, fun _ => List.forall_mem_nil _, List.forall_mem_nil _, List.forall_mem_nil _⟩
  obtain ⟨names, hsim⟩ := (simulates setting m.store).interpretWithHooks (transparent setting m.store)
    fuel hprogram ⟨hstart, hstands.fits, underway_context _⟩
  rw [Operations.machine_interpret] at hsim
  obtain ⟨-, w', -, hended⟩ := (simulates setting m.store).ends hsim
  exact ⟨w', hended⟩

end Recorded
end Lox.Evaluation
