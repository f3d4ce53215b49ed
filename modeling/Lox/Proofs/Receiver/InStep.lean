import Lox.Proofs.Dispatch.Standing
import Lox.Proofs.Receiver.Marking

/-!
# Machine and marked machine in step

The operations of a marked machine do what those of the machine do. The marks of its functions are
the receivers of their homes, so that in a strict setting `this` is always the mark of the running
code, and a method that is bound is one more function in one more scope. No operation binds `this`
or `super` anew where it is bound.
-/
namespace Lox.Evaluation
open Resolution Observed

theorem Preserves.keepsSpecial {a b : Store} (h : Preserves a b) : a.KeepsSpecial b :=
  fun _ _ _ hname hv => h.special hname hv

namespace Marked
open Annotated (lift resultOf_lift stateOf_lift)
variable {α : Type}

/-- The mark of a function in an array of homes. -/
def markIn (homes : Array Home) (f : FunctionId) : Option InstanceId := homes[f]?.bind (·.receiver)

/-- The marked machine runs at the place as the machine does and with the marks of the homes, and
what it has taken down is as it must be. -/
structure Marks (setting : Setting) (p : Place) (w : Objects) (m : Machine) (t : Marked) : Prop where
  machine : t.machine = m
  stands : Stands setting p w m
  receiver : t.receiver = p.home.receiver
  receivers : t.receivers = markIn w.homes
  reads : ∀ read ∈ t.reads, read.Faithful
  bindings : ∀ binding ∈ t.bindings, binding.Exact
  stores : (w.store :: t.stores).Pairwise fun later earlier => Preserves earlier later

def correspondence (setting : Setting) : Correspondence Machine Marked where
  World := Objects
  Position := Place
  Grows _ := Objects.Grows
  States p w site m t := Marks setting p w m t ∧ Fits w.store site p.scope p.home
  Ended := Marks setting
  ValueOk := Objects.ValueOk setting
  MethodOk := Objects.IsMethod setting
  Closures w f a b := a = b ∧ ∃ home ctx, w.Closes setting f a home ctx
  HaltOk _ _ := True
  Admits := setting.Admits

variable {setting : Setting} {p : Place} {w w' : Objects} {site after : Site} {ctx : Context}
  {m m' : Machine} {t : Marked} {post : Objects → α → Prop}

theorem lawful (setting : Setting) : (correspondence setting).Lawful where
  grows_refl _ := .refl
  grows_trans := .trans
  ended hs := hs.1

/-- The machine is another one, and the objects have grown. -/
theorem Marks.step (h : Marks setting p w m t) (hgrows : w.Grows w')
    (hstands : Stands setting p w' m') {receivers : FunctionId → Option InstanceId}
    (hreceivers : receivers = markIn w'.homes) :
    Marks setting p w' m' { t with machine := m', receivers } := by
  refine ⟨rfl, hstands, h.receiver, hreceivers, h.reads, h.bindings, ?_⟩
  obtain ⟨hlatest, hbefore⟩ := List.pairwise_cons.mp h.stores
  exact List.pairwise_cons.mpr ⟨fun earlier hmem => (hlatest earlier hmem).trans hgrows.store, hbefore⟩

/-- A machine with the same objects takes the place of the machine. -/
theorem Marks.replaced {setting' : Setting} (h : Marks setting p w m t)
    (hstands : Stands setting' p w m') : Marks setting' p w m' { t with machine := m' } :=
  ⟨rfl, hstands, h.receiver, h.receivers, h.reads, h.bindings, h.stores⟩

/-- The store before an operation is taken down. -/
theorem Marks.noted (h : Marks setting p w m t) :
    Marks setting p w m { t with stores := t.machine.store :: t.stores } := by
  obtain rfl := h.machine
  refine ⟨rfl, h.stands, h.receiver, h.receivers, h.reads, h.bindings, ?_⟩
  have hstores := h.stores
  rw [h.stands.store] at hstores ⊢
  refine List.pairwise_cons.mpr ⟨List.forall_mem_cons.mpr ⟨.refl _, ?_⟩, hstores⟩
  exact (List.pairwise_cons.mp hstores).1

/-- A step that goes alike in the observed machine goes alike in the marked machine, if there the
marks are those of the homes. -/
theorem sim_of_observed {x : EStateM.Result Halt Machine α} {y : EStateM.Result Halt Observed α}
    {z : EStateM.Result Halt Marked α} (h : (Observed.correspondence setting).Sim p w after post x y)
    (hresult : resultOf z = resultOf x)
    (hmarks : ∀ {w'}, w.Grows w' → Stands setting p w' (stateOf x) →
      w'.homes = (stateOf y).homes → Marks setting p w' (stateOf x) (stateOf z)) :
    (correspondence setting).Sim p w after post x z := by
  refine h.carry hresult (fun hgrows hstates hpost => ?_) fun hgrows hended _ => ?_
  · have hmarked := hmarks hgrows (stands_of_follows hstates.1) hstates.1.homes
    exact ⟨_, hgrows, ⟨hmarked, hstates.2⟩, hpost⟩
  · exact ⟨_, hgrows, hmarks hgrows (stands_of_follows hended) (Follows.homes hended), trivial⟩

/-- So does a step that gives no function a mark. -/
theorem sim_unmarked (step : Eval α) (hs : (correspondence setting).States p w site m t)
    {y : EStateM.Result Halt Observed α}
    (h : (Observed.correspondence setting).Sim p w after post (step m) y)
    (hhomes : markIn (stateOf y).homes = markIn w.homes) :
    (correspondence setting).Sim p w after post (step m) (noted (lift step) t) := by
  obtain rfl := hs.1.machine
  refine sim_of_observed h (resultOf_lift step _) fun hgrows hstands hsame => ?_
  unfold noted
  rw [stateOf_lift]
  refine hs.1.noted.step hgrows hstands ?_
  rw [hsame, hhomes]
  exact hs.1.receivers

/-- And one that makes no function. -/
theorem sim_lift (step : Eval α) (hs : (correspondence setting).States p w site m t)
    (h : (Observed.correspondence setting).Sim p w after post (step m)
      (lift step (⟨m, w.homes, p.home, #[]⟩ : Observed))) :
    (correspondence setting).Sim p w after post (step m) (noted (lift step) t) := by
  refine sim_unmarked step hs h (congrArg markIn ?_)
  unfold lift
  cases step m <;> rfl

theorem markIn_push (homes : Array Home) (home : Home) :
    markIn (homes ++ #[home]) = Function.update (markIn homes) homes.size home.receiver := by
  funext f
  change (homes.push home)[f]?.bind _ = _
  rw [Array.getElem?_push, Function.update_apply]
  split
  · rfl
  · rfl

/-- The methods of a class get no marks. -/
theorem markIn_append_replicate (homes : Array Home) (n : Nat) (superclass : Option ClassId) :
    markIn (homes ++ Array.replicate n (Home.mk superclass none)) = markIn homes := by
  funext f
  unfold markIn
  rw [Array.getElem?_append]
  split
  · rfl
  · next hge =>
    rw [Array.getElem?_eq_none (Nat.le_of_not_lt hge), Array.getElem?_replicate]
    split <;> rfl

/-- The machine after a method was bound to an instance that it was got from. -/
def afterBinding (t : Marked) (object : FunctionObject) (i : InstanceId) : Marked :=
  let (after, bound) := t.machine.store.bindMethod object i
  { t with
    machine := { t.machine with store := after }
    receivers := Function.update t.receivers bound (some i)
    bindings := ⟨some i, t.machine.store, bound, after⟩ :: t.bindings }

theorem bindTo_apply {f : FunctionId} {object : FunctionObject}
    (hf : t.machine.store.functions[f]? = some object) (i : InstanceId) :
    bindTo f i t = .ok (t.machine.store.bindMethod object i).2 (t.afterBinding object i) := by
  change EStateM.bind (lift (Evaluation.bindTo f i)) _ t = _
  unfold EStateM.bind
  rw [Annotated.lift_ok t (Evaluation.bindTo_apply t.machine hf i)]
  rfl

theorem superMethod_apply_ok {id : NodeId} {line : Nat} {method : Name} {object : FunctionObject}
    {i : InstanceId} (hi : t.receiver = some i)
    (h : Evaluation.superMethod id line method t.machine =
      .ok (.functionRef (t.machine.store.bindMethod object i).2)
        { t.machine with store := (t.machine.store.bindMethod object i).1 }) :
    superMethod id line method t =
      .ok (.functionRef (t.machine.store.bindMethod object i).2) (t.afterBinding object i) := by
  change EStateM.bind (lift (Evaluation.superMethod id line method)) _ t = _
  unfold EStateM.bind
  rw [Annotated.lift_ok t h]
  unfold afterBinding
  rw [← hi]
  rfl

theorem superMethod_apply_error {id : NodeId} {line : Nat} {method : Name} {halt : Halt}
    (h : Evaluation.superMethod id line method t.machine = .error halt t.machine) :
    superMethod id line method t = .error halt t := by
  change EStateM.bind (lift (Evaluation.superMethod id line method)) _ t = _
  unfold EStateM.bind
  rw [Annotated.lift_error t h]
  rfl

/-- A method is bound. -/
theorem Marks.bound (h : Marks setting p w m t) (hfits : Fits w.store site p.scope p.home)
    {f : FunctionId} {object : FunctionObject} {home : Home} {around : Context} {kind : ClassKind}
    (hf : w.Unbound setting f object home around kind) {i : InstanceId}
    (hi : w.ValueOk setting (.instanceRef i)) :
    (correspondence setting).States p (w.bind object home i) site
      { m with store := (m.store.bindMethod object i).1 } (t.afterBinding object i) := by
  obtain rfl := h.machine
  obtain ⟨store, homes⟩ := w
  obtain rfl : store = t.machine.store := h.stands.store
  have hgrows := Objects.grows_bind ⟨t.machine.store, homes⟩ object home i
  have hstates := Follows.states h.stands hfits hgrows (h.stands.sound.bind hi home)
  have hreceivers : Function.update t.receivers t.machine.store.functions.size (some i) =
      markIn (homes ++ #[{ home with receiver := some i }]) := by
    rw [markIn_push, h.receivers]
    exact congrArg (Function.update _ · _) h.stands.sound.homes.symm
  have hstep := h.step hgrows (stands_of_follows hstates.1) hreceivers
  refine ⟨⟨rfl, hstep.stands, hstep.receiver, hstep.receivers, hstep.reads, ?_, hstep.stores⟩,
    hstates.2⟩
  exact List.forall_mem_cons.mpr ⟨.intro hf.function, h.bindings⟩

theorem sim_bindTo (hs : (correspondence setting).States p w site m t) {f : FunctionId}
    (hf : w.IsMethod setting f) {i : InstanceId} (hi : w.ValueOk setting (.instanceRef i)) :
    (correspondence setting).Sim p w site (fun w f => w.ValueOk setting (.functionRef f))
      (Evaluation.bindTo f i m) (bindTo f i t) := by
  obtain ⟨object, home, around, kind, hmethod⟩ := hf
  obtain ⟨hmarks, hfits⟩ := hs
  obtain rfl := hmarks.machine
  have hstates := hmarks.bound hfits hmethod hi
  have hbound := hmarks.stands.sound.bound hmethod hi
  have hfunction := hmethod.function
  rw [hmarks.stands.store] at hfunction hbound
  rw [Evaluation.bindTo_apply _ hfunction, bindTo_apply hfunction]
  exact .ok (w.grows_bind object home i) hstates hbound

/-- `super` leads to a method of the instance whose code runs. -/
theorem sim_superMethod (hstrict : setting.strict)
    (hs : (correspondence setting).States p w site m t) {id : NodeId} {line : Nat} {method : Name}
    (hr : setting.Admits ⟨site, .reference ⟨.super, id, ⟨method.text, line⟩⟩⟩) :
    (correspondence setting).Sim p w site (Objects.ValueOk setting)
      (Evaluation.superMethod id line method m) (superMethod id line method t) := by
  obtain ⟨hmarks, hfits⟩ := hs
  obtain rfl := hmarks.machine
  rcases hmarks.stands.superMethod_eq hstrict hfits hr with
    ⟨f, object, home, around, kind, i, hmethod, hi, hvalid, hok⟩ | herror
  · have hstates := hmarks.bound hfits hmethod hvalid
    have hbound := hmarks.stands.sound.bound hmethod hvalid
    rw [hmarks.stands.store] at hbound
    rw [hok, superMethod_apply_ok (hmarks.receiver.trans hi) hok]
    exact .ok (w.grows_bind object home i) hstates hbound
  · rw [herror, superMethod_apply_error herror]
    exact .error trivial (.refl w) hmarks

/-- `this` is the instance that the running code was got from. -/
theorem sim_readThis (hstrict : setting.strict)
    (hs : (correspondence setting).States p w site m t) {r : Reference}
    (hr : setting.Admits ⟨site, .reference r⟩) (hkind : r.kind = .this) :
    (correspondence setting).Sim p w site (Objects.ValueOk setting) (readVariable r.id r.name m)
      (readThis (readVariable r.id r.name) t) := by
  obtain ⟨hmarks, hfits⟩ := hs
  obtain rfl := hmarks.machine
  obtain ⟨i, hi, hvalid, hread⟩ := hmarks.stands.readVariable_this hstrict hfits hr hkind
  have hmarked : readThis (readVariable r.id r.name) t =
      .ok (.instanceRef i) { t with reads := ⟨t.receiver, .ok (.instanceRef i)⟩ :: t.reads } := by
    unfold readThis
    rw [Annotated.lift_ok t hread]
    rfl
  have hfaithful : ThisRead.Faithful ⟨t.receiver, .ok (.instanceRef i)⟩ :=
    ⟨i, hmarks.receiver.trans hi, rfl⟩
  rw [hread, hmarked]
  refine .ok (.refl w) ⟨?_, hfits⟩ hvalid
  exact ⟨rfl, hmarks.stands, hmarks.receiver, hmarks.receivers,
    List.forall_mem_cons.mpr ⟨hfaithful, hmarks.reads⟩, hmarks.bindings, hmarks.stores⟩

/-- What is run in a scope of its own leaves the place and the mark as they are. -/
theorem sim_inScope (hs : (correspondence setting).States p w site m t) {inner : Context}
    {q : Place} (hinner : Fits w.store inner q.scope q.home) {x : Eval Completion}
    {y : EStateM Halt Marked Completion} (h : (correspondence setting).Bodies inner x y) :
    (correspondence setting).Sim p w site ((correspondence setting).CompletionOk inner)
      (Evaluation.inScope q.scope x m) (inScope q.scope q.home.receiver y t) := by
  obtain ⟨hmarks, hfits⟩ := hs
  obtain rfl := hmarks.machine
  have hmoved : Marks setting q w { t.machine with scope := q.scope }
      { t with machine := { t.machine with scope := q.scope }, receiver := q.home.receiver } :=
    ⟨rfl, hmarks.stands.moved q, rfl, hmarks.receivers, hmarks.reads, hmarks.bindings, hmarks.stores⟩
  obtain ⟨after, hsim⟩ := h q w _ _ ⟨hmoved, hinner⟩
  unfold inScope Annotated.inScope
  rw [inScope_apply, leaving_leaving]
  refine (lawful setting).leave hsim fun hgrows hended => ⟨hgrows, ?_, hfits.preserved hgrows.store⟩
  change Marks setting q _ _ _ at hended
  obtain rfl := hended.machine
  have hback := hended.stands.moved p
  rw [← hmarks.stands.scope] at hback
  exact ⟨rfl, hback, hmarks.receiver, hended.receivers, hended.reads, hended.bindings, hended.stores⟩

theorem Marks.newScope (h : Marks setting p w m t) {new : Scope}
    (hnew : ∀ {name v}, new.bindings.find? name = some v → w.ValueOk setting v) :
    Marks setting p { w with store := (w.store.newScope new).1 }
      { m with store := (m.store.newScope new).1 }
      { t with machine := { t.machine with store := (t.machine.store.newScope new).1 } } := by
  obtain rfl := h.machine
  exact h.step (w.grows_newScope new) (h.stands.newScope hnew) h.receivers

theorem sim_inBlock (hs : (correspondence setting).States p w ctx m t) {x : Eval Completion}
    {y : EStateM Halt Marked Completion}
    (h : (correspondence setting).Bodies (ctx.enter []) x y) :
    (correspondence setting).Sim p w ctx ((correspondence setting).CompletionOk ctx)
      (Operations.machine.inBlock x m) (operations.inBlock y t) := by
  obtain ⟨hmarks, hfits⟩ := hs
  obtain ⟨store, homes⟩ := w
  obtain rfl : store = m.store := hmarks.stands.store
  let new : Scope := { enclosing := some m.scope }
  have hgrows := Objects.grows_newScope ⟨m.store, homes⟩ new
  have hnew := @Marks.newScope _ _ _ _ _ hmarks.noted new nofun
  have hinner := @Fits.enter _ _ _ _ hfits new (congrArg some hmarks.stands.scope)
  have hstates := And.intro hnew (hfits.preserved hgrows.store)
  have hin := sim_inScope (q := ⟨m.store.scopes.size, p.home⟩) hstates hinner h
  rw [← hmarks.receiver] at hin
  obtain rfl := hmarks.machine
  exact (lawful setting).later hgrows hin

theorem sim_inCall (hs : (correspondence setting).States p w site m t) {f : FunctionId}
    {object : FunctionObject} {home : Home} {around : Context} {arguments : List Value}
    (hf : w.Closes setting f object home around)
    (harity : object.declaration.arity = arguments.length)
    (harguments : ∀ v ∈ arguments, w.ValueOk setting v) {x : Eval Completion}
    {y : EStateM Halt Marked Completion}
    (h : (correspondence setting).Bodies (around.function object.declaration.parameters) x y) :
    (correspondence setting).Sim p w site
      ((correspondence setting).CompletionOk (around.function object.declaration.parameters))
      (Operations.machine.inCall f object arguments x m)
      (operations.inCall f object arguments y t) := by
  obtain ⟨hmarks, hfits⟩ := hs
  obtain ⟨store, homes⟩ := w
  obtain rfl : store = m.store := hmarks.stands.store
  let bindings := bindArguments object.declaration.parameters arguments
  let new : Scope := { bindings, enclosing := some object.closure }
  have hgrows := Objects.grows_newScope ⟨m.store, homes⟩ new
  have hnew := @Marks.newScope _ _ _ _ _ hmarks.noted new
    fun hv => harguments _ (find?_bindArguments hv)
  have hstates := And.intro hnew (hfits.preserved hgrows.store)
  have hin := sim_inScope (q := ⟨m.store.scopes.size, home⟩) hstates (hf.enter harity) h
  have hmark : t.receivers f = home.receiver := by
    rw [hmarks.receivers]
    exact congrArg (Option.bind · _) hf.homeOf
  rw [← hmark] at hin
  obtain rfl := hmarks.machine
  exact (lawful setting).later hgrows hin

theorem Marks.atDepth (h : Marks setting p w m t) (depth : Nat) :
    Marks setting p w { m with callDepth := depth }
      { t with machine := { m with callDepth := depth } } := by
  obtain rfl := h.machine
  exact h.step (.refl w) (h.stands.atDepth depth) h.receivers

theorem atDepths (setting : Setting) : (correspondence setting).AtDepths where
  toLawful := lawful setting
  machine := Marks.machine
  states depth hs := ⟨hs.1.atDepth depth, hs.2⟩
  stopped depth hended := Marks.atDepth hended depth

theorem sim_defineFunction {f : FunctionDecl}
    (hs : (correspondence setting).States p w (ctx.initializer f.name.text) m t)
    (hname : f.name.Ordinary)
    (hf : Stmt.FunctionWithin setting.Admits ((ctx.declare f.name.text).inFunction .ordinary) f) :
    (correspondence setting).Sim p w (ctx.declare f.name.text) (fun _ _ => True)
      ((Operations.machine.newFunction f >>= fun id =>
        Operations.machine.define f.name.text (.functionRef id)) m)
      ((operations.newFunction f >>= fun id =>
        operations.define f.name.text (.functionRef id)) t) := by
  obtain ⟨hmarks, hfits⟩ := hs
  obtain rfl := hmarks.machine
  refine sim_of_observed (Observed.sim_defineFunction (hmarks.stands.states hfits) hname hf) rfl
    fun {w'} _ hstands hhomes => ?_
  obtain ⟨store, homes⟩ := w
  obtain rfl : store = t.machine.store := hmarks.stands.store
  obtain ⟨store', homes'⟩ := w'
  obtain rfl : store' = _ := hstands.store
  obtain rfl : homes' = homes ++ #[p.home] := hhomes
  -- The function is made before its name is bound; both are operations of their own.
  let object : FunctionObject := ⟨f, t.machine.scope, false⟩
  let before : Objects := ⟨t.machine.store, homes⟩
  have hmade := before.grows_addFunctions #[object] #[p.home]
  have hstates := Follows.states hmarks.stands hfits hmade
    (@Objects.Sound.addFunctions _ _ hmarks.stands.sound #[object] #[p.home] rfl)
  have hreceivers : Function.update t.receivers t.machine.store.functions.size t.receiver =
      markIn (homes ++ #[p.home]) := by
    rw [markIn_push, hmarks.receivers, hmarks.receiver]
    exact congrArg (Function.update _ · _) hmarks.stands.sound.homes.symm
  have hmarked := (hmarks.noted.step hmade (stands_of_follows hstates.1) hreceivers).noted
  have hdefined := (before.addFunctions #[object] #[p.home]).grows_define t.machine.scope
    (not_special hname) (.functionRef t.machine.store.functions.size)
  exact hmarked.step hdefined hstands hreceivers

/-- The operations of the machine and of the marked machine stay in step. -/
theorem simulates (hstrict : setting.strict) :
    Simulates (correspondence setting) Operations.machine operations where
  toLawful := lawful setting
  value_grows hw hv := hv.grows hw
  closures_grows := by
    rintro p w w' f o o' hw ⟨rfl, home, ctx, hf⟩
    exact ⟨rfl, home, ctx, hf.grows hw⟩
  halt_failure _ _ _ := trivial
  halt_outOfFuel _ := trivial
  value_plain w v hv := (Observed.simulates setting).value_plain w hv
  alike hs := by
    obtain rfl := hs.1.machine
    exact ⟨rfl, rfl, rfl⟩
  callDepth hs := by
    obtain rfl := hs.1.machine
    rfl
  function _ _ _ := trivial
  closures := by
    rintro p w site m t f a b hs hf ha hb
    obtain rfl := hs.1.machine
    exact (Observed.simulates setting).closures (hs.1.stands.states hs.2) hf ha hb
  instance_ _ _ _ := trivial
  field hs hv := (Observed.simulates setting).field (hs.1.stands.states hs.2) hv
  method hs hf := (Observed.simulates setting).method (hs.1.stands.states hs.2) hf
  asCall := (atDepths setting).asCall
  printLine text hs :=
    sim_lift (Operations.machine.printLine text) hs
      ((Observed.simulates setting).printLine text (hs.1.stands.states hs.2))
  readVariable := by
    rintro p w site m t r hs hr hkind
    have hproper := (hr.reference r rfl).proper
    unfold Reference.Proper at hproper
    rcases hkind with hkind | hkind
    · rw [hkind] at hproper
      have hsim := (Observed.simulates setting).readVariable r (hs.1.stands.states hs.2) hr (.inl hkind)
      have hlift := sim_lift (Operations.machine.readVariable r.id r.name) hs hsim
      unfold operations
      dsimp only
      rw [if_neg hproper.1]
      exact hlift
    · rw [hkind] at hproper
      unfold operations
      dsimp only
      rw [if_pos hproper]
      exact sim_readThis hstrict ⟨hs.1.noted, hs.2⟩ hr hkind
  writeVariable id name hs hr hv :=
    sim_lift (Operations.machine.writeVariable id name _) hs
      ((Observed.simulates setting).writeVariable id name (hs.1.stands.states hs.2) hr hv)
  superMethod id line method hs hr := sim_superMethod hstrict ⟨hs.1.noted, hs.2⟩ hr
  setField name hs hi hv :=
    sim_lift (Operations.machine.setField _ name _) hs
      ((Observed.simulates setting).setField name (hs.1.stands.states hs.2) hi hv)
  newInstance hs hc :=
    sim_lift (Operations.machine.newInstance _) hs
      ((Observed.simulates setting).newInstance (hs.1.stands.states hs.2) hc)
  newInstance_keeps := classArity_newInstance
  bindTo_keeps := arity_bindTo
  bindTo hs hf hi := sim_bindTo ⟨hs.1.noted, hs.2⟩ hf hi
  declare hs hadmits hname :=
    sim_lift (Operations.machine.declare _) hs
      ((Observed.simulates setting).declare (hs.1.stands.states hs.2) hadmits hname)
  define hs hname hv :=
    sim_lift (Operations.machine.define _ _) hs
      ((Observed.simulates setting).define (hs.1.stands.states hs.2) hname hv)
  defineFunction hs hname hf := sim_defineFunction hs hname hf
  superclass hs := ⟨hs.1, hs.2.superclass⟩
  newClass := by
    rintro p w m t superclass methods ctx name hs hname hsuper hmethods
    have hsim := (Observed.simulates setting).newClass (hs.1.stands.states hs.2) hname hsuper hmethods
    refine sim_unmarked (Operations.machine.newClass name superclass methods) hs hsim ?_
    refine Eq.trans (congrArg markIn ?_) (markIn_append_replicate w.homes methods.length superclass)
    change (stateOf (lift (Operations.machine.newClass name superclass methods) _) : Observed).homes = _
    unfold lift
    cases Operations.machine.newClass name superclass methods _ <;> rfl
  inBlock hs h := sim_inBlock hs h
  inCall := by
    rintro p w ctx m t f a b arguments hs ⟨rfl, home, around, hf⟩ - harity harguments
    exact ⟨around, hf.within, fun x y h => sim_inCall hs hf harity harguments h⟩
  receiver := by
    rintro p w ctx m t f a b hs ⟨rfl, hcloses⟩ hinitializer
    exact sim_lift (Operations.machine.receiver a) hs
      ((Observed.simulates setting).receiver (hs.1.stands.states hs.2) ⟨rfl, hcloses⟩ hinitializer)

end Marked
end Lox.Evaluation
