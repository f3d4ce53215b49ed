import Lox.Proofs.Dispatch.Objects
import Lox.Proofs.Evaluation.Lockstep
import Lox.Proofs.Evaluation.Steps

/-!
# Machine and observed machine in step

The operations of an observed machine do what those of the machine do. Together they keep the
objects sound, run code only in scopes of the shape around it, and never end with a fault. In a
strict setting every `super` that is taken down is dispatched as it must.
-/
namespace Lox.Evaluation
open Resolution

namespace Observed
open Annotated (lift)
variable {α : Type}

def objects (o : Observed) : Objects := ⟨o.machine.store, o.homes⟩

/-- Where code runs. -/
structure Place where
  scope : ScopeId
  home : Home

/-- The observed machine runs at the place as the machine does, and all is sound. -/
structure Follows (setting : Setting) (p : Place) (w : Objects) (m : Machine) (o : Observed) :
    Prop where
  machine : o.machine = m
  objects : o.objects = w
  scope : m.scope = p.scope
  home : o.home = p.home
  globals : m.globals = outermostScope
  sound : w.Sound setting
  distances : m.distances = setting.table
  calls : setting.strict → ∀ call ∈ o.calls, call.Dispatched

def correspondence (setting : Setting) : Correspondence Machine Observed where
  World := Objects
  Position := Place
  Grows _ := Objects.Grows
  States p w site m o := Follows setting p w m o ∧ Fits w.store site p.scope p.home
  Ended := Follows setting
  ValueOk := Objects.ValueOk setting
  MethodOk := Objects.IsMethod setting
  Closures w f a b := a = b ∧ ∃ home ctx, w.Closes setting f a home ctx
  HaltOk _ h := ∀ fault, h ≠ .fault fault
  Admits := setting.Admits

variable {setting : Setting} {p : Place} {w w' : Objects} {site : Site} {ctx : Context} {m : Machine}
  {o : Observed} {post : Objects → α → Prop}

theorem lawful (setting : Setting) : (correspondence setting).Lawful where
  grows_refl _ := .refl
  grows_trans := .trans
  ended hs := hs.1

theorem Follows.store (h : Follows setting p w m o) : w.store = m.store := by
  rw [← h.objects, ← h.machine]
  rfl

theorem Follows.homes (h : Follows setting p w m o) : w.homes = o.homes := by
  rw [← h.objects]
  rfl

theorem Follows.place (h : Follows setting p w m o) : p = ⟨o.machine.scope, o.home⟩ := by
  rw [h.machine, h.scope, h.home]

theorem homeOf_eq (h : Follows setting p w m o) {f : FunctionId} {home : Home}
    (hf : w.homes[f]? = some home) : o.homeOf f = home := by
  unfold homeOf
  rw [← h.homes, hf]
  rfl

/-- A result of a step of the machine with which all stays sound. -/
inductive Kept (setting : Setting) (w : Objects) (m : Machine) (post : Objects → α → Prop) :
    EStateM.Result Halt Machine α → Prop where
  | ok {a : α} {store : Store} : w.Grows ⟨store, w.homes⟩ → Objects.Sound setting ⟨store, w.homes⟩ →
    post ⟨store, w.homes⟩ a → Kept setting w m post (.ok a { m with store })
  | error {halt : Halt} : (∀ fault, halt ≠ .fault fault) → Kept setting w m post (.error halt m)

/-- A step that only looks at the machine. -/
theorem Kept.look (h : Follows setting p w m o) {a : α} (ha : post w a) :
    Kept setting w m post (.ok a m) := by
  have hok := @Kept.ok _ setting w m post a w.store (.refl w) h.sound ha
  rw [h.store] at hok
  exact hok

theorem Kept.failure (setting : Setting) (w : Objects) (m : Machine) (post : Objects → α → Prop)
    (e : RuntimeError) : Kept setting w m post (.error (.failure e) m) :=
  .error nofun

/-- A step of the machine goes alike in the observed machine. -/
theorem sim_lift {step : Eval α} (hs : (correspondence setting).States p w site m o)
    (h : Kept setting w m post (step m)) :
    (correspondence setting).Sim p w site post (step m) (lift step o) := by
  obtain ⟨hfollows, hfits⟩ := hs
  obtain rfl := hfollows.machine
  unfold lift
  revert h
  generalize step o.machine = result
  intro h
  cases h with
  | ok hgrows hsound hpost =>
    refine .ok hgrows ⟨?_, hfits.preserved hgrows.store⟩ hpost
    constructor
    · rfl
    · rw [hfollows.homes]
      rfl
    · exact hfollows.scope
    · exact hfollows.home
    · exact hfollows.globals
    · exact hsound
    · exact hfollows.distances
    · exact hfollows.calls
  | error hhalt => exact .error hhalt (.refl w) hfollows

/-- An admitted distance does not lead past the outermost scope. -/
theorem exists_ancestor (h : Follows setting p w m o) (hfits : Fits w.store site p.scope p.home)
    {r : Reference} (hr : setting.AdmitsReference site.toContext r) {d : Nat}
    (hd : m.distances.find? r.id = some d) : ∃ scope, m.store.ancestor? d m.scope = some scope := by
  rw [h.distances] at hd
  have hexpected : site.expected? r = some d := by
    rcases hr.distance with hsame | ⟨-, hnone⟩
    · exact hsame.symm.trans hd
    · cases hnone.symm.trans hd
  rw [← h.store, h.scope]
  exact Store.ancestor?_isSome hfits.chain (Nat.le_of_lt (Context.expected?_lt hexpected))

theorem kept_readVariable (h : Follows setting p w m o) (hfits : Fits w.store site p.scope p.home)
    {r : Reference} (hr : setting.AdmitsReference site.toContext r) :
    Kept setting w m (Objects.ValueOk setting) (readVariable r.id r.name m) := by
  rw [readVariable_apply]
  split
  · next d hd =>
    obtain ⟨scope, hscope⟩ := exists_ancestor h hfits hr hd
    rw [readAt_apply, hscope]
    dsimp only
    split
    · next v hv =>
      rw [← h.store] at hv
      exact .look h (h.sound.holds.values hv)
    · exact .failure setting w m _ _
  · rw [readGlobal_apply]
    split
    · next v hv =>
      rw [← h.store] at hv
      exact .look h (h.sound.holds.lookup hv)
    · exact .failure setting w m _ _

theorem kept_define (h : Follows setting p w m o) (scope : ScopeId) {name : Name}
    (hname : name.Ordinary) {v : Value} (hv : w.ValueOk setting v) :
    Kept setting w m (fun _ _ => True)
      (.ok () { m with store := m.store.define scope name.text v }) := by
  rw [← h.store]
  have hspecial := not_special hname
  have hgrows := w.grows_define scope hspecial v
  exact .ok hgrows (h.sound.define scope hspecial (hv.grows hgrows)) trivial

theorem kept_writeFrom (h : Follows setting p w m o) (scope : ScopeId) {name : Name}
    (hname : name.Ordinary) {v : Value} (hv : w.ValueOk setting v) :
    Kept setting w m (fun _ _ => True) (writeFrom scope name v m) := by
  rw [writeFrom_apply]
  split
  · exact kept_define h _ hname hv
  · exact .failure setting w m _ _

theorem kept_writeVariable (h : Follows setting p w m o) (hfits : Fits w.store site p.scope p.home)
    {id : NodeId} {name : Name} (hr : setting.AdmitsReference site.toContext ⟨.assign, id, name⟩) {v : Value}
    (hv : w.ValueOk setting v) :
    Kept setting w m (fun _ _ => True) (writeVariable id name v m) := by
  rw [writeVariable_apply]
  split
  · next d hd =>
    obtain ⟨scope, hscope⟩ := exists_ancestor h hfits hr hd
    rw [writeAt_apply, hscope]
    exact kept_define h scope hr.proper hv
  · exact kept_writeFrom h _ hr.proper hv

theorem Follows.moved (h : Follows setting p w m o) (q : Place) :
    Follows setting q w { m with scope := q.scope }
      { o with machine := { o.machine with scope := q.scope }, home := q.home } := by
  obtain rfl := h.machine
  exact ⟨rfl, h.objects, rfl, rfl, h.globals, h.sound, h.distances, h.calls⟩

theorem Follows.atDepth (h : Follows setting p w m o) (depth : Nat) :
    Follows setting p w { m with callDepth := depth }
      { o with machine := { m with callDepth := depth } } := by
  obtain rfl := h.machine
  exact ⟨rfl, h.objects, h.scope, h.home, h.globals, h.sound, h.distances, h.calls⟩

theorem Follows.newScope (h : Follows setting p w m o) {new : Scope}
    (hnew : ∀ {name v}, new.bindings.find? name = some v → w.ValueOk setting v) :
    Follows setting p { w with store := (w.store.newScope new).1 }
      { m with store := (m.store.newScope new).1 }
      { o with machine := { o.machine with store := (o.machine.store.newScope new).1 } } := by
  obtain rfl := h.machine
  obtain rfl := h.objects
  exact ⟨rfl, rfl, h.scope, h.home, h.globals, h.sound.newScope hnew, h.distances, h.calls⟩

/-- What is run in a scope of its own leaves the place as it is. -/
theorem sim_inScope (hs : (correspondence setting).States p w site m o) {inner : Context} {q : Place}
    (hinner : Fits w.store inner q.scope q.home) {x : Eval Completion}
    {y : EStateM Halt Observed Completion} (h : (correspondence setting).Bodies inner x y) :
    (correspondence setting).Sim p w site ((correspondence setting).CompletionOk inner)
      (Evaluation.inScope q.scope x m) (inScope q.scope q.home y o) := by
  obtain ⟨hfollows, hfits⟩ := hs
  obtain ⟨after, hsim⟩ := h q w _ _ ⟨hfollows.moved q, hinner⟩
  obtain rfl := hfollows.machine
  unfold inScope Annotated.inScope
  rw [inScope_apply, leaving_leaving]
  refine (lawful setting).leave hsim fun hgrows hended => ⟨hgrows, ?_⟩
  have hmoved := Follows.moved hended p
  rw [← hfollows.scope, ← hfollows.home] at hmoved
  exact ⟨hmoved, hfits.preserved (Objects.Grows.store hgrows)⟩

theorem sim_inBlock (hs : (correspondence setting).States p w ctx m o) {x : Eval Completion}
    {y : EStateM Halt Observed Completion}
    (h : (correspondence setting).Bodies (ctx.enter []) x y) :
    (correspondence setting).Sim p w ctx ((correspondence setting).CompletionOk ctx)
      (Operations.machine.inBlock x m) (operations.inBlock y o) := by
  obtain ⟨hfollows, hfits⟩ := hs
  let new : Scope := { enclosing := some m.scope }
  have hgrows := w.grows_newScope new
  have hnew := @Follows.newScope _ _ _ _ _ hfollows new nofun
  have hinner := @Fits.enter _ _ _ _ hfits new (congrArg some hfollows.scope)
  have hstates := And.intro hnew (hfits.preserved hgrows.store)
  have hin := sim_inScope (q := ⟨w.store.scopes.size, p.home⟩) hstates hinner h
  rw [← hfollows.home] at hin
  obtain rfl := hfollows.machine
  obtain rfl := hfollows.objects
  exact (lawful setting).later hgrows hin

theorem sim_inCall (hs : (correspondence setting).States p w site m o) {f : FunctionId}
    {object : FunctionObject} {home : Home} {around : Context} {arguments : List Value}
    (hf : w.Closes setting f object home around)
    (harity : object.declaration.arity = arguments.length)
    (harguments : ∀ v ∈ arguments, w.ValueOk setting v)
    {x : Eval Completion} {y : EStateM Halt Observed Completion}
    (h : (correspondence setting).Bodies (around.function object.declaration.parameters) x y) :
    (correspondence setting).Sim p w site
      ((correspondence setting).CompletionOk (around.function object.declaration.parameters))
      (Operations.machine.inCall f object arguments x m)
      (operations.inCall f object arguments y o) := by
  obtain ⟨hfollows, hfits⟩ := hs
  let bindings := bindArguments object.declaration.parameters arguments
  let new : Scope := { bindings, enclosing := some object.closure }
  have hgrows := w.grows_newScope new
  have hnew := @Follows.newScope _ _ _ _ _ hfollows new
    fun hv => harguments _ (find?_bindArguments hv)
  have hstates := And.intro hnew (hfits.preserved hgrows.store)
  have hin := sim_inScope (q := ⟨w.store.scopes.size, home⟩) hstates (hf.enter harity) h
  rw [← homeOf_eq hfollows hf.homeOf] at hin
  obtain rfl := hfollows.machine
  obtain rfl := hfollows.objects
  exact (lawful setting).later hgrows hin

theorem atDepths (setting : Setting) : (correspondence setting).AtDepths where
  toLawful := lawful setting
  machine := Follows.machine
  states depth hs := ⟨hs.1.atDepth depth, hs.2⟩
  stopped depth hended := Follows.atDepth hended depth

theorem Follows.states (h : Follows setting p w m o) (hfits : Fits w.store site p.scope p.home)
    {store : Store} {homes : Array Home} (hgrows : w.Grows ⟨store, w.homes ++ homes⟩)
    (hsound : Objects.Sound setting ⟨store, w.homes ++ homes⟩) :
    (correspondence setting).States p ⟨store, w.homes ++ homes⟩ site { m with store }
      { o with machine := { o.machine with store }, homes := o.homes ++ homes } := by
  obtain rfl := h.machine
  obtain rfl := h.objects
  exact ⟨⟨rfl, rfl, h.scope, h.home, h.globals, hsound, h.distances, h.calls⟩,
    hfits.preserved hgrows.store⟩

/-- A function is made and bound to its name in one step, since it may call itself. -/
theorem sim_defineFunction {f : FunctionDecl}
    (hs : (correspondence setting).States p w (ctx.initializer f.name.text) m o)
    (hname : f.name.Ordinary) {kind : FunctionKind}
    (hf : Stmt.FunctionWithin setting.Admits ((ctx.declare f.name.text).inFunction kind) f) :
    (correspondence setting).Sim p w (ctx.declare f.name.text) (fun _ _ => True)
      ((Operations.machine.newFunction f >>= fun id =>
        Operations.machine.define f.name.text (.functionRef id)) m)
      ((operations.newFunction f >>= fun id =>
        operations.define f.name.text (.functionRef id)) o) := by
  obtain ⟨hfollows, hfits⟩ := hs
  obtain rfl := hfollows.place
  obtain rfl := hfollows.machine
  obtain rfl := hfollows.objects
  have hspecial := not_special hname
  let object : FunctionObject := ⟨f, o.machine.scope, false⟩
  let made := o.objects.addFunctions #[object] #[o.home]
  let v : Value := .functionRef o.machine.store.functions.size
  have hmade := o.objects.grows_addFunctions #[object] #[o.home]
  have hdefined := made.grows_define o.machine.scope hspecial v
  have hgrows := hmade.trans hdefined
  have hbound := (hfits.preserved hgrows.store).declared
    (made.store.has_define (hfits.preserved hmade.store).known f.name.text v)
  have hvalue : Objects.ValueOk setting _ v :=
    Objects.closes_addFunctions hfollows.sound hdefined rfl hf (hbound.inFunction kind) nofun
  have hsound := (@Objects.Sound.addFunctions _ _ hfollows.sound #[object] #[o.home] rfl).define
    o.machine.scope hspecial hvalue
  exact .ok hgrows ⟨(hfollows.states hfits hgrows hsound).1, hbound⟩ trivial

theorem sim_newClass {name : Name}
    (hs : (correspondence setting).States p w (ctx.superclass name.text) m o)
    (hname : name.Ordinary) {superclass : Option ClassId}
    (hsuperclass : ∀ c ∈ superclass, w.ValueOk setting (.classRef c)) {methods : List FunctionDecl}
    (hmethods : Stmt.MethodsWithin setting.Admits
      ((ctx.declare name.text).method (kindOf superclass)) methods) :
    (correspondence setting).Sim p w (ctx.declare name.text) (fun _ _ => True)
      (Operations.machine.newClass name superclass methods m)
      (operations.newClass name superclass methods o) := by
  obtain ⟨hfollows, hfits⟩ := hs
  obtain rfl := hfollows.place
  obtain rfl := hfollows.machine
  obtain rfl := hfollows.objects
  obtain ⟨hgrows, hsound, hvalue, hbound⟩ :=
    hfollows.sound.withClass hfits hname hsuperclass hmethods
  have hstates : (correspondence setting).States _ _ (ctx.declare name.text) _ _ :=
    ⟨(hfollows.states hfits hgrows hsound).1, hbound⟩
  let made := withClass o.machine.store o.machine.scope name superclass methods
  let homes : Array Home := Array.replicate methods.length { superclass }
  have hsim := sim_lift hstates (kept_writeFrom hstates.1 o.machine.scope hname hvalue)
  have hlift : operations.newClass name superclass methods o =
      lift (writeFrom o.machine.scope name (.classRef made.2))
        { o with machine := { o.machine with store := made.1 }, homes := o.homes ++ homes } := by
    change lift (Operations.machine.newClass name superclass methods)
      { o with homes := o.homes ++ homes } = _
    unfold lift
    dsimp only [Annotated.machine, Annotated.withMachine]
    rw [newClass_apply]
  rw [newClass_apply, hlift]
  exact (lawful setting).later hgrows hsim

/-- A method is bound in both, for the class of the method. -/
theorem bindTo_apply_of_unbound (h : Follows setting p w m o) {f : FunctionId}
    {object : FunctionObject} {home : Home} {around : Context} {kind : ClassKind}
    (hf : w.Unbound setting f object home around kind) (i : InstanceId) :
    bindTo f i o =
      .ok (o.machine.store.bindMethod object i).2
        { o with
          machine := { o.machine with store := (o.machine.store.bindMethod object i).1 }
          homes := o.homes ++ #[{ home with receiver := some i }] } := by
  change lift (Evaluation.bindTo f i)
    { o with homes := o.homes ++ #[{ o.homeOf f with receiver := some i }] } = _
  have hfunction := hf.function
  rw [h.store, ← h.machine] at hfunction
  rw [homeOf_eq h hf.homeOf]
  exact Annotated.lift_ok _ (bindTo_apply _ hfunction i)

theorem sim_bindTo (hs : (correspondence setting).States p w site m o) {f : FunctionId}
    (hf : w.IsMethod setting f) {i : InstanceId} (hi : w.ValueOk setting (.instanceRef i)) :
    (correspondence setting).Sim p w site (fun w f => w.ValueOk setting (.functionRef f))
      (Evaluation.bindTo f i m) (bindTo f i o) := by
  obtain ⟨object, home, around, kind, hmethod⟩ := hf
  obtain ⟨hfollows, hfits⟩ := hs
  obtain rfl := hfollows.machine
  obtain rfl := hfollows.objects
  have hgrows := o.objects.grows_bind object home i
  have hstates := hfollows.states hfits hgrows (hfollows.sound.bind hi home)
  rw [bindTo_apply _ hmethod.function, bindTo_apply_of_unbound hfollows hmethod i]
  exact .ok hgrows hstates (hfollows.sound.bound hmethod hi)

theorem Follows.noted (h : Follows setting p w m o) {call : SuperCall}
    (hcall : setting.strict → call.Dispatched) :
    Follows setting p w m { o with calls := o.calls.push call } := by
  refine ⟨h.machine, h.objects, h.scope, h.home, h.globals, h.sound, h.distances,
    fun hstrict other hmem => ?_⟩
  rcases Array.mem_push.mp hmem with hold | rfl
  · exact h.calls hstrict other hold
  · exact hcall hstrict

theorem map_apply_ok {σ β : Type} {x : EStateM Halt σ α} {f : α → β} {s s' : σ} {a : α}
    (h : x s = .ok a s') : (f <$> x) s = .ok (f a) s' := by
  change EStateM.map f x s = _
  unfold EStateM.map
  rw [h]

/-- `super` without a distance is an error. -/
theorem superMethod_unresolved {id : NodeId} (hid : m.distances.find? id = none) (line : Nat)
    (method : Name) :
    Evaluation.superMethod id line method m = .error (.failure ⟨.superOutsideClass, line⟩) m := by
  unfold Evaluation.superMethod
  rw [get_bind, hid]
  rfl

theorem lookUpSuper_unresolved {id : NodeId} (hid : o.machine.distances.find? id = none)
    (line : Nat) (method : Name) :
    lookUpSuper id line method o = .error (.failure ⟨.superOutsideClass, line⟩) o := by
  unfold lookUpSuper
  rw [get_bind, hid]
  rfl

theorem lift_bind_ok {α β : Type} {step : Eval α} {a : α} {k : α → EStateM Halt Observed β}
    (h : step o.machine = .ok a o.machine) : (lift step >>= k) o = k a o := by
  change EStateM.bind (lift step) k o = _
  unfold EStateM.bind
  rw [Annotated.lift_ok o h]
  rfl

theorem lookUpSuper_apply {id : NodeId} {i : Nat} {inner outer : ScopeId} {c : ClassId}
    {receiver : InstanceId} (hdistance : o.machine.distances.find? id = some (i + 1))
    (hinner : o.machine.store.ancestor? i o.machine.scope = some inner)
    (hthis : o.machine.store.findLocal? inner "this" = some (.instanceRef receiver))
    (houter : o.machine.store.ancestor? (i + 1) o.machine.scope = some outer)
    (hsuper : o.machine.store.findLocal? outer "super" = some (.classRef c)) (line : Nat)
    (method : Name) :
    lookUpSuper id line method o =
      match o.machine.store.findMethod? c method.text with
      | some f => (Value.functionRef <$> bindTo f receiver) o
      | none => .error (.failure ⟨.undefinedProperty method.text, method.line⟩) o := by
  unfold lookUpSuper
  rw [get_bind, hdistance]
  dsimp only
  rw [lift_bind_ok (superclassAt_apply o.machine houter hsuper),
    lift_bind_ok (receiverInside_apply o.machine hinner hthis), get_bind]
  cases o.machine.store.findMethod? c method.text with
  | none => rfl
  | some f => rfl

/-- Where `super` has a distance, the class around it has a superclass. -/
theorem derived_of_distance {id : NodeId} {line d : Nat} {method : Name}
    (hr : setting.AdmitsReference site.toContext ⟨.super, id, ⟨method.text, line⟩⟩)
    (hd : setting.table.find? id = some d) :
    site.classKind = some .derived ∧ site.distance? "super" = some d := by
  have hexpected : site.expected? ⟨.super, id, ⟨method.text, line⟩⟩ = some d := by
    rcases hr.distance with hsame | ⟨-, hnone⟩
    · exact hsame.symm.trans hd
    · cases hnone.symm.trans hd
  unfold Context.expected? at hexpected
  dsimp only at hexpected
  split at hexpected
  · next hkind => exact ⟨hkind, hexpected⟩
  · cases hexpected

/-- In a strict setting every `super` has a distance. -/
theorem not_strict_of_unresolved {id : NodeId} {line : Nat} {method : Name}
    (hr : setting.Admits ⟨site, .reference ⟨.super, id, ⟨method.text, line⟩⟩⟩)
    (hfits : Fits w.store site p.scope p.home) (hid : setting.table.find? id = none) :
    ¬ setting.strict := by
  intro hstrict
  have hkind : site.classKind = some .derived := (hr.clean hstrict).inDerived rfl
  obtain ⟨i, hdistance, -⟩ := hfits.derived hkind
  rcases (hr.reference _ rfl).distance with hsame | ⟨hnot, -⟩
  · rw [hid] at hsame
    unfold Context.expected? at hsame
    rw [if_pos hkind, hdistance] at hsame
    cases hsame
  · exact hnot hstrict

theorem sim_superMethod (hs : (correspondence setting).States p w site m o) {id : NodeId} {line : Nat}
    {method : Name} (hr : setting.Admits ⟨site, .reference ⟨.super, id, ⟨method.text, line⟩⟩⟩) :
    (correspondence setting).Sim p w site (Objects.ValueOk setting)
      (Evaluation.superMethod id line method m) (superMethod id line method o) := by
  obtain ⟨hfollows, hfits⟩ := hs
  obtain rfl := hfollows.machine
  have hdistances := hfollows.distances
  unfold superMethod
  cases hd : o.machine.distances.find? id with
  | none =>
    rw [superMethod_unresolved hd, lookUpSuper_unresolved hd]
    rw [hdistances] at hd
    refine .error nofun (.refl w) (hfollows.noted fun hstrict => ?_)
    exact absurd hstrict (not_strict_of_unresolved hr hfits hd)
  | some d =>
    have hfound := hd
    rw [hdistances] at hfound
    obtain ⟨hkind, hdistance⟩ := derived_of_distance (hr.reference _ rfl) hfound
    obtain ⟨i, hsuper, hat⟩ := hfits.derived hkind
    obtain rfl : d = i + 1 := Option.some.inj (hdistance.symm.trans hsuper)
    obtain ⟨⟨inner, receiver, hinner, hthis, hreceiver⟩, ⟨outer, c, houter, hsuper, hc⟩⟩ := hat
    have hvalid : w.ValueOk setting (.instanceRef receiver) := hfollows.sound.holds.values hthis
    have hhome : o.home = ⟨some c, some receiver⟩ := by
      rw [hfollows.home, ← hc, ← hreceiver]
    rw [← hfollows.scope] at hinner houter
    obtain rfl := hfollows.objects
    rw [superMethod_apply _ hd hinner hthis houter hsuper,
      lookUpSuper_apply hd hinner hthis houter hsuper]
    cases hf : o.machine.store.findMethod? c method.text with
    | none =>
      refine .error nofun (.refl _) (hfollows.noted fun _ => ?_)
      rw [hhome]
      refine .missing fun f hnearest => ?_
      cases hf.symm.trans (hfollows.sound.findMethod?_of_nearest hnearest)
    | some f =>
      obtain ⟨object, home, around, kind, hmethod⟩ := hfollows.sound.holds.findMethod hf
      have hgrows := o.objects.grows_bind object home receiver
      have hstates := hfollows.states hfits hgrows (hfollows.sound.bind hvalid home)
      have hbound := hfollows.sound.bound hmethod hvalid
      have hmachine := bindTo_apply o.machine hmethod.function receiver
      have hobserved := bindTo_apply_of_unbound hfollows hmethod receiver
      dsimp only
      rw [map_apply_ok hmachine, map_apply_ok hobserved]
      refine .ok hgrows ⟨hstates.1.noted fun _ => ?_, hstates.2⟩ hbound
      rw [hhome]
      exact .found (Objects.nearest_of_findMethod? hf) hmethod.function

theorem kept_receiver (h : Follows setting p w m o) (object : FunctionObject) :
    Kept setting w m (Objects.ValueOk setting) (Operations.machine.receiver object m) := by
  change Kept setting w m _ (.ok ((m.store.findLocal? object.closure "this").getD .nil) m)
  apply Kept.look h
  cases hthis : m.store.findLocal? object.closure "this" with
  | none => trivial
  | some v =>
    rw [← h.store] at hthis
    exact h.sound.holds.values hthis

theorem kept_setField (h : Follows setting p w m o) (i : InstanceId) (name : String) {v : Value}
    (hv : w.ValueOk setting v) :
    Kept setting w m (fun _ _ => True) (.ok () { m with store := m.store.setField i name v }) := by
  rw [← h.store]
  exact .ok (w.grows_setField i name v) (h.sound.setField i name hv) trivial

theorem kept_newInstance (h : Follows setting p w m o) (c : ClassId) :
    Kept setting w m (fun w i => w.ValueOk setting (.instanceRef i))
      (.ok m.store.instances.size { m with store := (m.store.newInstance c).1 }) := by
  rw [← h.store]
  refine .ok (w.grows_newInstance c) (h.sound.newInstance c) ?_
  exact Nat.lt_of_lt_of_eq (Nat.lt_succ_self _) (Array.size_push ..).symm

theorem sim_printLine (hs : (correspondence setting).States p w site m o) (text : String) :
    (correspondence setting).Sim p w site (fun _ _ => True) (printLine text m)
      (lift (printLine text) o) := by
  obtain ⟨hfollows, hfits⟩ := hs
  obtain rfl := hfollows.machine
  refine .ok (.refl w) ⟨?_, hfits⟩ trivial
  exact ⟨rfl, hfollows.objects, hfollows.scope, hfollows.home, hfollows.globals, hfollows.sound,
    hfollows.distances, hfollows.calls⟩

theorem sim_declare (hs : (correspondence setting).States p w ctx m o) {name : Name}
    (hname : name.Ordinary) :
    (correspondence setting).Sim p w (ctx.initializer name.text) (fun _ _ => True)
      (Operations.machine.declare name.text m) (operations.declare name.text o) := by
  obtain ⟨hfollows, hfits⟩ := hs
  obtain rfl := hfollows.machine
  exact .ok (.refl w) ⟨hfollows, hfits.initializer hname⟩ trivial

theorem sim_define {name : Name}
    (hs : (correspondence setting).States p w (ctx.initializer name.text) m o)
    (hname : name.Ordinary) {v : Value} (hv : w.ValueOk setting v) :
    (correspondence setting).Sim p w (ctx.declare name.text) (fun _ _ => True)
      (Operations.machine.define name.text v m) (operations.define name.text v o) := by
  obtain ⟨hfollows, hfits⟩ := hs
  obtain rfl := hfollows.place
  obtain rfl := hfollows.machine
  obtain rfl := hfollows.objects
  have hspecial := not_special hname
  have hgrows := o.objects.grows_define o.machine.scope hspecial v
  have hsound := hfollows.sound.define o.machine.scope hspecial (hv.grows hgrows)
  have hbound := (hfits.preserved hgrows.store).declared
    (o.machine.store.has_define hfits.known name.text v)
  exact .ok hgrows ⟨⟨rfl, rfl, rfl, rfl, hfollows.globals, hsound, hfollows.distances,
    hfollows.calls⟩, hbound⟩ trivial

/-- The operations of the machine and of the observed machine stay in step. -/
theorem simulates (setting : Setting) :
    Simulates (correspondence setting) Operations.machine operations where
  toLawful := lawful setting
  value_grows hw hv := hv.grows hw
  closures_grows := by
    rintro p w w' f o o' hw ⟨rfl, home, ctx, hf⟩
    exact ⟨rfl, home, ctx, hf.grows hw⟩
  halt_failure _ _ _ := nofun
  halt_outOfFuel _ := nofun
  value_plain w v hv := by
    cases v with
    | functionRef _ | classRef _ | instanceRef _ => exact hv.elim
    | nil | bool _ | number _ | string _ => trivial
  alike := by
    rintro p w ctx m o ⟨hfollows, -⟩
    obtain rfl := hfollows.machine
    exact ⟨rfl, rfl, rfl⟩
  callDepth := by
    rintro p w ctx m o ⟨hfollows, -⟩
    obtain rfl := hfollows.machine
    rfl
  function := by
    rintro p w ctx m o f ⟨hfollows, -⟩ ⟨object, home, around, hf⟩ hnone
    have hfunction := hf.function
    rw [hfollows.store] at hfunction
    cases hnone.symm.trans hfunction
  closures := by
    rintro p w ctx m o f a b ⟨hfollows, -⟩ ⟨object, home, around, hf⟩ ha hb
    have hfunction := hf.function
    rw [hfollows.store] at hfunction
    obtain rfl := Option.some.inj (hfunction.symm.trans ha)
    obtain rfl := hfollows.machine
    exact ⟨Option.some.inj (ha.symm.trans hb), home, around, hf⟩
  instance_ := by
    rintro p w ctx m o i ⟨hfollows, -⟩ hi hnone
    have hlt : i < m.store.instances.size := hfollows.store ▸ hi
    cases hnone.symm.trans (Array.getElem?_eq_getElem hlt)
  field := by
    rintro p w ctx m o i name v ⟨hfollows, -⟩ hv
    have hfield : m.store.field? i name = some v := hv
    rw [← hfollows.store] at hfield
    exact hfollows.sound.holds.fields hfield
  method := by
    rintro p w ctx m o c name f ⟨hfollows, -⟩ hf
    have hmethod : m.store.findMethod? c name = some f := hf
    rw [← hfollows.store] at hmethod
    exact hfollows.sound.holds.findMethod hmethod
  asCall := (atDepths setting).asCall
  printLine text hs := sim_printLine hs text
  readVariable ref hs hr _ := sim_lift hs (kept_readVariable hs.1 hs.2 (hr.reference _ rfl))
  writeVariable id name hs hr hv :=
    sim_lift hs (kept_writeVariable hs.1 hs.2 (hr.reference _ rfl) hv)
  superMethod id line method hs hr := sim_superMethod hs hr
  setField name hs _ hv := sim_lift hs (kept_setField hs.1 _ name hv)
  newInstance hs _ := sim_lift hs (kept_newInstance hs.1 _)
  newInstance_keeps := classArity_newInstance
  bindTo_keeps := arity_bindTo
  bindTo hs hf hi := sim_bindTo hs hf hi
  declare hs _ hname := sim_declare hs hname
  define hs hname hv := sim_define hs hname hv
  defineFunction hs hname hf := sim_defineFunction hs hname hf
  superclass hs := ⟨hs.1, hs.2.superclass⟩
  newClass hs hname hsuper hmethods := sim_newClass hs hname hsuper hmethods
  inBlock hs h := sim_inBlock hs h
  inCall := by
    rintro p w ctx m o f a b arguments hs ⟨rfl, home, around, hf⟩ - harity harguments
    exact ⟨around, hf.within, fun x y h => sim_inCall hs hf harity harguments h⟩
  receiver := by
    rintro p w ctx m o f a b hs ⟨rfl, home, around, hf⟩ -
    exact sim_lift hs (kept_receiver hs.1 a)

end Observed
end Lox.Evaluation
