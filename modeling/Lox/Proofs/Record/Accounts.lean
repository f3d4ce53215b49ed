import Lox.Proofs.Evaluation.Steps
import Lox.Proofs.Record.Outcomes

/-!
# What is taken down of bodies and calls

A recording machine comes to the results of the machine. An evaluation adds to what was taken down
before, and what it adds is its account. Expressions are quiet: they add no `return` to what the
running body does by itself, and no body to those of the call in progress. Statements end with the
first `return` that they execute, or without any. So each call comes out as calls do.
-/
namespace Lox.Evaluation
open Operations

/-- What an evaluation has added to what was taken down. -/
structure Account (α : Type) where
  before : Store
  events : List Event
  bodies : List Body
  result : Except Halt α
  after : Store

namespace Account
variable {α : Type}

/-- Nothing is returned, and no body is run for the call in progress. -/
def Quiet (account : Account α) : Prop := Silent account.events ∧ account.bodies = []

/-- At most the last thing that is done is a `return`. -/
def Ends (account : Account Completion) : Prop :=
  Evaluation.Ends account.events account.result ∧ account.bodies = []

/-- The body is run of a function. -/
def RunsBody (object : FunctionObject) (arguments : List Value) (account : Account Completion) :
    Prop :=
  account.events = [] ∧ ∃ body, account.bodies = [body] ∧
    body.Runs object arguments account.before ∧ account.after = body.after ∧
      account.result = body.ending

/-- A function is called, if it is there. -/
def CallsFunction (f : FunctionId) (arguments : List Value) (account : Account Value) : Prop :=
  account.events = [] ∧ ∀ object, account.before.functions[f]? = some object →
    ∃ body, account.bodies = [body] ∧ body.Runs object arguments account.before ∧
      account.after = body.after ∧ account.result = body.result

/-- An initializer is bound to an instance and called; the result is the instance. -/
def Initializes (object : FunctionObject) (i : InstanceId) (arguments : List Value)
    (account : Account Value) : Prop :=
  account.events = [] ∧ ∃ body, account.bodies = [body] ∧
    body.Runs { object with closure := account.before.scopes.size } arguments
      (account.before.bindMethod object i).1 ∧ account.after = body.after ∧
        account.result = body.ending.map fun _ => .instanceRef i

def Calls (callee : Value) (line : Nat) (arguments : List Value) (account : Account Value) : Prop :=
  account.events = [] ∧
    CallOutcome callee line arguments account.before account.bodies account.result account.after

end Account

namespace Recorded
variable {α β : Type} {post post' : Account α → Prop} {t t' t₀ : Recorded}

/-- What an evaluation has added that ends with the result, and that its calls are proper. -/
structure Adds (post : Account α → Prop) (t : Recorded) (result : Except Halt α) (t' : Recorded) :
    Prop where
  account : ∃ events bodies, t'.events = events ++ t.events ∧ t'.bodies = bodies ++ t.bodies ∧
    post ⟨t.machine.store, events, bodies, result, t'.machine.store⟩
  calls : ∀ call ∈ t'.calls, call ∈ t.calls ∨ call.Proper

/-- The endings are the same, and what was added has the property. -/
inductive Told (post : Account α → Prop) (t : Recorded) :
    EStateM.Result Halt Recorded α → EStateM.Result Halt Machine α → Prop
  | ok {a : α} {t' : Recorded} : Adds post t (.ok a) t' → Told post t (.ok a t') (.ok a t'.machine)
  | error {halt : Halt} {t' : Recorded} : Adds post t (.error halt) t' →
    Told post t (.error halt t') (.error halt t'.machine)

def Tells (post : Account α → Prop) (x : EStateM Halt Recorded α) (y : Eval α) : Prop :=
  ∀ t, Told post t (x t) (y t.machine)

theorem Silent.append {events earlier : List Event} (h : Silent events) (h' : Silent earlier) :
    Silent (events ++ earlier) :=
  List.forall_mem_append.mpr ⟨h, h'⟩

/-- What was done before without a `return` does not matter. -/
theorem Ends.append {events earlier : List Event} {result : Except Halt Completion}
    (h : Ends events result) (h' : Silent earlier) : Ends (events ++ earlier) result := by
  match result, h with
  | .ok (.returned value), ⟨later, heq, hlater⟩ =>
    rw [heq]
    exact ⟨later ++ earlier, rfl, Silent.append hlater h'⟩
  | .ok .normal, h | .error _, h => exact Silent.append h h'

/-- Nothing was added but what the machine has done. -/
theorem Adds.none {result : Except Halt α} (hevents : t'.events = t.events)
    (hbodies : t'.bodies = t.bodies) (hcalls : t'.calls = t.calls)
    (hpost : post ⟨t.machine.store, [], [], result, t'.machine.store⟩) : Adds post t result t' := by
  refine ⟨⟨[], [], hevents, hbodies, hpost⟩, ?_⟩
  rw [hcalls]
  exact fun _ => .inl

/-- What two evaluations have added that follow one another. -/
theorem Adds.trans {post' post'' : Account β → Prop} {t'' : Recorded} {a : α}
    {result : Except Halt β} (h : Adds post t (.ok a) t') (h' : Adds post' t' result t'')
    (hpost : ∀ {events events' bodies bodies'},
      post ⟨t.machine.store, events, bodies, .ok a, t'.machine.store⟩ →
      post' ⟨t'.machine.store, events', bodies', result, t''.machine.store⟩ →
        post'' ⟨t.machine.store, events' ++ events, bodies' ++ bodies, result, t''.machine.store⟩) :
    Adds post'' t result t'' := by
  obtain ⟨events, bodies, hevents, hbodies, hfirst⟩ := h.account
  obtain ⟨events', bodies', hevents', hbodies', hsecond⟩ := h'.account
  refine ⟨⟨events' ++ events, bodies' ++ bodies, ?_, ?_, hpost hfirst hsecond⟩, fun call hmem => ?_⟩
  · rw [hevents', hevents, List.append_assoc]
  · rw [hbodies', hbodies, List.append_assoc]
  · exact (h'.calls call hmem).elim (h.calls call) .inr

/-- What was added since a step of the machine was added since before it. -/
theorem Adds.since {result : Except Halt α} {post' : Account β → Prop} {result' : Except Halt β}
    (h : Adds post t₀ result t') (hevents : t₀.events = t.events) (hbodies : t₀.bodies = t.bodies)
    (hcalls : t₀.calls = t.calls)
    (hpost : ∀ {events bodies},
      post ⟨t₀.machine.store, events, bodies, result, t'.machine.store⟩ →
        post' ⟨t.machine.store, events, bodies, result', t'.machine.store⟩) :
    Adds post' t result' t' := by
  obtain ⟨⟨events, bodies, he, hb, hfirst⟩, hproper⟩ := h
  rw [hevents] at he
  rw [hbodies] at hb
  rw [hcalls] at hproper
  exact ⟨⟨events, bodies, he, hb, hpost hfirst⟩, hproper⟩

theorem Adds.imp {result : Except Halt α} {post' : Account β → Prop} {result' : Except Halt β}
    (h : Adds post t result t') (hpost : ∀ {events bodies},
      post ⟨t.machine.store, events, bodies, result, t'.machine.store⟩ →
        post' ⟨t.machine.store, events, bodies, result', t'.machine.store⟩) :
    Adds post' t result' t' :=
  h.since rfl rfl rfl hpost

theorem Told.since {x : EStateM.Result Halt Recorded α} {y : EStateM.Result Halt Machine α}
    (h : Told post t₀ x y) (hevents : t₀.events = t.events) (hbodies : t₀.bodies = t.bodies)
    (hcalls : t₀.calls = t.calls)
    (hpost : ∀ {events bodies result after},
      post ⟨t₀.machine.store, events, bodies, result, after⟩ →
        post' ⟨t.machine.store, events, bodies, result, after⟩) :
    Told post' t x y := by
  cases h with
  | ok h => exact .ok (h.since hevents hbodies hcalls hpost)
  | error h => exact .error (h.since hevents hbodies hcalls hpost)

/-- One evaluation after another. -/
theorem Told.bind {x : EStateM Halt Recorded α} {y : Eval α} {f : α → EStateM Halt Recorded β}
    {g : α → Eval β} {post' post'' : Account β → Prop} (h : Told post t (x t) (y t.machine))
    (hf : ∀ a, Tells post' (f a) (g a))
    (hok : ∀ {before middle after events events' bodies bodies' a result},
      post ⟨before, events, bodies, .ok a, middle⟩ →
      post' ⟨middle, events', bodies', result, after⟩ →
        post'' ⟨before, events' ++ events, bodies' ++ bodies, result, after⟩)
    (herror : ∀ {before after events bodies halt},
      post ⟨before, events, bodies, .error halt, after⟩ →
        post'' ⟨before, events, bodies, .error halt, after⟩) :
    Told post'' t ((x >>= f) t) ((y >>= g) t.machine) := by
  change Told post'' t (EStateM.bind x f t) (EStateM.bind y g t.machine)
  unfold EStateM.bind
  generalize x t = u, y t.machine = v at h
  cases h with
  | error hadds => exact .error (hadds.imp herror)
  | @ok a t' hadds =>
    have hrest := hf a t'
    dsimp only
    generalize f a t' = u', g a t'.machine = v' at hrest
    cases hrest with
    | ok hadds' => exact .ok (hadds.trans hadds' hok)
    | error hadds' => exact .error (hadds.trans hadds' hok)

theorem silent_nil : Silent [] := List.forall_mem_nil _

theorem quiet_refl (result : Except Halt α) (t : Recorded) : Adds Account.Quiet t result t :=
  .none rfl rfl rfl ⟨silent_nil, rfl⟩

theorem Account.Quiet.followed {before middle after : Store} {events events' : List Event}
    {bodies bodies' : List Body} {a : α} {result : Except Halt β}
    (h : Account.Quiet ⟨before, events, bodies, .ok a, middle⟩)
    (h' : Account.Quiet ⟨middle, events', bodies', result, after⟩) :
    Account.Quiet ⟨before, events' ++ events, bodies' ++ bodies, result, after⟩ :=
  ⟨Silent.append h'.1 h.1, List.append_eq_nil_iff.mpr ⟨h'.2, h.2⟩⟩

/-- Sequences of what is quiet are quiet. -/
def quiet : Congruence Recorded Machine where
  Rel x y := Tells Account.Quiet x y
  pure _ t := .ok (quiet_refl _ t)
  throw _ t := .error (quiet_refl _ t)
  bind h hf t := Told.bind (h t) hf Account.Quiet.followed id

theorem tells_step (action : Action) (x : Eval α) : Tells Account.Quiet (step action x) x := by
  intro t
  unfold step
  dsimp only
  cases x t.machine with
  | ok a machine => exact .ok (.none rfl rfl rfl ⟨silent_nil, rfl⟩)
  | error halt machine => exact .error (.none rfl rfl rfl ⟨silent_nil, rfl⟩)

theorem quiet_steps : quiet.OfSteps operations Operations.machine where
  getStore t := .ok (quiet_refl _ t)
  printLine text := tells_step .other (Operations.machine.printLine text)
  readVariable id name := tells_step .other (Operations.machine.readVariable id name)
  writeVariable id name v :=
    tells_step (.assigns id name v) (Operations.machine.writeVariable id name v)
  superMethod id line method := tells_step .other (Operations.machine.superMethod id line method)
  setField id name v := tells_step .other (Operations.machine.setField id name v)
  newInstance c := tells_step .other (Operations.machine.newInstance c)
  bindTo f receiver := tells_step .other (Operations.machine.bindTo f receiver)
  declare name := tells_step (.begins name) (Operations.machine.declare name)
  define name v := tells_step (.declares name) (Operations.machine.define name v)
  newFunction declaration := tells_step .other (Operations.machine.newFunction declaration)
  newClass name superclass methods :=
    tells_step (.declares name.text) (Operations.machine.newClass name superclass methods)
  receiver object := tells_step .other (Operations.machine.receiver object)

theorem tells_normal : Tells Account.Ends (pure .normal) (pure .normal) :=
  fun _ => .ok (.none rfl rfl rfl ⟨silent_nil, rfl⟩)

/-- Something quiet before statements. -/
theorem Tells.quietly {x : EStateM Halt Recorded α} {y : Eval α}
    {f : α → EStateM Halt Recorded Completion} {g : α → Eval Completion}
    (h : Tells Account.Quiet x y) (hf : ∀ a, Tells Account.Ends (f a) (g a)) :
    Tells Account.Ends (x >>= f) (y >>= g) :=
  fun t => Told.bind (h t) hf
    (fun hx hrest => ⟨Ends.append hrest.1 hx.1, List.append_eq_nil_iff.mpr ⟨hrest.2, hx.2⟩⟩) id

/-- Statements after one that need not be the last. -/
theorem Tells.sequence {x rest : EStateM Halt Recorded Completion} {y rest' : Eval Completion}
    (h : Tells Account.Ends x y) (hrest : Tells Account.Ends rest rest') :
    Tells Account.Ends
      (x >>= fun completion =>
        match completion with
        | .normal => rest
        | .returned value => pure (.returned value))
      (y >>= fun completion =>
        match completion with
        | .normal => rest'
        | .returned value => pure (.returned value)) := by
  intro t
  have hfirst := h t
  change Told _ t (EStateM.bind x _ t) (EStateM.bind y _ t.machine)
  unfold EStateM.bind
  generalize x t = u, y t.machine = v at hfirst
  cases hfirst with
  | error hadds => exact .error hadds
  | @ok completion t' hadds =>
    cases completion with
    | returned value => exact .ok hadds
    | normal =>
      have hlater := hrest t'
      dsimp only
      generalize rest t' = u', rest' t'.machine = v' at hlater
      have hpost {result after events events' bodies bodies'}
          (hx : Account.Ends ⟨t.machine.store, events, bodies, .ok .normal, t'.machine.store⟩)
          (hy : Account.Ends ⟨t'.machine.store, events', bodies', result, after⟩) :
          Account.Ends ⟨t.machine.store, events' ++ events, bodies' ++ bodies, result, after⟩ :=
        ⟨Ends.append hy.1 hx.1, List.append_eq_nil_iff.mpr ⟨hy.2, hx.2⟩⟩
      cases hlater with
      | ok hadds' => exact .ok (hadds.trans hadds' hpost)
      | error hadds' => exact .error (hadds.trans hadds' hpost)

theorem tells_runAll {x : Stmt → EStateM Halt Recorded Completion} {y : Stmt → Eval Completion}
    (h : ∀ s, Tells Account.Ends (x s) (y s)) (body : List Stmt) :
    Tells Account.Ends (runAll x body) (runAll y body) := by
  induction body with
  | nil => exact tells_normal
  | cons first rest ih => exact (h first).sequence ih

theorem tells_loop {x : EStateM Halt Recorded Bool} {y : Eval Bool}
    {x' : EStateM Halt Recorded Completion} {y' : Eval Completion} (h : Tells Account.Quiet x y)
    (h' : Tells Account.Ends x' y') (limit : Nat) :
    Tells Account.Ends (loop x x' limit) (loop y y' limit) := by
  induction limit with
  | zero => exact fun t => .error (.none rfl rfl rfl ⟨silent_nil, rfl⟩)
  | succ limit ih =>
    refine h.quietly fun holds => ?_
    cases holds with
    | false => exact tells_normal
    | true => exact h'.sequence ih

theorem told_inScope {x : EStateM Halt Recorded Completion} {y : Eval Completion}
    (h : Tells Account.Ends x y) (scope : ScopeId) (t : Recorded) :
    Told Account.Ends t (inScope scope x t) (Evaluation.inScope scope y t.machine) := by
  have hin := h { t with machine := { t.machine with scope }, declaring := none }
  rw [inScope_apply]
  unfold inScope Annotated.inScope
  generalize x _ = u, y _ = v at hin ⊢
  cases hin with
  | ok hadds => exact .ok ⟨hadds.account, hadds.calls⟩
  | error hadds => exact .error ⟨hadds.account, hadds.calls⟩

theorem tells_inBlock {x : EStateM Halt Recorded Completion} {y : Eval Completion}
    (h : Tells Account.Ends x y) :
    Tells Account.Ends (operations.inBlock x) (Operations.machine.inBlock y) :=
  fun t => (told_inScope h t.machine.store.scopes.size
    (stateOf (step .opens (allocate (·.newScope { enclosing := some t.machine.scope })) t))).since
      rfl rfl rfl id

/-- The body of a function is taken down. -/
theorem told_inBody (object : FunctionObject) (arguments : List Value)
    {x : EStateM Halt Recorded Completion} {v : EStateM.Result Halt Machine Completion}
    (h : Told Account.Ends { t with events := [] } (x { t with events := [] }) v) :
    Told (Account.RunsBody object arguments) t (inBody object arguments x t) v := by
  unfold inBody
  dsimp only
  generalize x { t with events := [] } = u at h
  have hadds {result : Except Halt Completion} {t' : Recorded}
      (h : Adds Account.Ends { t with events := [] } result t') :
      Adds (Account.RunsBody object arguments) t result
        { t' with
          events := t.events
          bodies := ⟨object, arguments, t.machine.store, t'.events, result, t'.machine.store⟩ ::
            t'.bodies } := by
    obtain ⟨⟨events, bodies, hevents, hbodies, hends, hnone⟩, hcalls⟩ := h
    obtain rfl : bodies = [] := hnone
    rw [List.append_nil] at hevents
    rw [← hevents] at hends
    refine ⟨⟨[], [_], rfl, congrArg _ hbodies, rfl, _, rfl, ⟨rfl, rfl, rfl, hends⟩, rfl, rfl⟩, hcalls⟩
  cases h with
  | ok h => exact .ok (hadds h)
  | error h => exact .error (hadds h)

theorem tells_inCall {x : EStateM Halt Recorded Completion} {y : Eval Completion}
    (h : Tells Account.Ends x y) (f : FunctionId) (object : FunctionObject)
    (arguments : List Value) :
    Tells (Account.RunsBody object arguments) (operations.inCall f object arguments x)
      (Operations.machine.inCall f object arguments y) := by
  intro t
  let bindings := bindArguments object.declaration.parameters arguments
  let new : Scope := { bindings, enclosing := some object.closure }
  let started : Recorded := { t with events := [] }
  exact told_inBody object arguments ((told_inScope h t.machine.store.scopes.size
    (stateOf (step .opens (allocate (·.newScope new)) started))).since rfl rfl rfl id)

/-- What is done with the store as it is now. -/
theorem Told.withStore {x : Store → EStateM Halt Recorded α} {y : Store → Eval α}
    (h : Told post t₀ (x t.machine.store t) (y t.machine.store t.machine)) :
    Told post t₀ ((operations.getStore >>= x) t)
      ((Operations.machine.getStore >>= y) t.machine) := h

section
variable {x : Parts Recorded} {y : Parts Machine}
  (hexecute : ∀ s, Tells Account.Ends (x.execute s) (y.execute s))
include hexecute

theorem tells_callFunction (f : FunctionId) (arguments : List Value) :
    Tells (Account.CallsFunction f arguments) (operations.callFunction x f arguments)
      (Operations.machine.callFunction y f arguments) := by
  intro t
  change Told _ t ((object t.machine.store.functions[f]? >>= _) t)
    ((object t.machine.store.functions[f]? >>= _) t.machine)
  cases hobject : t.machine.store.functions[f]? with
  | none => exact .error (.none rfl rfl rfl ⟨rfl, fun o ho => nomatch hobject.symm.trans ho⟩)
  | some o =>
    have hpost {result : Except Halt Value} {completion : Except Halt Completion} {after : Store}
        (hvalue : ∀ body : Body, body.object = o → body.ending = completion → body.after = after →
          result = body.result) {events bodies}
        (h : Account.RunsBody o arguments ⟨t.machine.store, events, bodies, completion, after⟩) :
        Account.CallsFunction f arguments ⟨t.machine.store, events, bodies, result, after⟩ := by
      obtain ⟨hevents, body, hbodies, hruns, hafter, hending⟩ := h
      refine ⟨hevents, fun o' ho' => ?_⟩
      obtain rfl := Option.some.inj (hobject.symm.trans ho')
      exact ⟨body, hbodies, hruns, hafter, hvalue body hruns.object hending.symm hafter.symm⟩
    have hbody := tells_inCall (tells_runAll hexecute o.declaration.body) f o arguments t
    change Told _ t (EStateM.bind (operations.inCall f o arguments _) _ t)
      (EStateM.bind (Operations.machine.inCall f o arguments _) _ t.machine)
    unfold EStateM.bind
    generalize operations.inCall f o arguments _ t = u,
      Operations.machine.inCall f o arguments _ t.machine = v at hbody
    cases hbody with
    | error hadds =>
      exact .error (hadds.imp (hpost fun body _ hending _ => (Body.result_of_error hending).symm))
    | @ok completion t' hadds =>
      dsimp only
      cases hinitializer : o.isInitializer with
      | true =>
        rw [if_pos rfl, if_pos rfl]
        have hadds' : Adds (Account.CallsFunction f arguments) t
            (.ok ((t'.machine.store.findLocal? o.closure "this").getD .nil)) t' := by
          refine hadds.imp (hpost fun body ho hending hafter => ?_)
          rw [Body.result_of_initializer hending (ho ▸ hinitializer), ho, hafter]
        exact .ok ⟨hadds'.account, hadds'.calls⟩
      | false =>
        rw [if_neg Bool.false_ne_true, if_neg Bool.false_ne_true]
        have hadds' : Adds (Account.CallsFunction f arguments) t (.ok completion.value) t' := by
          refine hadds.imp (hpost fun body ho hending _ => ?_)
          rw [Body.result_of_ordinary hending (ho ▸ hinitializer)]
        cases completion with
        | returned value => exact .ok hadds'
        | normal => exact .ok hadds'

/-- The recording machine after a method was bound. -/
def afterBinding (t : Recorded) (object : FunctionObject) (i : InstanceId) : Recorded :=
  let machine := { t.machine with store := (t.machine.store.bindMethod object i).1 }
  { t with machine, steps := ⟨.other, t.declaring, t.machine, .ok (), machine⟩ :: t.steps }

omit hexecute in
theorem bindTo_apply {f : FunctionId} {object : FunctionObject}
    (hf : t.machine.store.functions[f]? = some object) (i : InstanceId) :
    operations.bindTo f i t =
      .ok (t.machine.store.bindMethod object i).2 (t.afterBinding object i) := by
  change step .other (Evaluation.bindTo f i) t = _
  unfold step
  rw [Evaluation.bindTo_apply t.machine hf i]
  rfl

/-- The initializer of a class is called after it was bound to the new instance. -/
theorem told_initializer {init : FunctionId} {object : FunctionObject}
    (hobject : t.machine.store.functions[init]? = some object) (i : InstanceId)
    (arguments : List Value) :
    Told (Account.Initializes object i arguments) t
      ((do
        let _ ← operations.callFunction x (← operations.bindTo init i) arguments
        return Value.instanceRef i) t)
      ((do
        let _ ← Operations.machine.callFunction y (← Operations.machine.bindTo init i) arguments
        return Value.instanceRef i) t.machine) := by
  let bound := (t.machine.store.bindMethod object i).2
  let started := t.afterBinding object i
  have hbound : Operations.machine.bindTo init i t.machine = .ok bound started.machine :=
    Evaluation.bindTo_apply t.machine hobject i
  have hfunction : started.machine.store.functions[bound]? =
      some { object with closure := t.machine.store.scopes.size } :=
    t.machine.store.getElem?_bindMethod object i
  have hcall := tells_callFunction hexecute bound arguments started
  change Told _ t (EStateM.bind (operations.bindTo init i) _ t)
    (EStateM.bind (Operations.machine.bindTo init i) _ t.machine)
  unfold EStateM.bind
  rw [bindTo_apply hobject i, hbound]
  change Told _ t (EStateM.bind (operations.callFunction x bound arguments) _ started)
    (EStateM.bind (Operations.machine.callFunction y bound arguments) _ started.machine)
  unfold EStateM.bind
  generalize operations.callFunction x bound arguments started = u,
    Operations.machine.callFunction y bound arguments started.machine = v at hcall
  have hpost {result : Except Halt Value} {events bodies after}
      (h : Account.CallsFunction bound arguments
        ⟨started.machine.store, events, bodies, result, after⟩) :
      Account.Initializes object i arguments ⟨t.machine.store, events, bodies,
        result.map fun _ => .instanceRef i, after⟩ := by
    obtain ⟨hevents, hcalls⟩ := h
    obtain ⟨body, hbodies, hruns, hafter, hresult⟩ := hcalls _ hfunction
    refine ⟨hevents, body, hbodies, hruns, hafter, ?_⟩
    rw [← body.map_result, ← hresult]
  cases hcall with
  | ok h => exact .ok (h.since rfl rfl rfl hpost)
  | error h => exact .error (h.since rfl rfl rfl hpost)

theorem tells_instantiate (c : ClassId) (line : Nat) (arguments : List Value) :
    Tells (Account.Calls (.classRef c) line arguments) (operations.instantiate x c arguments)
      (Operations.machine.instantiate y c arguments) := by
  intro t
  let id := t.machine.store.instances.size
  let made : Recorded := stateOf (operations.newInstance c t)
  have hmade : operations.newInstance c t = .ok id made := rfl
  have hmade' : Operations.machine.newInstance c t.machine = .ok id made.machine := rfl
  have hfind : made.machine.store.findMethod? c FunctionOf.initializerName =
    t.machine.store.findMethod? c FunctionOf.initializerName := rfl
  unfold Operations.instantiate
  change Told _ t (EStateM.bind (operations.newInstance c) _ t)
    (EStateM.bind (Operations.machine.newInstance c) _ t.machine)
  unfold EStateM.bind
  rw [hmade, hmade']
  refine Told.withStore ?_
  dsimp only
  rw [hfind]
  cases hinit : t.machine.store.findMethod? c FunctionOf.initializerName with
  | none => exact .ok (.none rfl rfl rfl ⟨rfl, .made rfl hinit rfl rfl rfl⟩)
  | some init =>
    cases hobject : t.machine.store.functions[init]? with
    | none =>
      change Told _ t (EStateM.bind (step .other (Evaluation.bindTo init id)) _ made)
        (EStateM.bind (Evaluation.bindTo init id) _ made.machine)
      unfold EStateM.bind step
      rw [bindTo_missing made.machine hobject id]
      exact .error (.none rfl rfl rfl ⟨rfl, .missingInitializer rfl hinit hobject⟩)
    | some o =>
      refine (told_initializer hexecute (t := made) hobject id arguments).since rfl rfl rfl ?_
      rintro events bodies result after ⟨hevents, body, hbodies, hruns, hafter, hresult⟩
      exact ⟨hevents, .initialized rfl hinit hobject hbodies hruns hresult hafter⟩

omit hexecute in
theorem told_asCall {x : EStateM Halt Recorded Value} {y : Eval Value} {callee : Value} {line : Nat}
    {arguments : List Value} (h : Tells (Account.Calls callee line arguments) x y) (t : Recorded) :
    Told (Account.Calls callee line arguments) t (Annotated.asCall x t)
      (Evaluation.asCall y t.machine) := by
  have hin := h { t with machine := { t.machine with callDepth := t.machine.callDepth + 1 } }
  rw [asCall_apply]
  unfold Annotated.asCall
  generalize x _ = u, y _ = v at hin ⊢
  cases hin with
  | ok hadds => exact .ok ⟨hadds.account, hadds.calls⟩
  | error hadds => exact .error ⟨hadds.account, hadds.calls⟩

omit hexecute in
theorem told_refused {callee : Value} {line : Nat} {arguments : List Value}
    {cause : RuntimeError.Cause} (h : Refusal callee arguments t.machine.store cause) :
    Told (Account.Calls callee line arguments) t
      ((Operations.fail cause line : EStateM Halt Recorded Value) t)
      ((Operations.fail cause line : Eval Value) t.machine) :=
  .error (.none rfl rfl rfl ⟨rfl, .refused h rfl rfl⟩)

omit hexecute in
theorem told_checkedCall {x : EStateM Halt Recorded Value} {y : Eval Value} {callee : Value}
    {arity line : Nat} {arguments : List Value}
    (harity : callArity? t.machine.store callee = some arity)
    (h : Tells (Account.Calls callee line arguments) x y) :
    Told (Account.Calls callee line arguments) t (operations.checkedCall arity line arguments x t)
      (Operations.machine.checkedCall arity line arguments y t.machine) := by
  have hrefusal : Refusal callee arguments t.machine.store
      (if arguments.length ≠ arity then .wrongArgumentCount arity arguments.length
        else .stackOverflow) := by
    unfold Refusal
    rw [harity]
  unfold Operations.checkedCall
  split
  · next hlength =>
    rw [if_pos hlength] at hrefusal
    exact told_refused hrefusal
  · next hlength =>
    rw [if_neg hlength] at hrefusal
    change Told _ t
      ((if maxCallDepth ≤ t.machine.callDepth then Operations.fail .stackOverflow line
        else Annotated.asCall x) t)
      ((if maxCallDepth ≤ t.machine.callDepth then Operations.fail .stackOverflow line
        else Evaluation.asCall y) t.machine)
    split
    · exact told_refused hrefusal
    · exact told_asCall h t

/-- Calls have the outcomes that calls have. -/
theorem tells_callValue (callee : Value) (line : Nat) (arguments : List Value) :
    Tells (Account.Calls callee line arguments) (operations.callValue x callee line arguments)
      (Operations.machine.callValue y callee line arguments) := by
  intro t
  cases callee with
  | functionRef f =>
    change Told _ t ((object t.machine.store.functions[f]? >>= _) t)
      ((object t.machine.store.functions[f]? >>= _) t.machine)
    cases hobject : t.machine.store.functions[f]? with
    | none => exact .error (.none rfl rfl rfl ⟨rfl, .missingFunction rfl hobject⟩)
    | some o =>
      have harity : callArity? t.machine.store (.functionRef f) = some o.declaration.arity := by
        change t.machine.store.functions[f]?.map _ = _
        rw [hobject]
        rfl
      refine told_checkedCall harity fun t => ?_
      refine (tells_callFunction hexecute f arguments t).since rfl rfl rfl ?_
      rintro events bodies result after ⟨hevents, hcalls⟩
      refine ⟨hevents, ?_⟩
      cases hfound : t.machine.store.functions[f]? with
      | none => exact .missingFunction rfl hfound
      | some o =>
        obtain ⟨body, hbodies, hruns, hafter, hresult⟩ := hcalls o hfound
        exact .invoked rfl hfound hbodies hruns hresult hafter
  | classRef c =>
    exact Told.withStore (told_checkedCall rfl (tells_instantiate hexecute c line arguments))
  | nil | bool _ | number _ | string _ | instanceRef _ => exact told_refused rfl

end

/-- A call is taken down with the bodies that are run for it. -/
theorem tells_inCallOf {callee : Value} {line : Nat} {arguments : List Value}
    {x : EStateM Halt Recorded Value} {y : Eval Value}
    (h : Tells (Account.Calls callee line arguments) x y) (hkeeps : Keeps y) :
    Tells Account.Quiet (inCallOf callee line arguments x) y := by
  intro t
  have hcontrol := (hkeeps t.machine).toSameControl
  have hin := h { t with bodies := [] }
  unfold inCallOf
  dsimp only
  generalize x { t with bodies := [] } = u at hin
  change Told _ { t with bodies := [] } u (y t.machine) at hin
  generalize y t.machine = v at hin hcontrol
  have hadds {result : Except Halt Value} {t' : Recorded}
      (h : Adds (Account.Calls callee line arguments) { t with bodies := [] } result t')
      (hcontrol : t.machine.SameControl t'.machine) :
      Adds Account.Quiet t result
        { t' with
          bodies := t.bodies
          calls := ⟨callee, line, arguments, t.machine, t'.bodies, result, t'.machine⟩ ::
            t'.calls } := by
    obtain ⟨⟨events, bodies, hevents, hbodies, hnone, houtcome⟩, hcalls⟩ := h
    obtain rfl : events = [] := hnone
    rw [List.append_nil] at hbodies
    rw [← hbodies] at houtcome
    exact ⟨⟨[], [], hevents, rfl, silent_nil, rfl⟩,
      List.forall_mem_cons.mpr ⟨.inr ⟨houtcome, hcontrol⟩, hcalls⟩⟩
  cases hin with
  | ok h => exact .ok (hadds h hcontrol)
  | error h => exact .error (hadds h hcontrol)

/-- An event is noted before what else is done. -/
theorem Adds.noted {event : Event} {result : Except Halt α} {post' : Account β → Prop}
    {result' : Except Halt β} (h : Adds post { t with events := event :: t.events } result t')
    (hpost : ∀ {events bodies},
      post ⟨t.machine.store, events, bodies, result, t'.machine.store⟩ →
        post' ⟨t.machine.store, events ++ [event], bodies, result', t'.machine.store⟩) :
    Adds post' t result' t' := by
  obtain ⟨⟨events, bodies, hevents, hbodies, hfirst⟩, hcalls⟩ := h
  refine ⟨⟨events ++ [event], bodies, ?_, hbodies, hpost hfirst⟩, hcalls⟩
  rw [hevents, List.append_assoc]
  rfl

theorem silent_evaluates (e : Expr) : Silent [.evaluates e] :=
  List.forall_mem_singleton.mpr id

theorem silent_executes (s : Stmt) : Silent [.executes s] :=
  List.forall_mem_singleton.mpr id

theorem tells_expression {x : EStateM Halt Recorded Value} {y : Eval Value}
    (h : Tells Account.Quiet x y) (e : Expr) : Tells Account.Quiet (hooks.expression e x) y := by
  intro t
  have hin := h { t with events := .evaluates e :: t.events }
  change Told _ _ (x { t with events := .evaluates e :: t.events }) (y t.machine) at hin
  change Told _ t (x { t with events := .evaluates e :: t.events }) (y t.machine)
  generalize x _ = u, y _ = v at hin ⊢
  cases hin with
  | ok h => exact .ok (h.noted fun hquiet => ⟨Silent.append hquiet.1 (silent_evaluates e), hquiet.2⟩)
  | error h =>
    exact .error (h.noted fun hquiet => ⟨Silent.append hquiet.1 (silent_evaluates e), hquiet.2⟩)

/-- A statement that is no `return` ends as its parts do. -/
theorem tells_statement {x : EStateM Halt Recorded Completion} {y : Eval Completion}
    (h : Tells Account.Ends x y) {s : Stmt} (hs : ∀ completion, eventOf? s completion = none) :
    Tells Account.Ends (hooks.statement s x) y := by
  intro t
  have hin := h { t with events := .executes s :: t.events }
  change Told _ _ (x { t with events := .executes s :: t.events }) (y t.machine) at hin
  change Told _ t (EStateM.bind x _ { t with events := .executes s :: t.events }) (y t.machine)
  unfold EStateM.bind
  generalize x _ = u, y _ = v at hin ⊢
  have hpost {result : Except Halt Completion} {events bodies after}
      (h : Account.Ends ⟨t.machine.store, events, bodies, result, after⟩) :
      Account.Ends ⟨t.machine.store, events ++ [.executes s], bodies, result, after⟩ :=
    ⟨Ends.append h.1 (silent_executes s), h.2⟩
  cases hin with
  | error h => exact .error (h.noted hpost)
  | @ok completion t' h =>
    dsimp only
    rw [hs completion]
    exact .ok (h.noted hpost)

/-- A `return` ends with its value, once that is known. -/
theorem tells_return {x : EStateM Halt Recorded Value} {y : Eval Value}
    (h : Tells Account.Quiet x y) (line : Nat) (value : Option Expr) :
    Tells Account.Ends
      (hooks.statement (.returnWith line value) (x >>= fun v => pure (.returned v)))
      (y >>= fun v => pure (.returned v)) := by
  intro t
  let noted : Recorded := { t with events := .executes (.returnWith line value) :: t.events }
  have hin := h noted
  change Told _ _ (x noted) (y t.machine) at hin
  change Told _ t (EStateM.bind (EStateM.bind x _) _ noted) (EStateM.bind y _ t.machine)
  unfold EStateM.bind
  generalize x _ = u, y _ = v at hin ⊢
  cases hin with
  | error h =>
    exact .error (h.noted fun hquiet =>
      ⟨Silent.append hquiet.1 (silent_executes _), hquiet.2⟩)
  | @ok v t' h =>
    have hadds : Adds (fun account => account.bodies = [] ∧ Silent account.events) t
        (.ok (Completion.returned v)) t' :=
      h.noted fun hquiet => ⟨hquiet.2, Silent.append hquiet.1 (silent_executes _)⟩
    obtain ⟨⟨events, bodies, hevents, hbodies, hnone, hsilent⟩, hcalls⟩ := hadds
    have hreturns : .returns v :: t'.events = .returns v :: events ++ t.events :=
      congrArg _ hevents
    let returned : Recorded := { t' with events := .returns v :: t'.events }
    have hended : Adds Account.Ends t (.ok (.returned v)) returned :=
      ⟨⟨_, bodies, hreturns, hbodies, ⟨events, rfl, hsilent⟩, hnone⟩, hcalls⟩
    exact .ok hended

/-- The evaluators of recording machines, and those of machines. -/
structure OfParts (x : Parts Recorded) (y : Parts Machine) : Prop where
  limit : x.limit = y.limit
  evaluate : ∀ e, Tells Account.Quiet (x.evaluate e) (y.evaluate e)
  execute : ∀ s, Tells Account.Ends (x.execute s) (y.execute s)

section
variable {x : Parts Recorded} {y : Parts Machine} (parts : OfParts x y)
include parts

theorem tells_evaluate? (e : Option Expr) :
    Tells Account.Quiet (Operations.evaluate? x e) (Operations.evaluate? y e) := by
  cases e with
  | none => exact quiet.pure _
  | some e => exact parts.evaluate e

theorem tells_superclassValue? (superclass : Option Superclass) :
    Tells Account.Quiet (Operations.superclassValue? x superclass)
      (Operations.superclassValue? y superclass) := by
  cases superclass with
  | none => exact quiet.pure _
  | some superclass =>
    refine quiet.map (quiet.bind (parts.evaluate superclass.toExpr) fun v => ?_) some
    cases v with
    | classRef k => exact quiet.pure _
    | nil | bool _ | number _ | string _ | functionRef _ | instanceRef _ => exact quiet.throw _

theorem tells_executeForm (s : Stmt) :
    Tells Account.Ends (hooks.statement s (operations.executeForm x s))
      (Operations.machine.executeForm y s) := by
  cases s with
  | expression e =>
    exact tells_statement ((parts.evaluate e).quietly fun _ => tells_normal) fun _ => rfl
  | print e =>
    exact tells_statement ((parts.evaluate e).quietly fun _ => quiet_steps.getStore.quietly fun _ =>
      (quiet_steps.printLine _).quietly fun _ => tells_normal) fun _ => rfl
  | varDecl name initializer =>
    exact tells_statement ((quiet_steps.declare name.text).quietly fun _ =>
      (tells_evaluate? parts initializer).quietly fun v =>
        (quiet_steps.define name.text v).quietly fun _ => tells_normal) fun _ => rfl
  | block body => exact tells_statement (tells_inBlock (tells_runAll parts.execute body)) fun _ => rfl
  | ifElse condition thenBranch elseBranch =>
    refine tells_statement ((parts.evaluate condition).quietly fun v => ?_) fun _ => rfl
    split
    · exact parts.execute thenBranch
    · cases elseBranch with
      | none => exact tells_normal
      | some elseBranch => exact parts.execute elseBranch
  | whileLoop condition body =>
    refine tells_statement ?_ fun _ => rfl
    rw [Operations.executeForm, Operations.executeForm, parts.limit]
    exact tells_loop (quiet.map (parts.evaluate condition) _) (parts.execute body) _
  | funDecl declaration =>
    exact tells_statement ((quiet_steps.declare _).quietly fun _ =>
      (quiet_steps.newFunction declaration).quietly fun f =>
        (quiet_steps.define _ _).quietly fun _ => tells_normal) fun _ => rfl
  | returnWith line value => exact tells_return (tells_evaluate? parts value) line value
  | classDecl name superclass methods =>
    exact tells_statement ((quiet_steps.declare _).quietly fun _ =>
      (tells_superclassValue? parts superclass).quietly fun k =>
        (quiet_steps.newClass name k methods).quietly fun _ => tells_normal) fun _ => rfl

end

theorem tells_evaluators (fuel : Nat) :
    OfParts ⟨fuel, hooks.evaluate operations fuel, hooks.execute operations fuel⟩
      ⟨fuel, Operations.machine.evaluate fuel, Operations.machine.execute fuel⟩ := by
  induction fuel with
  | zero =>
    refine ⟨rfl, fun e => ?_, fun s => ?_⟩
    · change Tells _ (hooks.evaluate operations 0 e) (Operations.machine.evaluate 0 e)
      rw [Hooks.evaluate, Operations.evaluate]
      exact quiet.throw _
    · change Tells _ (hooks.execute operations 0 s) (Operations.machine.execute 0 s)
      rw [Hooks.execute, Operations.execute]
      exact fun t => .error (.none rfl rfl rfl ⟨silent_nil, rfl⟩)
  | succ fuel ih =>
    refine ⟨rfl, fun e => ?_, fun s => ?_⟩
    · change Tells _ (hooks.evaluate operations (fuel + 1) e)
        (Operations.machine.evaluate (fuel + 1) e)
      rw [Hooks.evaluate, Operations.evaluate, ← Operations.evaluateFormWith_callValue]
      refine tells_expression
        (quiet_steps.evaluateFormWith ih.evaluate (fun callee line arguments => ?_) e) e
      exact tells_inCallOf (tells_callValue ih.execute callee line arguments)
        (Keeps.callValue fuel callee line arguments)
    · change Tells _ (hooks.execute operations (fuel + 1) s) (Operations.machine.execute (fuel + 1) s)
      rw [Hooks.execute, Operations.execute]
      exact tells_executeForm ih s

/-- Recorded, a program ends as it ends otherwise, and all its calls come out as calls do. -/
theorem proper_interpret (fuel : Nat) (program : List Stmt) (machine : Machine) :
    let recorded := interpret fuel program { machine }
    let ended := Evaluation.interpret fuel program machine
    resultOf recorded = resultOf ended ∧ (stateOf recorded).machine = stateOf ended ∧
      ∀ call ∈ (stateOf recorded).calls, call.Proper := by
  let start : Recorded := { machine }
  have htold := tells_runAll (tells_evaluators fuel).execute program start
  rw [← machine_interpret]
  change let recorded := EStateM.bind (runAll (hooks.execute operations fuel) program) _ start
    let ended := EStateM.bind (runAll (Operations.machine.execute fuel) program) _ machine
    resultOf recorded = resultOf ended ∧ (stateOf recorded).machine = stateOf ended ∧
      ∀ call ∈ (stateOf recorded).calls, call.Proper
  unfold EStateM.bind
  dsimp only at htold ⊢
  generalize runAll (hooks.execute operations fuel) program start = u,
    runAll (Operations.machine.execute fuel) program machine = v at htold
  have hcalls {result : Except Halt Completion} {t' : Recorded}
      (h : Adds Account.Ends start result t') : ∀ call ∈ t'.calls, call.Proper :=
    fun call hmem => (h.calls call hmem).resolve_left List.not_mem_nil
  cases htold with
  | ok h => exact ⟨rfl, rfl, hcalls h⟩
  | error h => exact ⟨rfl, rfl, hcalls h⟩

end Recorded
end Lox.Evaluation
