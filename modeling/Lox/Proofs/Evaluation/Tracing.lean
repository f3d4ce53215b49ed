import Lox.Proofs.Evaluation.Annotated
import Lox.Proofs.Evaluation.Control

/-!
# Counting calls

An evaluator that follows the same rules as the machine and counts the calls in progress by itself:
a call of a value counts from the moment when its callee and its arguments are known, to the moment
when it ends, in whatever way. The evaluator notes the call depth of the machine next to its own
count whenever an expression or statement begins and at every operation, and it notes each call with
the machine as it was then. The count is not what the rules go by. Yet it is the call depth,
everywhere but in the moments when a call has begun and is not yet let in or refused.
-/
namespace Lox.Evaluation
open Operations

/-- The call depth and the number of calls in progress at one time. -/
structure Moment where
  depth : Nat
  active : Nat

/-- A call, and what was there when it began. -/
structure Invocation where
  callee : Value
  line : Nat
  arguments : List Value
  /-- The number of calls that were in progress already. -/
  active : Nat
  machine : Machine

/-- A machine whose calls are counted. -/
structure Traced where
  machine : Machine
  /-- The number of calls in progress. -/
  active : Nat
  moments : List Moment := []
  calls : List Invocation := []

namespace Traced
open Annotated (lift)
variable {α β : Type}

instance : Annotated Traced where
  machine t := t.machine
  withMachine t machine := { t with machine }

/-- Notes the moment first. -/
def noted (x : EStateM Halt Traced α) : EStateM Halt Traced α := fun t =>
  x { t with moments := ⟨t.machine.callDepth, t.active⟩ :: t.moments }

/-- The operations of the machine, each noted. -/
def operations : Operations Traced where
  store t := t.machine.store
  callDepth t := t.machine.callDepth
  asCall := Annotated.asCall
  printLine text := noted (lift (Operations.machine.printLine text))
  readVariable id name := noted (lift (Operations.machine.readVariable id name))
  writeVariable id name v := noted (lift (Operations.machine.writeVariable id name v))
  superMethod id line method := noted (lift (Operations.machine.superMethod id line method))
  setField id name v := noted (lift (Operations.machine.setField id name v))
  newInstance c := noted (lift (Operations.machine.newInstance c))
  bindTo f receiver := noted (lift (Operations.machine.bindTo f receiver))
  declare name := noted (lift (Operations.machine.declare name))
  define name v := noted (lift (Operations.machine.define name v))
  newFunction declaration := noted (lift (Operations.machine.newFunction declaration))
  newClass name superclass methods := noted (lift (Operations.machine.newClass name superclass methods))
  inBlock body := noted do
    let enclosing := some (← get).machine.scope
    let scope ← lift (allocate (·.newScope { enclosing }))
    Annotated.inScope scope body
  inCall _ object arguments body := noted do
    let bindings := bindArguments object.declaration.parameters arguments
    let scope ← lift (allocate (·.newScope { bindings, enclosing := some object.closure }))
    Annotated.inScope scope body
  receiver object := noted (lift (Operations.machine.receiver object))

/-- A call, from when it begins to when it ends. -/
def invoked (callee : Value) (line : Nat) (arguments : List Value)
    (call : EStateM Halt Traced Value) : EStateM Halt Traced Value := fun t =>
  let active := t.active
  let invocation : Invocation := ⟨callee, line, arguments, active, t.machine⟩
  match call { t with active := active + 1, calls := invocation :: t.calls } with
  | .ok v t => .ok v { t with active }
  | .error halt t => .error halt { t with active }

mutual

def evaluate : (fuel : Nat) → Expr → EStateM Halt Traced Value
  | 0, _ => throw .outOfFuel
  | fuel + 1, e =>
    let parts : Parts Traced := ⟨fuel, evaluate fuel, execute fuel⟩
    noted (operations.evaluateFormWith parts (fun callee line arguments =>
      invoked callee line arguments (operations.callValue parts callee line arguments)) e)

def execute : (fuel : Nat) → Stmt → EStateM Halt Traced Completion
  | 0, _ => throw .outOfFuel
  | fuel + 1, s => noted (operations.executeForm ⟨fuel, evaluate fuel, execute fuel⟩ s)

end

def interpret (fuel : Nat) (program : List Stmt) : EStateM Halt Traced Unit := do
  let _ ← runAll (execute fuel) program

/-- The counts are right, and in bounds. The calls that are `pending` have begun and are not yet let
in or refused. -/
structure Sound (pending : Nat) (t : Traced) : Prop where
  depth : t.machine.callDepth + pending = t.active
  le : t.machine.callDepth ≤ maxCallDepth
  moments : ∀ moment ∈ t.moments, moment.depth = moment.active ∧ moment.active ≤ maxCallDepth
  calls : ∀ call ∈ t.calls, call.machine.callDepth = call.active ∧ call.active ≤ maxCallDepth

/-- The endings are the same, and the counts are right and as before. -/
inductive Ended (pending active : Nat) :
    EStateM.Result Halt Traced α → EStateM.Result Halt Machine α → Prop
  | ok {a : α} {t : Traced} : t.Sound pending → t.active = active →
      Ended pending active (.ok a t) (.ok a t.machine)
  | error {halt : Halt} {t : Traced} : t.Sound pending → t.active = active →
      Ended pending active (.error halt t) (.error halt t.machine)

theorem Ended.same {pending active : Nat} {traced : EStateM.Result Halt Traced α}
    {plain : EStateM.Result Halt Machine α} (h : Ended pending active traced plain) :
    resultOf traced = resultOf plain ∧ (stateOf traced).machine = stateOf plain ∧
      (stateOf traced).Sound pending := by
  cases h with
  | ok hsound _ => exact ⟨rfl, rfl, hsound⟩
  | error hsound _ => exact ⟨rfl, rfl, hsound⟩

/-- The counting evaluation does what the machine does, and its counts are right throughout. -/
def Traces (pending : Nat) (x : EStateM Halt Traced α) (y : Eval α) : Prop :=
  ∀ t, t.Sound pending → Ended pending t.active (x t) (y t.machine)

theorem Traces.bind {pending : Nat} {x : EStateM Halt Traced α} {y : Eval α}
    {f : α → EStateM Halt Traced β} {g : α → Eval β} (h : Traces pending x y)
    (hfg : ∀ a, Traces pending (f a) (g a)) : Traces pending (x >>= f) (y >>= g) := by
  intro t ht
  have hxy := h t ht
  simp only [Bind.bind, EStateM.bind]
  generalize x t = traced, y t.machine = plain at hxy
  cases hxy with
  | ok hsound hactive => exact hactive ▸ hfg _ _ hsound
  | error hsound hactive => exact .error hsound hactive

theorem Traces.withState {pending : Nat} {f : Traced → EStateM Halt Traced α}
    {g : Machine → Eval α} (h : ∀ t, Traces pending (f t) (g t.machine)) :
    Traces pending (get >>= f) (get >>= g) :=
  fun t ht => h t t ht

def tracing (pending : Nat) : Congruence Traced Machine where
  Rel := Traces pending
  pure _ := fun _ ht => .ok ht rfl
  throw _ := fun _ ht => .error ht rfl
  bind := Traces.bind

theorem Sound.noted {t : Traced} (h : t.Sound 0) :
    Sound 0 { t with moments := ⟨t.machine.callDepth, t.active⟩ :: t.moments } := by
  refine ⟨h.depth, h.le, List.forall_mem_cons.mpr ⟨⟨h.depth, ?_⟩, h.moments⟩, h.calls⟩
  have hdepth := h.depth
  have hle := h.le
  dsimp only
  omega

theorem Traces.noted {x : EStateM Halt Traced α} {y : Eval α} (h : Traces 0 x y) :
    Traces 0 (Traced.noted x) y :=
  fun t ht => h { t with moments := _ } ht.noted

/-- What keeps the depth is done without a change of the counts. -/
theorem Traces.lift {pending : Nat} {x : Eval α} (h : Keeps x) :
    Traces pending (Annotated.lift x) x := by
  intro t ht
  have hkeeps := (h t.machine).callDepth
  unfold Annotated.lift
  generalize x t.machine = plain at hkeeps
  cases plain with
  | ok a m =>
    change m.callDepth = t.machine.callDepth at hkeeps
    exact .ok (t := { t with machine := m })
      ⟨hkeeps ▸ ht.depth, hkeeps ▸ ht.le, ht.moments, ht.calls⟩ rfl
  | error halt m =>
    change m.callDepth = t.machine.callDepth at hkeeps
    exact .error (t := { t with machine := m })
      ⟨hkeeps ▸ ht.depth, hkeeps ▸ ht.le, ht.moments, ht.calls⟩ rfl

theorem Traces.inScope {x : EStateM Halt Traced α} {y : Eval α} (h : Traces 0 x y)
    (scope : ScopeId) : Traces 0 (Annotated.inScope scope x) (Evaluation.inScope scope y) := by
  intro t ht
  have hxy := h { t with machine := { t.machine with scope } }
    ⟨ht.depth, ht.le, ht.moments, ht.calls⟩
  unfold Annotated.inScope Evaluation.inScope
  dsimp only at hxy ⊢
  generalize x _ = traced, y _ = plain at hxy
  cases hxy with
  | @ok a t' hsound hactive =>
    exact .ok (t := { t' with machine := { t'.machine with scope := t.machine.scope } })
      ⟨hsound.depth, hsound.le, hsound.moments, hsound.calls⟩ hactive
  | @error halt t' hsound hactive =>
    exact .error (t := { t' with machine := { t'.machine with scope := t.machine.scope } })
      ⟨hsound.depth, hsound.le, hsound.moments, hsound.calls⟩ hactive

theorem tracing_operations : (tracing 0).OfOperations operations Operations.machine where
  getStore := fun _ ht => .ok ht rfl
  printLine text := (Traces.lift (Keeps.printLine text)).noted
  readVariable id name := (Traces.lift (Keeps.readVariable id name)).noted
  writeVariable id name v := (Traces.lift (Keeps.writeVariable id name v)).noted
  superMethod id line method := (Traces.lift (Keeps.superMethod id line method)).noted
  setField id name v := (Traces.lift (keeping_machine.setField id name v)).noted
  newInstance c := (Traces.lift (keeping_machine.newInstance c)).noted
  bindTo f receiver := (Traces.lift (Keeps.bindTo f receiver)).noted
  declare name := (Traces.lift (keeping_machine.declare name)).noted
  define name v := (Traces.lift (Keeps.defineHere name v)).noted
  newFunction declaration := (Traces.lift (keeping_machine.newFunction declaration)).noted
  newClass name superclass methods :=
    (Traces.lift (Keeps.newClass name superclass methods)).noted
  inBlock h := (Traces.withState fun _ =>
    (Traces.lift (Keeps.allocate _)).bind fun scope => h.inScope scope).noted
  inCall _ _ _ h :=
    ((Traces.lift (Keeps.allocate _)).bind fun scope => h.inScope scope).noted
  receiver object := (Traces.lift (keeping_machine.receiver object)).noted

/-- The machine counts a call off before its end is noted. -/
theorem Sound.countedOff {t : Traced} (h : t.Sound 0) (hactive : 0 < t.active) :
    Sound 1 { t with machine := { t.machine with callDepth := t.machine.callDepth - 1 } } := by
  have hdepth : t.machine.callDepth = t.active := h.depth
  refine ⟨?_, Nat.le_trans (Nat.sub_le ..) h.le, h.moments, h.calls⟩
  dsimp only
  omega

/-- A call that is let in is counted by both. -/
theorem Traces.asCall {x : EStateM Halt Traced α} {y : Eval α} (h : Traces 0 x y) {t : Traced}
    (ht : t.Sound 1) (hlt : t.machine.callDepth < maxCallDepth) :
    Ended 1 t.active (Annotated.asCall x t) (Evaluation.asCall y t.machine) := by
  have hxy := h { t with machine := { t.machine with callDepth := t.machine.callDepth + 1 } }
    ⟨ht.depth, hlt, ht.moments, ht.calls⟩
  have hpos : 0 < t.active := Nat.lt_of_lt_of_eq (Nat.succ_pos _) ht.depth
  unfold Annotated.asCall Evaluation.asCall
  dsimp only at hxy
  generalize x _ = traced, y _ = plain at hxy
  cases hxy with
  | ok hsound hactive => exact .ok (hsound.countedOff (hactive ▸ hpos)) hactive
  | error hsound hactive => exact .error (hsound.countedOff (hactive ▸ hpos)) hactive

theorem Traces.checkedCall {x : EStateM Halt Traced Value} {y : Eval Value} (h : Traces 0 x y)
    (arity line : Nat) (arguments : List Value) :
    Traces 1 (operations.checkedCall arity line arguments x)
      (Operations.machine.checkedCall arity line arguments y) := by
  unfold Operations.checkedCall
  split
  · exact (tracing 1).throw _
  · intro t ht
    change Ended 1 t.active
      ((if maxCallDepth ≤ t.machine.callDepth then Operations.fail .stackOverflow line
        else Annotated.asCall x) t)
      ((if maxCallDepth ≤ t.machine.callDepth then Operations.fail .stackOverflow line
        else Evaluation.asCall y) t.machine)
    split
    · exact .error ht rfl
    · next hlt => exact h.asCall ht (Nat.lt_of_not_le hlt)

theorem Traces.callValue {x : Parts Traced} {y : Parts Machine} (parts : (tracing 0).OfParts x y)
    (callee : Value) (line : Nat) (arguments : List Value) :
    Traces 1 (operations.callValue x callee line arguments)
      (Operations.machine.callValue y callee line arguments) := by
  have hstore : Traces 1 operations.getStore Operations.machine.getStore := fun _ ht => .ok ht rfl
  cases callee with
  | functionRef f =>
    refine (hstore.bind fun _ => (tracing 1).object _).bind fun object => ?_
    exact Traces.checkedCall (tracing_operations.callFunction parts f arguments) _ _ _
  | classRef c =>
    refine hstore.bind fun store => ?_
    exact Traces.checkedCall (tracing_operations.ofCalls.instantiate parts c arguments) _ _ _
  | nil | bool _ | number _ | string _ | instanceRef _ => exact (tracing 1).throw _

/-- A call is noted when it begins and counted until it ends. -/
theorem Traces.invoked {x : EStateM Halt Traced Value} {y : Eval Value} (h : Traces 1 x y)
    (callee : Value) (line : Nat) (arguments : List Value) :
    Traces 0 (Traced.invoked callee line arguments x) y := by
  intro t ht
  have hdepth := ht.depth
  have hle := ht.le
  unfold Traced.invoked
  have hxy := h { t with
      active := t.active + 1
      calls := ⟨callee, line, arguments, t.active, t.machine⟩ :: t.calls }
    ⟨by dsimp only; omega, ht.le, ht.moments,
      List.forall_mem_cons.mpr ⟨⟨ht.depth, by dsimp only; omega⟩, ht.calls⟩⟩
  dsimp only at hxy ⊢
  generalize x _ = traced, y t.machine = plain at hxy
  cases hxy with
  | @ok a t' hsound hactive =>
    have hdepth' := hsound.depth
    exact .ok (t := { t' with active := t.active })
      ⟨by dsimp only; omega, hsound.le, hsound.moments, hsound.calls⟩ rfl
  | @error halt t' hsound hactive =>
    have hdepth' := hsound.depth
    exact .error (t := { t' with active := t.active })
      ⟨by dsimp only; omega, hsound.le, hsound.moments, hsound.calls⟩ rfl

theorem tracing_evaluators (fuel : Nat) :
    (tracing 0).OfParts ⟨fuel, evaluate fuel, execute fuel⟩
      ⟨fuel, Operations.machine.evaluate fuel, Operations.machine.execute fuel⟩ := by
  induction fuel with
  | zero =>
    refine ⟨fun e => ?_, fun s => ?_, fun h h' => (tracing 0).loop h h' _⟩
    · change Traces 0 (evaluate 0 e) (Operations.machine.evaluate 0 e)
      rw [evaluate, Operations.evaluate]
      exact (tracing 0).throw _
    · change Traces 0 (execute 0 s) (Operations.machine.execute 0 s)
      rw [execute, Operations.execute]
      exact (tracing 0).throw _
  | succ fuel ih =>
    refine ⟨fun e => ?_, fun s => ?_, fun h h' => (tracing 0).loop h h' _⟩
    · change Traces 0 (evaluate (fuel + 1) e) (Operations.machine.evaluate (fuel + 1) e)
      rw [evaluate, Operations.evaluate, ← Operations.evaluateFormWith_callValue]
      refine Traces.noted (tracing_operations.evaluateFormWith ih.evaluate (fun callee line arguments => ?_) e)
      exact (Traces.callValue ih callee line arguments).invoked callee line arguments
    · change Traces 0 (execute (fuel + 1) s) (Operations.machine.execute (fuel + 1) s)
      rw [execute, Operations.execute]
      exact Traces.noted (tracing_operations.ofCalls.executeForm ih s)

theorem traces_interpret (fuel : Nat) (program : List Stmt) :
    Traces 0 (interpret fuel program) (Evaluation.interpret fuel program) := by
  rw [← machine_interpret]
  exact Traces.bind ((tracing 0).runAll (tracing_evaluators fuel).execute program) fun _ =>
    (tracing 0).pure ()

end Traced

/-- The number of arguments that a value takes, if it is a function or a class. -/
def callArity? (store : Store) : Value → Option Nat
  | .functionRef f => store.functions[f]?.map (·.declaration.arity)
  | .classRef c => some (store.classArity c)
  | _ => none

/-- What is done in a call that is let in. -/
def callBody (run : Stmt → Eval Completion) (callee : Value) (arguments : List Value) :
    Eval Value :=
  match callee with
  | .functionRef f => callFunction run f arguments
  | .classRef c => instantiate run c arguments
  | _ => return .nil

/-- A call of a function or class with as many arguments as it takes. -/
def Invocation.Matches (call : Invocation) : Prop :=
  callArity? call.machine.store call.callee = some call.arguments.length

/-- The call itself fails, whatever bodies of functions do, and changes nothing. -/
def Invocation.Refused (call : Invocation) : Prop :=
  ∀ run, callValue run call.callee call.line call.arguments call.machine =
    .error (.failure ⟨.stackOverflow, call.line⟩) call.machine

/-- The call does what it is for, one call deeper. -/
def Invocation.LetIn (call : Invocation) : Prop :=
  ∀ run, callValue run call.callee call.line call.arguments call.machine =
    asCall (callBody run call.callee call.arguments) call.machine

namespace Invocation
variable {call : Invocation}

theorem callValue_of_matches (h : call.Matches) (run : Stmt → Eval Completion) :
    callValue run call.callee call.line call.arguments call.machine =
      if maxCallDepth ≤ call.machine.callDepth then
        .error (.failure ⟨.stackOverflow, call.line⟩) call.machine
      else
        asCall (callBody run call.callee call.arguments) call.machine := by
  obtain ⟨callee, line, arguments, active, m⟩ := call
  unfold Matches at h
  dsimp only at h ⊢
  have hchecked (body : Eval Value) :
      checkedCall arguments.length line arguments body m =
        if maxCallDepth ≤ m.callDepth then .error (.failure ⟨.stackOverflow, line⟩) m
        else asCall body m := by
    unfold checkedCall
    rw [if_neg (by simp)]
    change (if maxCallDepth ≤ m.callDepth then fail .stackOverflow line else asCall body) m = _
    split <;> rfl
  cases callee with
  | functionRef f =>
    obtain ⟨object, hobject, harity⟩ := Option.map_eq_some_iff.mp h
    rw [← hchecked, ← harity]
    unfold callValue
    have hfunction : function f m = .ok object m := by
      change orFault _ m.store.functions[f]? m = _
      rw [hobject]
      rfl
    change EStateM.bind (function f) _ m = _
    rw [EStateM.bind, hfunction]
    rfl
  | classRef c =>
    have harity := Option.some.inj h
    rw [← hchecked, ← harity]
    rfl
  | nil | bool _ | number _ | string _ | instanceRef _ => cases h

/-- The evaluation does not end with an error of the program. -/
def Unfailing {α : Type} (x : Eval α) : Prop := ∀ m error m', x m ≠ .error (.failure error) m'

theorem Unfailing.bind {α β : Type} {x : Eval α} {f : α → Eval β} (h : Unfailing x)
    (hf : ∀ a, Unfailing (f a)) : Unfailing (x >>= f) := by
  intro m error m'
  change EStateM.bind x f m ≠ _
  have hx := h m
  unfold EStateM.bind
  cases hrun : x m with
  | ok a m'' => exact hf a m'' error m'
  | error halt m'' =>
    rw [hrun] at hx
    intro heq
    cases heq
    exact hx _ _ rfl

theorem Unfailing.pure {α : Type} (a : α) : Unfailing (Pure.pure a) := nofun

theorem Unfailing.orFault {α : Type} (fault : Fault) (a : Option α) :
    Unfailing (Evaluation.orFault fault a) := by
  cases a <;> nofun

/-- Nothing but the statements of a body can fail once a call is let in. -/
theorem unfailing_callFunction (f : FunctionId) (arguments : List Value) :
    Unfailing (callFunction (fun _ => throw .outOfFuel) f arguments) := by
  have hbody (body : List Stmt) (scope : ScopeId) :
      Unfailing (inScope scope (runAll (fun _ => throw .outOfFuel) body)) := by
    cases body with
    | nil => nofun
    | cons s ss => nofun
  refine Unfailing.bind (.bind (fun _ _ _ => nofun) fun _ => .orFault _ _) fun object =>
    .bind (fun _ _ _ => nofun) fun scope => (hbody _ scope).bind fun completion => ?_
  split
  · exact .bind (fun _ _ _ => nofun) fun _ => .pure _
  · split
    · exact .pure _
    · exact .pure _

theorem unfailing_callBody (callee : Value) (arguments : List Value) :
    Unfailing (callBody (fun _ => throw .outOfFuel) callee arguments) := by
  cases callee with
  | functionRef f => exact unfailing_callFunction f arguments
  | classRef c =>
    refine Unfailing.bind (fun _ _ _ => nofun) fun id => .bind (fun _ _ _ => nofun) fun store => ?_
    cases store.findMethod? c FunctionOf.initializerName with
    | none => exact .pure _
    | some init =>
      refine Unfailing.bind (x := bindTo init id) ?_ fun f =>
        (unfailing_callFunction f arguments).bind fun _ => .pure _
      exact .bind (.bind (fun _ _ _ => nofun) fun _ => .orFault _ _) fun _ _ _ _ => nofun
  | nil | bool _ | number _ | string _ | instanceRef _ => exact .pure _

theorem Unfailing.asCall {α : Type} {x : Eval α} (h : Unfailing x) :
    Unfailing (Evaluation.asCall x) := by
  intro m error m'
  have hx := h { m with callDepth := m.callDepth + 1 }
  unfold Evaluation.asCall
  cases hrun : x { m with callDepth := m.callDepth + 1 } with
  | ok a m'' => nofun
  | error halt m'' =>
    rw [hrun] at hx
    intro heq
    cases heq
    exact hx _ _ rfl

/-- A call that fits is refused if as many calls as there may be are in progress, and let in
otherwise, and these are not the same. -/
theorem refused_or_letIn (h : call.Matches) :
    (call.Refused ↔ maxCallDepth ≤ call.machine.callDepth) ∧ (call.LetIn ↔ ¬ call.Refused) := by
  have hcall := callValue_of_matches h
  have hunfailing := (unfailing_callBody call.callee call.arguments).asCall call.machine
    ⟨.stackOverflow, call.line⟩ call.machine
  by_cases hdepth : maxCallDepth ≤ call.machine.callDepth
  · have hrefused : call.Refused := fun run => by rw [hcall, if_pos hdepth]
    refine ⟨iff_of_true hrefused hdepth, iff_of_false (fun hin => ?_) (not_not_intro hrefused)⟩
    exact hunfailing ((hin _).symm.trans (hrefused _))
  · have hin : call.LetIn := fun run => by rw [hcall, if_neg hdepth]
    have hnot : ¬ call.Refused := fun hrefused => hunfailing ((hin _).symm.trans (hrefused _))
    exact ⟨iff_of_false hnot hdepth, iff_of_true hin hnot⟩

end Invocation
end Lox.Evaluation
