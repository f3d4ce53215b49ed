import Lox.Proofs.Evaluation.Control
import Lox.Proofs.Evaluation.Tracing
import Lox.Proofs.Record.Recording

/-!
# How bodies and calls come out

The body of a function ends with the first `return` that it executes by itself, or without any. A
call is refused, or the body of a function is run for it, that of the initializer of a class, or
none; what the call results in follows from that.
-/
namespace Lox.Evaluation

/-- A `return` statement has its value. -/
def Event.IsReturn : Event → Prop
  | .returns _ => True
  | .evaluates _ | .executes _ => False

/-- Nothing is returned in the events. -/
def Silent (events : List Event) : Prop := ∀ event ∈ events, ¬ event.IsReturn

/-- What statements have done by themselves, the latest event first, and how they end: a `return` is
the last thing that is done, and its value is returned; without a `return` no value is. -/
def Ends (events : List Event) : Except Halt Completion → Prop
  | .ok (.returned value) => ∃ earlier, events = .returns value :: earlier ∧ Silent earlier
  | .ok .normal | .error _ => Silent events

/-- The value of a call whose body ends so. -/
def Completion.value : Completion → Value
  | .returned value => value
  | .normal => .nil

/-- The result of a call for which the body is run. Whatever the body of an initializer returns, the
value is what `this` is bound to. -/
def Body.result (body : Body) : Except Halt Value :=
  body.ending.map fun completion =>
    if body.object.isInitializer then
      (body.after.findLocal? body.object.closure "this").getD .nil
    else
      completion.value

section
variable {body : Body} {completion : Completion}

/-- A body ends without a halt exactly if the call does. -/
theorem Body.map_result {α : Type} (body : Body) (a : α) :
    body.result.map (fun _ => a) = body.ending.map fun _ => a := by
  unfold result
  cases body.ending <;> rfl

theorem Body.result_of_error {halt : Halt} (h : body.ending = .error halt) :
    body.result = .error halt := by
  rw [result, h]
  rfl

theorem Body.result_of_initializer (h : body.ending = .ok completion)
    (hinitializer : body.object.isInitializer = true) :
    body.result = .ok ((body.after.findLocal? body.object.closure "this").getD .nil) := by
  rw [result, h, hinitializer]
  rfl

theorem Body.result_of_ordinary (h : body.ending = .ok completion)
    (hinitializer : body.object.isInitializer = false) : body.result = .ok completion.value := by
  rw [result, h, hinitializer]
  rfl

end

/-- The body is one run of that of the function. -/
structure Body.Runs (body : Body) (object : FunctionObject) (arguments : List Value)
    (before : Store) : Prop where
  object : body.object = object
  arguments : body.arguments = arguments
  before : body.before = before
  ends : Ends body.events body.ending

/-- Why a call is refused: the value takes no arguments at all or not as many, or else too many
calls are active. -/
def Refusal (callee : Value) (arguments : List Value) (before : Store) (cause : RuntimeError.Cause) :
    Prop :=
  match callArity? before callee with
  | none => cause = .notCallable
  | some arity =>
    cause = if arguments.length ≠ arity then .wrongArgumentCount arity arguments.length
      else .stackOverflow

/-- How a call of a value comes out, with the bodies that are run for it. -/
inductive CallOutcome (callee : Value) (line : Nat) (arguments : List Value) (before : Store)
    (bodies : List Body) (result : Except Halt Value) (after : Store) : Prop where
  | refused {cause : RuntimeError.Cause} : Refusal callee arguments before cause → bodies = [] →
    result = .error (.failure ⟨cause, line⟩) →
      CallOutcome callee line arguments before bodies result after
  | missingFunction {f : FunctionId} : callee = .functionRef f → before.functions[f]? = none →
    CallOutcome callee line arguments before bodies result after
  | missingInitializer {c : ClassId} {init : FunctionId} : callee = .classRef c →
    before.findMethod? c FunctionOf.initializerName = some init → before.functions[init]? = none →
      CallOutcome callee line arguments before bodies result after
  /-- The body of the function is run. -/
  | invoked {f : FunctionId} {object : FunctionObject} {body : Body} : callee = .functionRef f →
    before.functions[f]? = some object → bodies = [body] → body.Runs object arguments before →
    result = body.result → after = body.after →
      CallOutcome callee line arguments before bodies result after
  /-- An instance is made of a class that has no initializer. -/
  | made {c : ClassId} : callee = .classRef c →
    before.findMethod? c FunctionOf.initializerName = none → bodies = [] →
    result = .ok (.instanceRef before.instances.size) → after = (before.newInstance c).1 →
      CallOutcome callee line arguments before bodies result after
  /-- An instance is made, and the body of the initializer is run, bound to it. -/
  | initialized {c : ClassId} {init : FunctionId} {object : FunctionObject} {body : Body} :
    callee = .classRef c → before.findMethod? c FunctionOf.initializerName = some init →
    before.functions[init]? = some object → bodies = [body] →
    body.Runs { object with closure := before.scopes.size } arguments
      ((before.newInstance c).1.bindMethod object before.instances.size).1 →
    result = body.ending.map (fun _ => .instanceRef before.instances.size) → after = body.after →
      CallOutcome callee line arguments before bodies result after

/-- The call has come out as calls do, and afterwards the machine is in the scope and at the depth
in which it was. -/
structure Call.Proper (call : Call) : Prop where
  outcome : CallOutcome call.callee call.line call.arguments call.before.store call.bodies call.result
    call.after.store
  control : call.before.SameControl call.after

/-- A call of a function that is there is refused, or the body of the function is run for it. -/
theorem Call.Proper.of_function {call : Call} (h : call.Proper) {f : FunctionId}
    {object : FunctionObject} (hcallee : call.callee = .functionRef f)
    (hobject : call.before.store.functions[f]? = some object) :
    (∃ cause, Refusal call.callee call.arguments call.before.store cause ∧ call.bodies = [] ∧
        call.result = .error (.failure ⟨cause, call.line⟩)) ∨
      ∃ body, call.bodies = [body] ∧ body.Runs object call.arguments call.before.store ∧
        call.result = body.result := by
  cases h.outcome with
  | refused hrefusal hbodies hresult => exact .inl ⟨_, hrefusal, hbodies, hresult⟩
  | missingFunction hf hmissing =>
    cases hcallee.symm.trans hf
    cases hobject.symm.trans hmissing
  | missingInitializer hc | made hc | initialized hc => cases hcallee.symm.trans hc
  | invoked hf hfound hbodies hruns hresult =>
    cases hcallee.symm.trans hf
    cases hobject.symm.trans hfound
    exact .inr ⟨_, hbodies, hruns, hresult⟩

end Lox.Evaluation
