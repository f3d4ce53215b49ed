import Lox.Evaluation.Calls

/-!
# Properties of the steps of the machine

The steps that read and write variables and bind methods are sequences of a few steps: they look at
the machine, fail, write a variable or bind a method. What holds of these, and of a sequence if it
holds of its parts, holds of all of them.
-/
namespace Lox.Evaluation

/-- A property that a sequence of steps has if its parts have it. -/
structure Sequential (P : {α : Type} → Eval α → Prop) : Prop where
  pure : ∀ {α : Type} (a : α), P (Pure.pure a)
  throw : ∀ {α : Type} (halt : Halt), P (MonadExcept.throw halt : Eval α)
  bind : ∀ {α β : Type} {x : Eval α} {f : α → Eval β}, P x → (∀ a, P (f a)) → P (x >>= f)
  get : P MonadState.get

/-- What the steps that read and write variables consist of has the property too. -/
structure Composable (P : {α : Type} → Eval α → Prop) : Prop extends Sequential P where
  define : ∀ scope name v, P (modifyStore (·.define scope name v))
  bindTo : ∀ f receiver, P (Evaluation.bindTo f receiver)

namespace Sequential
variable {P : {α : Type} → Eval α → Prop} (h : Sequential P)
include h

theorem orFault {α : Type} (fault : Fault) (a : Option α) : P (Evaluation.orFault fault a) := by
  cases a with
  | none => exact h.throw _
  | some a => exact h.pure a

theorem getStore : P Evaluation.getStore := h.bind h.get fun _ => h.pure _

theorem bindTo (hmethod : ∀ object receiver, P (allocate (·.bindMethod object receiver)))
    (f : FunctionId) (receiver : InstanceId) : P (Evaluation.bindTo f receiver) :=
  h.bind (h.bind h.getStore fun _ => h.orFault _ _) fun _ => hmethod _ _

theorem methodScope (hscope : ∀ scope, P (allocate (·.newScope scope)))
    (superclass : Option ClassId) : P (Evaluation.methodScope superclass) := by
  cases superclass with
  | none => exact h.bind h.get fun _ => h.pure _
  | some c => exact h.bind h.get fun _ => hscope _

end Sequential

namespace Composable
variable {P : {α : Type} → Eval α → Prop} (h : Composable P)
include h

theorem readVariable (id : NodeId) (name : Name) : P (Evaluation.readVariable id name) := by
  refine h.bind h.get fun m => ?_
  cases m.distances.find? id with
  | some distance =>
    refine h.bind h.get fun m => h.bind (h.orFault _ _) fun scope => ?_
    split
    · exact h.pure _
    · exact h.throw _
  | none =>
    refine h.bind h.get fun m => ?_
    split
    · exact h.pure _
    · exact h.throw _

theorem writeFrom (scope : ScopeId) (name : Name) (v : Value) :
    P (Evaluation.writeFrom scope name v) := by
  refine h.bind h.getStore fun store => ?_
  cases store.holder? scope name.text with
  | some holder => exact h.define _ _ _
  | none => exact h.throw _

theorem writeVariable (id : NodeId) (name : Name) (v : Value) :
    P (Evaluation.writeVariable id name v) := by
  refine h.bind h.get fun m => ?_
  cases m.distances.find? id with
  | some distance =>
    exact h.bind h.get fun m => h.bind (h.orFault _ _) fun scope => h.define _ _ _
  | none => exact h.writeFrom _ name v

theorem superclassAt (distance : Nat) : P (Evaluation.superclassAt distance) := by
  refine h.bind h.get fun m => h.bind (h.orFault _ _) fun scope => ?_
  split
  · exact h.pure _
  · exact h.throw _

theorem receiverInside (distance : Nat) : P (Evaluation.receiverInside distance) := by
  cases distance with
  | zero => exact h.throw _
  | succ distance =>
    refine h.bind h.get fun m => h.bind (h.orFault _ _) fun scope => ?_
    split
    · exact h.pure _
    · exact h.throw _

theorem superMethod (id : NodeId) (line : Nat) (method : Name) :
    P (Evaluation.superMethod id line method) := by
  refine h.bind h.get fun m => ?_
  cases m.distances.find? id with
  | none => exact h.throw _
  | some distance =>
    refine h.bind (h.superclassAt distance) fun c => h.bind (h.receiverInside distance) fun i =>
      h.bind h.getStore fun store => ?_
    cases store.findMethod? c method.text with
    | some f => exact h.bind (h.bindTo f i) fun _ => h.pure _
    | none => exact h.throw _

theorem readProperty (i : InstanceId) (name : Name) : P (Evaluation.readProperty i name) := by
  refine h.bind h.getStore fun store => ?_
  cases store.field? i name.text with
  | some v => exact h.pure v
  | none =>
    refine h.bind h.getStore fun store =>
      h.bind (h.bind h.getStore fun _ => h.orFault _ _) fun c => ?_
    cases store.findMethod? c name.text with
    | some f => exact h.bind (h.bindTo f i) fun _ => h.pure _
    | none => exact h.throw _

end Composable
end Lox.Evaluation
