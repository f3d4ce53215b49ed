import Lox.Proofs.Evaluation.Annotated
import Lox.Proofs.Store.Covers

/-!
# Marked machines

A marked machine does what a machine does, and it knows besides from which instance each function
was got. A method that is read from an instance, that is found by `super` in the code of an instance
or that initializes a new instance is marked with that instance. A function that is declared in
marked code has the mark of that code; the methods of a class have no marks of their own. Code runs
under the mark of its function, whoever calls it.

Nothing depends on the marks. The machine takes down every evaluation of `this` with the mark of the
code that it stands in, every method that is bound, and the store before every operation.
-/
namespace Lox

/-- What `this` and `super` are bound to in a store is the same in the other. -/
def Store.KeepsSpecial (a b : Store) : Prop :=
  ∀ scope name v, Evaluation.Special name → a.findLocal? scope name = some v →
    b.findLocal? scope name = some v

namespace Evaluation

/-- One evaluation of `this`. -/
structure ThisRead where
  /-- The mark of the code that runs. -/
  receiver : Option InstanceId
  result : Except Halt Value

/-- The binding of one method, with the stores before and after it. -/
structure MethodBinding where
  /-- The instance that the method was got from. -/
  receiver : Option InstanceId
  before : Store
  bound : FunctionId
  after : Store

structure Marked where
  machine : Machine
  /-- The marks of the functions. -/
  receivers : FunctionId → Option InstanceId := fun _ => none
  /-- The mark of the code that runs. -/
  receiver : Option InstanceId := none
  reads : List ThisRead := []
  bindings : List MethodBinding := []
  /-- The stores before the operations, the latest one first. -/
  stores : List Store := []

namespace Marked
open Annotated (lift)
variable {α : Type}

/-- A marked machine in which nothing was run yet. -/
def initial : Marked := { machine := .initial }

instance : Annotated Marked where
  machine t := t.machine
  withMachine t machine := { t with machine }

/-- An operation, before which the store is taken down. -/
def noted (step : EStateM Halt Marked α) : EStateM Halt Marked α := fun t =>
  step { t with stores := t.machine.store :: t.stores }

def mark (f : FunctionId) (receiver : Option InstanceId) : EStateM Halt Marked Unit :=
  modify fun t => { t with receivers := Function.update t.receivers f receiver }

/-- Marks a method that was bound, and takes the binding down. -/
def noteBinding (receiver : Option InstanceId) (before : Store) (bound : FunctionId) :
    EStateM Halt Marked Unit := do
  mark bound receiver
  modify fun t => { t with bindings := ⟨receiver, before, bound, t.machine.store⟩ :: t.bindings }

def bindTo (f : FunctionId) (receiver : InstanceId) : EStateM Halt Marked FunctionId := do
  let before := (← get).machine.store
  let bound ← lift (Evaluation.bindTo f receiver)
  noteBinding (some receiver) before bound
  return bound

/-- A method that `super` finds is got from the instance whose code runs. -/
def superMethod (id : NodeId) (line : Nat) (method : Name) : EStateM Halt Marked Value := do
  let before ← get
  let v ← lift (Evaluation.superMethod id line method)
  if let .functionRef bound := v then
    noteBinding before.receiver before.machine.store bound
  return v

/-- An evaluation of `this`, which is taken down. -/
def readThis (step : Eval Value) : EStateM Halt Marked Value := fun t =>
  let result := lift step t
  leaving (fun after => { after with reads := ⟨t.receiver, resultOf result⟩ :: after.reads }) result

/-- Runs code under a mark in a scope. -/
def inScope (scope : ScopeId) (receiver : Option InstanceId) (step : EStateM Halt Marked α) :
    EStateM Halt Marked α := fun t =>
  leaving (fun after => { after with receiver := t.receiver })
    (Annotated.inScope scope step { t with receiver })

/-- The operations of marked machines. Only the language itself uses the name `this`. -/
def operations : Operations Marked where
  store t := t.machine.store
  callDepth t := t.machine.callDepth
  asCall := Annotated.asCall
  printLine text := noted (lift (Operations.machine.printLine text))
  readVariable id name :=
    let read := Operations.machine.readVariable id name
    noted (if name.text = "this" then readThis read else lift read)
  writeVariable id name v := noted (lift (Operations.machine.writeVariable id name v))
  superMethod id line method := noted (superMethod id line method)
  setField id name v := noted (lift (Operations.machine.setField id name v))
  newInstance c := noted (lift (Operations.machine.newInstance c))
  bindTo f receiver := noted (bindTo f receiver)
  declare name := noted (lift (Operations.machine.declare name))
  define name v := noted (lift (Operations.machine.define name v))
  newFunction declaration := noted do
    let f ← lift (Operations.machine.newFunction declaration)
    mark f (← get).receiver
    return f
  newClass name superclass methods :=
    noted (lift (Operations.machine.newClass name superclass methods))
  inBlock body := noted do
    let t ← get
    let scope ← lift (allocate (·.newScope { enclosing := some t.machine.scope }))
    inScope scope t.receiver body
  inCall f object arguments body := noted do
    let bindings := bindArguments object.declaration.parameters arguments
    let scope ← lift (allocate (·.newScope { bindings, enclosing := some object.closure }))
    inScope scope ((← get).receivers f) body
  receiver object := noted (lift (Operations.machine.receiver object))

end Marked

/-- `this` has been the instance that the running code was got from. -/
def ThisRead.Faithful (read : ThisRead) : Prop :=
  ∃ i, read.receiver = some i ∧ read.result = .ok (.instanceRef i)

/-- One scope was added, in which `this` is the instance that the method was got from, and a copy of
a function that closes over it. Nothing else has changed. -/
inductive MethodBinding.Exact : MethodBinding → Prop where
  | intro {i : InstanceId} {f : FunctionId} {object : FunctionObject} {before : Store} :
    before.functions[f]? = some object →
    Exact
      { receiver := some i
        before
        bound := before.functions.size
        after :=
          { before with
            scopes := before.scopes.push
              { bindings := Bindings.empty.insert "this" (.instanceRef i)
                enclosing := some object.closure }
            functions := before.functions.push { object with closure := before.scopes.size } } }

end Evaluation
end Lox
