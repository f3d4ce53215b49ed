import Lox.Proofs.Evaluation.Annotated

/-!
# Observed machines

An observed machine does what a machine does, and it knows besides for which execution of a class
declaration and for which instance each function runs. It takes down every evaluation of `super`.
-/
namespace Lox.Evaluation

/-- What `super` and `this` are for the code of a method and the functions inside it, in one
invocation: the superclass that the innermost class declaration around the code had when it was
executed, and the instance that the method is bound to. -/
structure Home where
  superclass : Option ClassId := none
  receiver : Option InstanceId := none
  deriving DecidableEq

/-- One evaluation of `super`, with the stores before and after it. -/
structure SuperCall where
  home : Home
  method : Name
  before : Store
  result : Except Halt Value
  after : Store

structure Observed where
  machine : Machine
  /-- The homes of the functions, by their numbers. -/
  homes : Array Home := #[]
  /-- The home of the code that runs. -/
  home : Home := {}
  calls : Array SuperCall := #[]

namespace Observed
open Annotated (lift)
variable {α : Type}

/-- An observed machine in which nothing was run yet. -/
def initial : Observed := { machine := .initial }

instance : Annotated Observed where
  machine o := o.machine
  withMachine o machine := { o with machine }

def homeOf (o : Observed) (f : FunctionId) : Home := o.homes[f]?.getD {}

/-- Notes the homes of the functions that are made next. -/
def addHomes (homes : Array Home) : EStateM Halt Observed Unit :=
  modify fun o => { o with homes := o.homes ++ homes }

/-- Runs code of a home in a scope. -/
def inScope (scope : ScopeId) (home : Home) (step : EStateM Halt Observed α) :
    EStateM Halt Observed α := fun o =>
  leaving (fun after => { after with home := o.home })
    (Annotated.inScope scope step { o with home })

/-- A bound method runs for the class of the method and for the receiver. -/
def bindTo (f : FunctionId) (receiver : InstanceId) : EStateM Halt Observed FunctionId := do
  let home := (← get).homeOf f
  addHomes #[{ home with receiver := some receiver }]
  lift (Evaluation.bindTo f receiver)

def lookUpSuper (id : NodeId) (line : Nat) (method : Name) : EStateM Halt Observed Value := do
  match (← get).machine.distances.find? id with
  | none => Operations.fail .superOutsideClass line
  | some distance =>
    let superclass ← lift (superclassAt distance)
    let receiver ← lift (receiverInside distance)
    match (← get).machine.store.findMethod? superclass method.text with
    | some f => return .functionRef (← bindTo f receiver)
    | none => Operations.fail (.undefinedProperty method.text) method.line

/-- Evaluates `super` and takes it down. -/
def superMethod (id : NodeId) (line : Nat) (method : Name) : EStateM Halt Observed Value := fun o =>
  let note (result : Except Halt Value) (after : Observed) : Observed :=
    let call : SuperCall := ⟨o.home, method, o.machine.store, result, after.machine.store⟩
    { after with calls := after.calls.push call }
  match lookUpSuper id line method o with
  | .ok v after => .ok v (note (.ok v) after)
  | .error halt after => .error halt (note (.error halt) after)

/-- The operations of observed machines. The methods of a class run for its superclass; other
functions run for what the code around them runs for. -/
def operations : Operations Observed where
  store o := o.machine.store
  callDepth o := o.machine.callDepth
  asCall := Annotated.asCall
  printLine text := lift (Operations.machine.printLine text)
  readVariable id name := lift (Operations.machine.readVariable id name)
  writeVariable id name v := lift (Operations.machine.writeVariable id name v)
  superMethod := superMethod
  setField id name v := lift (Operations.machine.setField id name v)
  newInstance c := lift (Operations.machine.newInstance c)
  bindTo := bindTo
  declare name := lift (Operations.machine.declare name)
  define name v := lift (Operations.machine.define name v)
  newFunction declaration := do
    let home := (← get).home
    addHomes #[home]
    lift (Operations.machine.newFunction declaration)
  newClass name superclass methods := do
    addHomes (Array.replicate methods.length { superclass })
    lift (Operations.machine.newClass name superclass methods)
  inBlock body := do
    let m := (← get).machine
    let scope ← lift (allocate (·.newScope { enclosing := some m.scope }))
    inScope scope (← get).home body
  inCall f object arguments body := do
    let bindings := bindArguments object.declaration.parameters arguments
    let scope ← lift (allocate (·.newScope { bindings, enclosing := some object.closure }))
    inScope scope ((← get).homeOf f) body
  receiver object := lift (Operations.machine.receiver object)

end Observed

/-- The closest definition of a method from a class upwards. -/
inductive Nearest (store : Store) (name : String) : ClassId → FunctionId → Prop where
  | own {c : ClassId} {f : FunctionId} : store.ownMethod? c name = some f → Nearest store name c f
  | inherited {c d : ClassId} {f : FunctionId} : store.ownMethod? c name = none →
    store.superclass? c = some d → Nearest store name d f → Nearest store name c f

/-- `super` has led where it must: to the closest method from the superclass of the home upwards,
bound to the receiver of the home, or to an error if there is no such method. -/
inductive SuperCall.Dispatched : SuperCall → Prop where
  | found {c : ClassId} {i : InstanceId} {method : Name} {before : Store} {f : FunctionId}
    {object : FunctionObject} : Nearest before method.text c f →
    before.functions[f]? = some object →
    Dispatched
      { home := ⟨some c, some i⟩, method, before
        result := .ok (.functionRef (before.bindMethod object i).2)
        after := (before.bindMethod object i).1 }
  | missing {c : ClassId} {i : InstanceId} {method : Name} {before : Store} :
    (∀ f, ¬ Nearest before method.text c f) →
    Dispatched
      { home := ⟨some c, some i⟩, method, before
        result := .error (.failure ⟨.undefinedProperty method.text, method.line⟩)
        after := before }

end Lox.Evaluation
