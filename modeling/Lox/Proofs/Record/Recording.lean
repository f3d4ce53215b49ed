import Lox.Proofs.Evaluation.Annotated
import Lox.Proofs.Evaluation.Hooks

/-!
# Recording machines

A recording machine does what a machine does, and nothing depends on what it records. It takes down
every step of the machine with the stores before and after it. Of the body of a function it takes
down which expressions and statements the body evaluates and executes by itself, and which value it
returns; what is done in functions that it calls belongs to their bodies. Of each call it takes down
the bodies that were run for it, and how it has ended.
-/
namespace Lox.Evaluation

/-- What a step of the machine is for. -/
inductive Action where
  /-- The declaration of a name begins. -/
  | begins (name : String)
  /-- A declaration gives its name a value in the running scope. -/
  | declares (name : String)
  | assigns (id : NodeId) (name : Name) (value : Value)
  /-- A new scope is opened for a block or a body. -/
  | opens
  | other

/-- The name whose declaration is under way after an action. -/
def Action.declaring (before : Option String) : Action → Option String
  | .begins name => some name
  | .declares _ => none
  | .assigns _ _ _ | .opens | .other => before

/-- One step of the machine. -/
structure Step where
  action : Action
  /-- The name whose declaration is under way and directly contains what is done. -/
  declaring : Option String
  before : Machine
  result : Except Halt Unit
  after : Machine

/-- What the body of a function does by itself. -/
inductive Event where
  | evaluates (e : Expr)
  | executes (s : Stmt)
  /-- A `return` statement has the value. -/
  | returns (value : Value)

/-- One run of the body of a function. -/
structure Body where
  object : FunctionObject
  arguments : List Value
  /-- The store when the body is started. -/
  before : Store
  /-- What the body has done by itself, the latest event first. -/
  events : List Event
  ending : Except Halt Completion
  after : Store

/-- One call of a value. -/
structure Call where
  callee : Value
  line : Nat
  arguments : List Value
  before : Machine
  /-- The bodies that were run for the call itself, the latest one first. -/
  bodies : List Body
  result : Except Halt Value
  after : Machine

structure Recorded where
  machine : Machine
  declaring : Option String := none
  /-- The latest step is the first one, and so with all that is recorded. -/
  steps : List Step := []
  /-- What the running body has done so far. -/
  events : List Event := []
  /-- The bodies that were run for the call in progress. -/
  bodies : List Body := []
  /-- The calls that have ended. -/
  calls : List Call := []

namespace Recorded
variable {α : Type}

instance : Annotated Recorded where
  machine t := t.machine
  withMachine t machine := { t with machine }

/-- A step of the machine, which is taken down. -/
def step (action : Action) (x : Eval α) : EStateM Halt Recorded α := fun t =>
  let after (result : Except Halt Unit) (machine : Machine) : Recorded :=
    { t with
      machine
      declaring := action.declaring t.declaring
      steps := ⟨action, t.declaring, t.machine, result, machine⟩ :: t.steps }
  match x t.machine with
  | .ok a machine => .ok a (after (.ok ()) machine)
  | .error halt machine => .error halt (after (.error halt) machine)

/-- Runs code in a scope, outside of the declaration that is under way. -/
def inScope (scope : ScopeId) (x : EStateM Halt Recorded α) : EStateM Halt Recorded α := fun t =>
  leaving (fun after => { after with declaring := t.declaring })
    (Annotated.inScope scope x { t with declaring := none })

/-- Runs the body of a function, which is taken down with what it does by itself. -/
def inBody (object : FunctionObject) (arguments : List Value) (x : EStateM Halt Recorded Completion) :
    EStateM Halt Recorded Completion := fun t =>
  let result := x { t with events := [] }
  let ended := stateOf result
  let body : Body :=
    ⟨object, arguments, t.machine.store, ended.events, resultOf result, ended.machine.store⟩
  leaving (fun after => { after with events := t.events, bodies := body :: after.bodies }) result

/-- The operations of recording machines. -/
def operations : Operations Recorded where
  store t := t.machine.store
  callDepth t := t.machine.callDepth
  asCall := Annotated.asCall
  printLine text := step .other (Operations.machine.printLine text)
  readVariable id name := step .other (Operations.machine.readVariable id name)
  writeVariable id name v := step (.assigns id name v) (Operations.machine.writeVariable id name v)
  superMethod id line method := step .other (Operations.machine.superMethod id line method)
  setField id name v := step .other (Operations.machine.setField id name v)
  newInstance c := step .other (Operations.machine.newInstance c)
  bindTo f receiver := step .other (Operations.machine.bindTo f receiver)
  declare name := step (.begins name) (Operations.machine.declare name)
  define name v := step (.declares name) (Operations.machine.define name v)
  newFunction declaration := step .other (Operations.machine.newFunction declaration)
  newClass name superclass methods :=
    step (.declares name.text) (Operations.machine.newClass name superclass methods)
  inBlock x := do
    let enclosing := some (← get).machine.scope
    let scope ← step .opens (allocate (·.newScope { enclosing }))
    inScope scope x
  inCall _ object arguments x := inBody object arguments do
    let bindings := bindArguments object.declaration.parameters arguments
    let scope ← step .opens (allocate (·.newScope { bindings, enclosing := some object.closure }))
    inScope scope x
  receiver object := step .other (Operations.machine.receiver object)

def note (event : Event) : EStateM Halt Recorded Unit :=
  modify fun t => { t with events := event :: t.events }

/-- What has happened when a statement has ended. -/
def eventOf? : Stmt → Completion → Option Event
  | .returnWith _ _, .returned value => some (.returns value)
  | _, _ => none

/-- Calls a value; the bodies that are run for it are taken down with the call. -/
def inCallOf (callee : Value) (line : Nat) (arguments : List Value)
    (x : EStateM Halt Recorded Value) : EStateM Halt Recorded Value := fun t =>
  let result := x { t with bodies := [] }
  let ended := stateOf result
  let call : Call :=
    ⟨callee, line, arguments, t.machine, ended.bodies, resultOf result, ended.machine⟩
  leaving (fun after => { after with bodies := t.bodies, calls := call :: after.calls }) result

/-- Expressions, statements and calls are taken down. -/
def hooks : Hooks Recorded where
  expression e x := do
    note (.evaluates e)
    x
  statement s x := do
    note (.executes s)
    let completion ← x
    if let some event := eventOf? s completion then note event
    return completion
  call := inCallOf

/-- Runs a program and records what it does. -/
def interpret (fuel : Nat) (program : List Stmt) : EStateM Halt Recorded Unit :=
  hooks.interpret operations fuel program

end Recorded
end Lox.Evaluation
