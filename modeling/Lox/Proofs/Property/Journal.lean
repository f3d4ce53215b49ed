import Lox.Proofs.Evaluation.Annotated
import Lox.Proofs.Evaluation.Steps

/-!
# Journals of objects

A journaling machine does what a machine does. It enters in a journal which classes are declared and
which instances are made, and every property that is stored on an instance or read from one, with the
stores before and after. From the entries alone can be told what a property of an instance must be.
-/
namespace Lox.Evaluation
open Operations

/-- A class as it was declared. -/
structure ClassDeclaration where
  superclass : Option ClassId
  /-- The scope that the methods close over. -/
  closure : ScopeId
  methods : List FunctionDecl

/-- The method that a class declares under a name; of several ones the last. -/
def ClassDeclaration.method? (declaration : ClassDeclaration) (name : String) :
    Option FunctionObject :=
  (declaration.methods.reverse.find? (·.name.text == name)).map fun method =>
    ⟨method, declaration.closure, method.isInitializer⟩

inductive Deed where
  | declares (c : ClassId) (declaration : ClassDeclaration)
  | creates (i : InstanceId) (c : ClassId)
  | stores (i : InstanceId) (name : String) (value : Value)
  /-- A property is read, with that result. -/
  | reads (i : InstanceId) (name : Name) (result : Except Halt Value)

structure Entry where
  deed : Deed
  before : Store
  after : Store

/-- The latest entry is the first one. -/
abbrev Journal := List Entry

namespace Journal

/-- How a class was declared. -/
def declaration? (journal : Journal) (c : ClassId) : Option ClassDeclaration :=
  journal.findSome? fun entry =>
    match entry.deed with
    | .declares d declaration => if d = c then some declaration else none
    | .creates _ _ | .stores _ _ _ | .reads _ _ _ => none

/-- The class of an instance. -/
def class? (journal : Journal) (i : InstanceId) : Option ClassId :=
  journal.findSome? fun entry =>
    match entry.deed with
    | .creates j c => if j = i then some c else none
    | .declares _ _ | .stores _ _ _ | .reads _ _ _ => none

/-- The value that was last stored on an instance under a name. -/
def stored? (journal : Journal) (i : InstanceId) (name : String) : Option Value :=
  journal.findSome? fun entry =>
    match entry.deed with
    | .stores j other value => if j = i ∧ other = name then some value else none
    | .declares _ _ | .creates _ _ | .reads _ _ _ => none

/-- The method of a class: that of the closest class, from the class itself upwards, whose declaration
contains one under the name. -/
inductive Provides (journal : Journal) (name : String) : ClassId → FunctionObject → Prop where
  | own {c : ClassId} {declaration : ClassDeclaration} {method : FunctionObject} :
    journal.declaration? c = some declaration → declaration.method? name = some method →
    Provides journal name c method
  | inherited {c superclass : ClassId} {declaration : ClassDeclaration} {method : FunctionObject} :
    journal.declaration? c = some declaration → declaration.method? name = none →
    declaration.superclass = some superclass → Provides journal name superclass method →
    Provides journal name c method

/-- What reading a property of an instance must lead to, and the store afterwards: the value that was
last stored, or else the method of its class bound to it, or else an error. -/
inductive Answers (journal : Journal) (i : InstanceId) (name : Name) (store : Store) :
    Except Halt Value → Store → Prop where
  | field {v : Value} : journal.stored? i name.text = some v →
    Answers journal i name store (.ok v) store
  | method {c : ClassId} {method : FunctionObject} : journal.stored? i name.text = none →
    journal.class? i = some c → journal.Provides name.text c method →
    Answers journal i name store (.ok (.functionRef (store.bindMethod method i).2))
      (store.bindMethod method i).1
  | undefined {c : ClassId} : journal.stored? i name.text = none → journal.class? i = some c →
    (∀ method, ¬ journal.Provides name.text c method) →
    Answers journal i name store
      (.error (.failure ⟨.undefinedProperty name.text, name.line⟩)) store

end Journal

/-- Between the stores a value was stored on an instance, and nothing else: neither the code nor any
class, nor another instance or another property of this one. So `super` leads to the same in both. -/
structure Stored (before after : Store) (i : InstanceId) (name : String) (v : Value) : Prop where
  scopes : after.scopes = before.scopes
  functions : after.functions = before.functions
  classes : after.classes = before.classes
  instances : ∀ j : InstanceId,
    after.instances[j]?.map (·.classId) = before.instances[j]?.map (·.classId)
  property : after.field? i name = some v
  others : ∀ j other, ¬ (j = i ∧ other = name) → after.field? j other = before.field? j other
  super : ∀ (m : Machine) id line method,
    superMethod id line method { m with store := after } =
      leaving (fun ended => { ended with store := ended.store.setField i name v })
        (superMethod id line method { m with store := before })

/-- An entry is as it must be after the earlier ones. Classes and instances are new, and there was
what they refer to. -/
def Entry.Exact (entry : Entry) (earlier : Journal) : Prop :=
  match entry.deed with
  | .declares c declaration => earlier.declaration? c = none ∧
    ∀ superclass ∈ declaration.superclass, (earlier.declaration? superclass).isSome
  | .creates i c => earlier.class? i = none ∧ (earlier.declaration? c).isSome
  | .stores i name v => (earlier.class? i).isSome ∧ Stored entry.before entry.after i name v
  | .reads i name result => earlier.Answers i name entry.before result entry.after

structure Journaled where
  machine : Machine
  entries : Journal := []

namespace Journaled
open Annotated (lift)
variable {α : Type}

instance : Annotated Journaled where
  machine t := t.machine
  withMachine t machine := { t with machine }

/-- Does what the machine does and enters it. -/
def entering (deed : Machine → Except Halt α → Deed) (x : Eval α) : EStateM Halt Journaled α :=
  fun t =>
    let result := x t.machine
    let entry : Entry :=
      ⟨deed t.machine (resultOf result), t.machine.store, (stateOf result).store⟩
    leaving (fun after => { after with entries := entry :: after.entries }) (lift x t)

/-- The class that is declared next. -/
def declaring (name : Name) (superclass : Option ClassId) (methods : List FunctionDecl)
    (m : Machine) : Deed :=
  let defined := m.store.define m.scope name.text .nil
  .declares m.store.classes.size
    ⟨superclass, (withMethodScope defined m.scope superclass).2, methods⟩

/-- The operations of journaling machines. -/
def operations : Operations Journaled where
  store t := t.machine.store
  callDepth t := t.machine.callDepth
  asCall := Annotated.asCall
  printLine text := lift (Operations.machine.printLine text)
  readVariable id name := lift (Operations.machine.readVariable id name)
  writeVariable id name v := lift (Operations.machine.writeVariable id name v)
  superMethod id line method := lift (Operations.machine.superMethod id line method)
  setField i name v := entering (fun _ _ => .stores i name v) (Operations.machine.setField i name v)
  newInstance c :=
    entering (fun m _ => .creates m.store.instances.size c) (Operations.machine.newInstance c)
  bindTo f receiver := lift (Operations.machine.bindTo f receiver)
  declare name := lift (Operations.machine.declare name)
  define name v := lift (Operations.machine.define name v)
  newFunction declaration := lift (Operations.machine.newFunction declaration)
  newClass name superclass methods :=
    entering (fun m _ => declaring name superclass methods m)
      (Operations.machine.newClass name superclass methods)
  inBlock x := do
    let enclosing := some (← get).machine.scope
    let scope ← lift (allocate (·.newScope { enclosing }))
    Annotated.inScope scope x
  inCall _ object arguments x := do
    let bindings := bindArguments object.declaration.parameters arguments
    let scope ← lift (allocate (·.newScope { bindings, enclosing := some object.closure }))
    Annotated.inScope scope x
  receiver object := lift (Operations.machine.receiver object)

/-- The rules for expressions. A property that is read is entered. -/
def evaluateForm (parts : Parts Journaled) : Expr → EStateM Halt Journaled Value
  | .get object name => do
    match ← parts.evaluate object with
    | .instanceRef i => entering (fun _ result => .reads i name result) (readProperty i name)
    | _ => Operations.fail .propertyOfNonInstance name.line
  | e => operations.evaluateForm parts e

mutual

def evaluate : (fuel : Nat) → Expr → EStateM Halt Journaled Value
  | 0, _ => throw .outOfFuel
  | fuel + 1, e => evaluateForm ⟨fuel, evaluate fuel, execute fuel⟩ e

def execute : (fuel : Nat) → Stmt → EStateM Halt Journaled Completion
  | 0, _ => throw .outOfFuel
  | fuel + 1, s => operations.executeForm ⟨fuel, evaluate fuel, execute fuel⟩ s

end

/-- Runs a program and enters what it does with objects. -/
def interpret (fuel : Nat) (program : List Stmt) : EStateM Halt Journaled Unit := do
  let _ ← runAll (execute fuel) program

end Journaled
end Lox.Evaluation
