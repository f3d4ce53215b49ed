import Lox.Proofs.Evaluation.Annotated
import Lox.Proofs.Resolution.Exact

/-!
# Watched machines

A watched machine does what a machine does, and takes down every use of a name: each evaluation of a
variable, of `this` and of `super`, and each assignment. It knows besides in the declaration of
which name the running code directly stands, if in any; the code of a function that is called from
there does not.
-/
namespace Lox.Evaluation

/-- One use of a name. -/
structure Lookup where
  reference : Reference
  /-- The name whose declaration is under way and directly contains the reference. -/
  declaring : Option String
  /-- The machine when the name is used. -/
  before : Machine
  /-- The value that was read or assigned. -/
  result : Except Halt Value

structure Watched where
  machine : Machine
  declaring : Option String := none
  lookups : Array Lookup := #[]

namespace Watched
open Annotated (lift)
variable {α : Type}

/-- A watched machine in which nothing was run yet. -/
def initial : Watched := { machine := .initial }

instance : Annotated Watched where
  machine t := t.machine
  withMachine t machine := { t with machine }

/-- A step of the machine that uses a name. -/
def noted (reference : Reference) (valueOf : α → Value) (step : Eval α) :
    EStateM Halt Watched α := fun t =>
  let note (result : Except Halt Value) (machine : Machine) : Watched :=
    { t with
      machine
      lookups := t.lookups.push ⟨reference, t.declaring, t.machine, result⟩ }
  match step t.machine with
  | .ok a machine => .ok a (note (.ok (valueOf a)) machine)
  | .error halt machine => .error halt (note (.error halt) machine)

/-- The code that follows stands in the declaration of a name, or in none. -/
def setDeclaring (name : Option String) : EStateM Halt Watched Unit :=
  modify fun t => { t with declaring := name }

/-- Runs code in a scope, outside of the declaration that is under way. -/
def inScope (scope : ScopeId) (step : EStateM Halt Watched α) : EStateM Halt Watched α := fun t =>
  leaving (fun after => { after with declaring := t.declaring })
    (Annotated.inScope scope step { t with declaring := none })

/-- Only the language itself uses the name `this`. -/
def readKind (name : String) : ReferenceKind := if name = "this" then .this else .variable

/-- The operations of watched machines. -/
def operations : Operations Watched where
  store t := t.machine.store
  callDepth t := t.machine.callDepth
  asCall := Annotated.asCall
  printLine text := lift (Operations.machine.printLine text)
  readVariable id name :=
    noted ⟨readKind name.text, id, name⟩ (fun v => v) (Operations.machine.readVariable id name)
  writeVariable id name v :=
    noted ⟨.assign, id, name⟩ (fun _ => v) (Operations.machine.writeVariable id name v)
  superMethod id line method :=
    noted ⟨.super, id, ⟨method.text, line⟩⟩ (fun v => v)
      (Operations.machine.superMethod id line method)
  setField id name v := lift (Operations.machine.setField id name v)
  newInstance c := lift (Operations.machine.newInstance c)
  bindTo f receiver := lift (Operations.machine.bindTo f receiver)
  declare name := do
    lift (Operations.machine.declare name)
    setDeclaring (some name)
  define name v := do
    lift (Operations.machine.define name v)
    setDeclaring none
  newFunction declaration := lift (Operations.machine.newFunction declaration)
  newClass name superclass methods := do
    lift (Operations.machine.newClass name superclass methods)
    setDeclaring none
  inBlock body := do
    let m := (← get).machine
    let scope ← lift (allocate (·.newScope { enclosing := some m.scope }))
    inScope scope body
  inCall _ object arguments body := do
    let bindings := bindArguments object.declaration.parameters arguments
    let scope ← lift (allocate (·.newScope { bindings, enclosing := some object.closure }))
    inScope scope body
  receiver object := lift (Operations.machine.receiver object)

end Watched

namespace Lookup

/-- The distance that the static pass has recorded. -/
def distance? (l : Lookup) : Option Nat := l.before.distances.find? l.reference.id

/-- The scope that the recorded distance leads to binds the name. -/
def LeadsTo (l : Lookup) (d : Nat) : Prop :=
  ∃ scope v, l.before.store.ancestor? d l.before.scope = some scope ∧
    l.before.store.findLocal? scope l.reference.sought = some v

/-- The use of a name has found what the static pass promised. -/
structure Found (l : Lookup) : Prop where
  /-- Where a reference that is read has a distance, its name is bound there. -/
  bound : l.reference.kind ≠ .assign → ∀ d, l.distance? = some d → l.LeadsTo d
  /-- `this` and `super` have distances. -/
  resolved : l.reference.kind = .this ∨ l.reference.kind = .super → ∃ d, l.distance? = some d
  /-- If a variable is undefined, then the reference has resolved to the globals. -/
  undefined : ∀ x line, l.result = .error (.failure ⟨.undefinedVariable x, line⟩) →
    l.distance? = none ∧ l.reference.name = ⟨x, line⟩
  /-- `super` is not used outside of a class. -/
  inClass : ∀ line, l.result ≠ .error (.failure ⟨.superOutsideClass, line⟩)
  /-- A variable that is read in its own initializer has a value. -/
  initialized : l.reference.kind = .variable → l.declaring = some l.reference.name.text →
    ∃ v, l.result = .ok v

/-- A reference whose name is bound where its distance leads is found, unless the step says that a
variable or a class is missing. -/
theorem Found.of_leadsTo {l : Lookup} {d : Nat} (hd : l.distance? = some d) (hleads : l.LeadsTo d)
    (hundefined : ∀ x line, l.result ≠ .error (.failure ⟨.undefinedVariable x, line⟩))
    (hinClass : ∀ line, l.result ≠ .error (.failure ⟨.superOutsideClass, line⟩))
    (hread : l.reference.kind = .variable → ∃ v, l.result = .ok v) : l.Found where
  bound _ d' hd' := by
    cases hd.symm.trans hd'
    exact hleads
  resolved _ := ⟨d, hd⟩
  undefined x line h := absurd h (hundefined x line)
  inClass := hinClass
  initialized hvariable _ := hread hvariable

end Lookup
end Lox.Evaluation
