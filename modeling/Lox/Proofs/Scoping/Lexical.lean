import Lox.Proofs.Evaluation.Steps

/-!
# Lexical scoping

An evaluator of the same rules that has no distances. What names mean at a place is a map from the
names to locations, and no map ever changes: a declaration of a local name makes a new one, with a
fresh location for the name, for the rest of the scope. A function keeps the map of the place where
it was declared. A name that is not in the map is a global variable; it is looked up in one table
when it is used.
-/
namespace Lox.Evaluation

/-- Where the value of a local variable is kept. -/
abbrev Location := Nat

/-- What names mean at a place. -/
structure Environment where
  locations : Bindings Location := {}
  /-- Whether the names that are declared here are local. -/
  isLocal : Bool := false

structure Lexical where
  /-- The functions, classes and instances. The closure of a function is the number of the
  environment that it keeps. -/
  objects : Store := {}
  environments : Array Environment := #[]
  /-- The values at the locations. A variable has none before its initializer is over. -/
  cells : Array (Option Value) := #[]
  globals : Bindings Value := {}
  /-- The environment of the statement that runs. -/
  environment : Environment := {}
  callDepth : Nat := 0
  output : String := ""

namespace Lexical
variable {α : Type}

/-- Adds a fresh location for a name. -/
def extend (l : Lexical) (environment : Environment) (name : String) (v : Option Value) :
    Environment × Lexical :=
  ({ locations := environment.locations.insert name l.cells.size, isLocal := true },
    { l with cells := l.cells.push v })

/-- The value of a local name. -/
def valueOf? (l : Lexical) (environment : Environment) (name : String) : Option Value :=
  (environment.locations.find? name).bind fun location => l.cells[location]?.join

/-- The environment that a function keeps. -/
def environmentOf (l : Lexical) (object : FunctionObject) : Environment :=
  l.environments[object.closure]?.getD {}

/-- The value of a name where it is used. -/
def read (name : Name) : EStateM Halt Lexical Value := fun l =>
  let v :=
    match l.environment.locations.find? name.text with
    | some location => l.cells[location]?.join
    | none => l.globals.find? name.text
  match v with
  | some v => .ok v l
  | none => .error (.failure ⟨.undefinedVariable name.text, name.line⟩) l

/-- Gives the variable that a name means a value. A global variable must have one already. -/
def write (name : Name) (v : Value) : EStateM Halt Lexical Unit := fun l =>
  match l.environment.locations.find? name.text with
  | some location => .ok () { l with cells := l.cells.setIfInBounds location (some v) }
  | none =>
    if l.globals.contains name.text then
      .ok () { l with globals := l.globals.insert name.text v }
    else
      .error (.failure ⟨.undefinedVariable name.text, name.line⟩) l

/-- A local name has a fresh location from here on. -/
def declare (name : String) : EStateM Halt Lexical Unit := fun l =>
  if l.environment.isLocal then
    let (environment, l) := l.extend l.environment name none
    .ok () { l with environment }
  else
    .ok () l

/-- Gives a name that was declared its first value. -/
def define (name : String) (v : Value) : EStateM Halt Lexical Unit := fun l =>
  match l.environment.locations.find? name with
  | some location => .ok () { l with cells := l.cells.setIfInBounds location (some v) }
  | none => .ok () { l with globals := l.globals.insert name v }

/-- Evaluates in an environment; the one before is that after it, however the evaluation ends. -/
def inside (environment : Environment) (step : EStateM Halt Lexical α) :
    EStateM Halt Lexical α := fun l =>
  match step { l with environment } with
  | .ok a after => .ok a { after with environment := l.environment }
  | .error halt after => .error halt { after with environment := l.environment }

def asCall (step : EStateM Halt Lexical α) : EStateM Halt Lexical α := fun l =>
  match step { l with callDepth := l.callDepth + 1 } with
  | .ok a after => .ok a { after with callDepth := after.callDepth - 1 }
  | .error halt after => .error halt { after with callDepth := after.callDepth - 1 }

/-- Makes a function that keeps an environment. -/
def makeFunction (environment : Environment) (declaration : FunctionDecl) (isInitializer : Bool) :
    EStateM Halt Lexical FunctionId := fun l =>
  let (objects, f) :=
    l.objects.newFunction { declaration, closure := l.environments.size, isInitializer }
  .ok f { l with objects, environments := l.environments.push environment }

/-- A method bound to an instance has a location more, for `this`. -/
def bindTo (f : FunctionId) (receiver : InstanceId) : EStateM Halt Lexical FunctionId := do
  let object ← Operations.object (← get).objects.functions[f]?
  let l ← get
  let (environment, l) := l.extend (l.environmentOf object) "this" (some (.instanceRef receiver))
  set l
  makeFunction environment object.declaration object.isInitializer

/-- The environment of the methods of a class. One with a superclass has a location more, for
`super`. -/
def methodEnvironment : Option ClassId → EStateM Halt Lexical Environment
  | none => return (← get).environment
  | some c => do
    let l ← get
    let (environment, l) := l.extend l.environment "super" (some (.classRef c))
    set l
    return environment

/-- Makes a class whose methods keep an environment. -/
def makeClass (environment : Environment) (name : Name) (superclass : Option ClassId)
    (methods : List FunctionDecl) : EStateM Halt Lexical ClassId := fun l =>
  let numbers := methodNumbers l.objects.functions.size methods .empty
  let functions := l.objects.functions ++ (methodObjects l.environments.size methods).toArray
  let (objects, c) :=
    Store.newClass { l.objects with functions } ⟨name.text, superclass, numbers⟩
  .ok c { l with objects, environments := l.environments.push environment }

/-- The method that `super` leads to: `super` and `this` are local names like others. -/
def superMethod (line : Nat) (method : Name) : EStateM Halt Lexical Value := do
  let l ← get
  if l.environment.locations.contains "super" then
    match l.valueOf? l.environment "super", l.valueOf? l.environment "this" with
    | some (.classRef c), some (.instanceRef receiver) =>
      match l.objects.findMethod? c method.text with
      | some f => return .functionRef (← bindTo f receiver)
      | none => Operations.fail (.undefinedProperty method.text) method.line
    | some (.classRef _), _ => throw (.fault .noReceiver)
    | _, _ => throw (.fault .noSuperclass)
  else
    Operations.fail .superOutsideClass line

/-- Adds a location for each parameter, with the argument for it. -/
def bindParameters (l : Lexical) (environment : Environment) :
    List Name → List Value → Environment × Lexical
  | [], _ => (environment, l)
  | name :: names, arguments =>
    let (environment, l) := l.extend environment name.text arguments.head?
    l.bindParameters environment names arguments.tail

def operations : Operations Lexical where
  store l := l.objects
  callDepth l := l.callDepth
  asCall := asCall
  printLine text := modify fun l => { l with output := l.output ++ text ++ "\n" }
  readVariable _ name := read name
  writeVariable _ name v := write name v
  superMethod _ line method := superMethod line method
  setField id name v := modify fun l => { l with objects := l.objects.setField id name v }
  newInstance c := modifyGet fun l =>
    let (objects, id) := l.objects.newInstance c
    (id, { l with objects })
  bindTo := bindTo
  declare := declare
  define := define
  newFunction declaration := do
    makeFunction (← get).environment declaration false
  newClass name superclass methods := do
    define name.text .nil
    let environment ← methodEnvironment superclass
    let c ← makeClass environment name superclass methods
    define name.text (.classRef c)
  inBlock body := do
    inside { (← get).environment with isLocal := true } body
  inCall _ object arguments body := do
    let l ← get
    let closure := { l.environmentOf object with isLocal := true }
    let (environment, l) := l.bindParameters closure object.declaration.parameters arguments
    set l
    inside environment body
  receiver object := do
    let l ← get
    return (l.valueOf? (l.environmentOf object) "this").getD .nil

end Lexical
end Lox.Evaluation
