import Lox.Evaluation.Evaluator

/-!
# The rules over any state

The rules for expressions and statements do not depend on how scopes are kept. Here they are
stated once for states of any type, given the operations that do depend on it. The evaluator of the
machine is the case in which the operations are those of the machine.
-/
namespace Lox.Evaluation

/-- What the rules need of a state. -/
structure Operations (σ : Type) where
  /-- The functions, classes and instances. -/
  store : σ → Store
  callDepth : σ → Nat
  asCall : EStateM Halt σ Value → EStateM Halt σ Value
  printLine : String → EStateM Halt σ Unit
  readVariable : NodeId → Name → EStateM Halt σ Value
  writeVariable : NodeId → Name → Value → EStateM Halt σ Unit
  /-- A method looked up from the superclass on and bound to `this`. -/
  superMethod : NodeId → (line : Nat) → (method : Name) → EStateM Halt σ Value
  setField : InstanceId → String → Value → EStateM Halt σ Unit
  newInstance : ClassId → EStateM Halt σ InstanceId
  bindTo : FunctionId → InstanceId → EStateM Halt σ FunctionId
  /-- Tells that the rest of the running scope has a variable of this name. -/
  declare : String → EStateM Halt σ Unit
  /-- Gives a variable that was declared in the running scope its first value. -/
  define : String → Value → EStateM Halt σ Unit
  /-- Makes a function that closes over the running scope. -/
  newFunction : FunctionDecl → EStateM Halt σ FunctionId
  /-- Makes a class and its methods, and binds its name, which was declared. -/
  newClass : Name → Option ClassId → List FunctionDecl → EStateM Halt σ Unit
  /-- Executes in a new scope inside the running one. -/
  inBlock : EStateM Halt σ Completion → EStateM Halt σ Completion
  /-- Executes the body of a function in a new scope with its arguments. -/
  inCall : FunctionId → FunctionObject → List Value → EStateM Halt σ Completion →
    EStateM Halt σ Completion
  /-- What `this` is for a bound method. -/
  receiver : FunctionObject → EStateM Halt σ Value

namespace Operations
variable {σ α : Type}

/-- How the parts of an expression or statement are evaluated. -/
structure Parts (σ : Type) where
  /-- How often a loop may repeat. -/
  limit : Nat
  evaluate : Expr → EStateM Halt σ Value
  execute : Stmt → EStateM Halt σ Completion

def fail (cause : RuntimeError.Cause) (line : Nat) : EStateM Halt σ α :=
  throw (.failure ⟨cause, line⟩)

/-- The result of an operator on `line`. -/
def atLine (line : Nat) : Except RuntimeError.Cause Value → EStateM Halt σ Value
  | .ok value => return value
  | .error cause => fail cause line

/-- An object that must exist. -/
def object : Option α → EStateM Halt σ α
  | some a => return a
  | none => throw (.fault .noSuchObject)

variable (ops : Operations σ) (parts : Parts σ)

def getStore : EStateM Halt σ Store := return ops.store (← get)

def function (f : FunctionId) : EStateM Halt σ FunctionObject := do
  object (← ops.getStore).functions[f]?

def instanceClass (id : InstanceId) : EStateM Halt σ ClassId := do
  object ((← ops.getStore).instances[id]?.map (·.classId))

/-- A property of an instance. -/
def readProperty (id : InstanceId) (name : Name) : EStateM Halt σ Value := do
  match (← ops.getStore).field? id name.text with
  | some value => return value
  | none =>
    match (← ops.getStore).findMethod? (← ops.instanceClass id) name.text with
    | some method => return .functionRef (← ops.bindTo method id)
    | none => fail (.undefinedProperty name.text) name.line

/-- Runs the body of a function. -/
def callFunction (f : FunctionId) (arguments : List Value) : EStateM Halt σ Value := do
  let object ← ops.function f
  let completion ← ops.inCall f object arguments (runAll parts.execute object.declaration.body)
  if object.isInitializer then
    ops.receiver object
  else
    match completion with
    | .returned value => return value
    | .normal => return .nil

/-- Makes an instance and runs the initializer of its class, if it has one. -/
def instantiate (c : ClassId) (arguments : List Value) : EStateM Halt σ Value := do
  let id ← ops.newInstance c
  if let some init := (← ops.getStore).findMethod? c FunctionOf.initializerName then
    let _ ← ops.callFunction parts (← ops.bindTo init id) arguments
  return .instanceRef id

/-- A call with as many arguments as `arity`, unless too many calls are active. -/
def checkedCall (arity line : Nat) (arguments : List Value) (body : EStateM Halt σ Value) :
    EStateM Halt σ Value := do
  if arguments.length ≠ arity then
    fail (.wrongArgumentCount arity arguments.length) line
  else if maxCallDepth ≤ ops.callDepth (← get) then
    fail .stackOverflow line
  else
    ops.asCall body

def callValue (callee : Value) (line : Nat) (arguments : List Value) : EStateM Halt σ Value := do
  match callee with
  | .functionRef f =>
    let arity := (← ops.function f).declaration.arity
    ops.checkedCall arity line arguments (ops.callFunction parts f arguments)
  | .classRef c =>
    let arity := (← ops.getStore).classArity c
    ops.checkedCall arity line arguments (ops.instantiate parts c arguments)
  | _ => fail .notCallable line

/-- The class that a superclass clause names. -/
def superclassValue (superclass : Superclass) : EStateM Halt σ ClassId := do
  match ← parts.evaluate superclass.toExpr with
  | .classRef c => return c
  | _ => fail .superclassNotClass superclass.name.line

def superclassValue? : Option Superclass → EStateM Halt σ (Option ClassId)
  | some superclass => some <$> superclassValue parts superclass
  | none => return none

/-- The rules for expressions. -/
def evaluateForm : Expr → EStateM Halt σ Value
  | .literal value => return value.value
  | .grouping e => parts.evaluate e
  | .unary op line operand => do
    atLine line (op.apply (← parts.evaluate operand))
  | .binary op line left right => do
    let left ← parts.evaluate left
    let right ← parts.evaluate right
    atLine line (op.apply left right)
  | .logical op left right => do
    let left ← parts.evaluate left
    if op.settledBy left then return left else parts.evaluate right
  | .variable id name => ops.readVariable id name
  | .assign id name value => do
    let value ← parts.evaluate value
    ops.writeVariable id name value
    return value
  | .call callee line arguments => do
    let callee ← parts.evaluate callee
    let arguments ← evaluateAll parts.evaluate arguments []
    ops.callValue parts callee line arguments
  | .get object name => do
    match ← parts.evaluate object with
    | .instanceRef id => ops.readProperty id name
    | _ => fail .propertyOfNonInstance name.line
  | .set object name value => do
    match ← parts.evaluate object with
    | .instanceRef id =>
      let value ← parts.evaluate value
      ops.setField id name.text value
      return value
    | _ => fail .fieldOfNonInstance name.line
  | .this id line => ops.readVariable id ⟨"this", line⟩
  | .super id line method => ops.superMethod id line method

/-- The rules for expressions, with a rule for calls of its own. -/
def evaluateFormWith (call : Value → (line : Nat) → List Value → EStateM Halt σ Value) :
    Expr → EStateM Halt σ Value
  | .call callee line arguments => do
    let callee ← parts.evaluate callee
    let arguments ← evaluateAll parts.evaluate arguments []
    call callee line arguments
  | e => ops.evaluateForm parts e

theorem evaluateFormWith_callValue (e : Expr) :
    ops.evaluateFormWith parts (ops.callValue parts) e = ops.evaluateForm parts e := by
  cases e <;> rfl

/-- The value of an optional expression, `nil` if it is absent. -/
def evaluate? : Option Expr → EStateM Halt σ Value
  | some e => parts.evaluate e
  | none => return .nil

/-- The rules for statements. A name is declared before what its declaration consists of. -/
def executeForm : Stmt → EStateM Halt σ Completion
  | .expression e => do
    let _ ← parts.evaluate e
    return .normal
  | .print e => do
    let value ← parts.evaluate e
    ops.printLine ((← ops.getStore).display value)
    return .normal
  | .varDecl name initializer => do
    ops.declare name.text
    ops.define name.text (← evaluate? parts initializer)
    return .normal
  | .block body => ops.inBlock (runAll parts.execute body)
  | .ifElse condition thenBranch elseBranch => do
    if (← parts.evaluate condition).isTruthy then
      parts.execute thenBranch
    else
      match elseBranch with
      | some elseBranch => parts.execute elseBranch
      | none => return .normal
  | .whileLoop condition body =>
    loop (Value.isTruthy <$> parts.evaluate condition) (parts.execute body) parts.limit
  | .funDecl declaration => do
    ops.declare declaration.name.text
    let f ← ops.newFunction declaration
    ops.define declaration.name.text (.functionRef f)
    return .normal
  | .returnWith _ value => return .returned (← evaluate? parts value)
  | .classDecl name superclass methods => do
    ops.declare name.text
    let superclass ← superclassValue? parts superclass
    ops.newClass name superclass methods
    return .normal

mutual

/-- Evaluates an expression. -/
def evaluate : (fuel : Nat) → Expr → EStateM Halt σ Value
  | 0, _ => throw .outOfFuel
  | fuel + 1, e => ops.evaluateForm ⟨fuel, evaluate fuel, execute fuel⟩ e

/-- Executes a statement. -/
def execute : (fuel : Nat) → Stmt → EStateM Halt σ Completion
  | 0, _ => throw .outOfFuel
  | fuel + 1, s => ops.executeForm ⟨fuel, evaluate fuel, execute fuel⟩ s

end

/-- Runs a program until it ends, fails or returns. -/
def interpret (fuel : Nat) (program : List Stmt) : EStateM Halt σ Unit := do
  let _ ← runAll (ops.execute fuel) program

/-- The operations of the machine. It takes no notice of names before they have values. -/
def machine : Operations Machine where
  store := Machine.store
  callDepth := Machine.callDepth
  asCall := Evaluation.asCall
  printLine := Evaluation.printLine
  readVariable := Evaluation.readVariable
  writeVariable := Evaluation.writeVariable
  superMethod := Evaluation.superMethod
  setField id name value := modifyStore (·.setField id name value)
  newInstance c := allocate (·.newInstance c)
  bindTo := Evaluation.bindTo
  declare _ := return ()
  define := defineHere
  newFunction declaration := do
    let closure := (← get).scope
    allocate (·.newFunction { declaration, closure, isInitializer := false })
  newClass name superclass methods := do
    defineHere name.text .nil
    let closure ← methodScope superclass
    let methods ← makeMethods closure methods .empty
    let c ← allocate (·.newClass { name := name.text, superclass, methods })
    writeFrom (← get).scope name (.classRef c)
  inBlock body := do
    let enclosing := some (← get).scope
    let scope ← allocate (·.newScope { enclosing })
    inScope scope body
  inCall _ object arguments body := do
    let bindings := bindArguments object.declaration.parameters arguments
    let scope ← allocate (·.newScope { bindings, enclosing := some object.closure })
    inScope scope body
  receiver object := return ((← Evaluation.getStore).findLocal? object.closure "this").getD .nil

/-- The rules of the machine, given how it evaluates parts. -/
def Parts.inner (parts : Parts Machine) : Inner := ⟨parts.limit, parts.evaluate, parts.execute⟩

section
variable (parts : Parts Machine)

theorem machine_function (f : FunctionId) : machine.function f = Evaluation.function f := rfl

theorem machine_callFunction (f : FunctionId) (arguments : List Value) :
    machine.callFunction parts f arguments = Evaluation.callFunction parts.execute f arguments := by
  unfold callFunction Evaluation.callFunction
  rw [machine_function]
  refine congrArg (Evaluation.function f >>= ·) (funext fun object => ?_)
  exact bind_assoc _ _ _

theorem machine_instantiate (c : ClassId) (arguments : List Value) :
    machine.instantiate parts c arguments = Evaluation.instantiate parts.execute c arguments := by
  unfold instantiate Evaluation.instantiate
  simp only [machine_callFunction]
  rfl

theorem machine_callValue (callee : Value) (line : Nat) (arguments : List Value) :
    machine.callValue parts callee line arguments =
      Evaluation.callValue parts.execute callee line arguments := by
  unfold callValue Evaluation.callValue
  simp only [machine_function, machine_callFunction, machine_instantiate]
  rfl

theorem machine_readProperty (id : InstanceId) (name : Name) :
    machine.readProperty id name = Evaluation.readProperty id name := by
  unfold readProperty Evaluation.readProperty
  rfl

theorem machine_declareClass (name : Name) (superclass : Option Superclass)
    (methods : List FunctionDecl) :
    (superclassValue? parts superclass >>= fun c => machine.newClass name c methods) =
      declareClass parts.evaluate name superclass methods := by
  unfold declareClass
  cases superclass with
  | none => rfl
  | some superclass => rfl

theorem machine_evaluateForm (e : Expr) :
    machine.evaluateForm parts e = Evaluation.evaluateForm parts.inner e := by
  cases e with
  | call callee line arguments =>
    unfold evaluateForm Evaluation.evaluateForm
    simp only [machine_callValue]
    rfl
  | get object name =>
    unfold evaluateForm Evaluation.evaluateForm
    simp only [machine_readProperty]
    rfl
  | _ => rfl

theorem machine_executeForm (s : Stmt) :
    machine.executeForm parts s = Evaluation.executeForm parts.inner s := by
  cases s with
  | classDecl name superclass methods =>
    have h := congrArg (· >>= fun _ => pure Completion.normal)
      (machine_declareClass parts name superclass methods)
    rw [bind_assoc] at h
    exact h
  | funDecl declaration =>
    unfold executeForm
    simp only [machine, bind_assoc]
    rfl
  | _ => rfl

end

theorem machine_evaluate_execute (fuel : Nat) :
    machine.evaluate fuel = Evaluation.evaluate fuel ∧
      machine.execute fuel = Evaluation.execute fuel := by
  induction fuel with
  | zero =>
    constructor
    · funext e
      rw [evaluate, Evaluation.evaluate]
    · funext s
      rw [execute, Evaluation.execute]
  | succ fuel ih =>
    obtain ⟨hevaluate, hexecute⟩ := ih
    constructor
    · funext e
      rw [evaluate, evaluate_succ, machine_evaluateForm, hevaluate, hexecute]
      rfl
    · funext s
      rw [execute, execute_succ, machine_executeForm, hevaluate, hexecute]
      rfl

/-- The evaluator of the machine follows the rules. -/
theorem machine_evaluate (fuel : Nat) : machine.evaluate fuel = Evaluation.evaluate fuel :=
  (machine_evaluate_execute fuel).1

theorem machine_interpret (fuel : Nat) (program : List Stmt) :
    machine.interpret fuel program = Evaluation.interpret fuel program := by
  unfold interpret Evaluation.interpret
  rw [(machine_evaluate_execute fuel).2]

end Operations
end Lox.Evaluation
