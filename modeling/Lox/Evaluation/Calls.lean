import Lox.Evaluation.Operators

/-!
# Calls, properties and classes

What calls, properties, `super` and class declarations do, given a way to run the statements of a
function body.
-/
namespace Lox.Evaluation

/-- The most calls that may be active at once. -/
def maxCallDepth : Nat := 16384

section
variable {σ : Type}

/-- Runs statements in order until one of them returns. -/
def runAll (run : Stmt → EStateM Halt σ Completion) : List Stmt → EStateM Halt σ Completion
  | [] => return .normal
  | first :: rest => do
    match ← run first with
    | .normal => runAll run rest
    | .returned value => return .returned value

/-- The values of expressions in order, after those in `done`, which are in reverse order. -/
def evaluateAll (evaluate : Expr → EStateM Halt σ Value) :
    List Expr → (done : List Value) → EStateM Halt σ (List Value)
  | [], done => return done.reverse
  | first :: rest, done => do
    let value ← evaluate first
    evaluateAll evaluate rest (value :: done)

/-- Repeats `body` as long as `condition` holds and the body does not return, at most `limit`
times. -/
def loop (condition : EStateM Halt σ Bool) (body : EStateM Halt σ Completion) :
    (limit : Nat) → EStateM Halt σ Completion
  | 0 => throw .outOfFuel
  | limit + 1 => do
    if ← condition then
      match ← body with
      | .normal => loop condition body limit
      | .returned value => return .returned value
    else
      return .normal

end

/-- Parameters bound to arguments; of two parameters of one name the later counts. -/
def bindArguments (parameters : List Name) (arguments : List Value) : Bindings Value :=
  (parameters.zip arguments).foldl (fun b (name, value) => b.shadow name.text value) .empty

/-- The function `f` bound to an instance. -/
def bindTo (f : FunctionId) (receiver : InstanceId) : Eval FunctionId := do
  let object ← function f
  allocate (·.bindMethod object receiver)

/-- Runs the body of a function in a new scope inside its closure. An initializer results in the
instance it is bound to, whatever its body returns. -/
def callFunction (run : Stmt → Eval Completion) (f : FunctionId) (arguments : List Value) :
    Eval Value := do
  let object ← function f
  let bindings := bindArguments object.declaration.parameters arguments
  let scope ← allocate (·.newScope { bindings, enclosing := some object.closure })
  let completion ← inScope scope (runAll run object.declaration.body)
  if object.isInitializer then
    return ((← getStore).findLocal? object.closure "this").getD .nil
  else
    match completion with
    | .returned value => return value
    | .normal => return .nil

/-- Makes an instance and runs the initializer of its class, if it has one. -/
def instantiate (run : Stmt → Eval Completion) (classId : ClassId) (arguments : List Value) :
    Eval Value := do
  let id ← allocate (·.newInstance classId)
  if let some init := (← getStore).findMethod? classId FunctionOf.initializerName then
    let _ ← callFunction run (← bindTo init id) arguments
  return .instanceRef id

/-- A call with as many arguments as `arity`, unless too many calls are active. -/
def checkedCall (arity line : Nat) (arguments : List Value) (body : Eval Value) : Eval Value := do
  if arguments.length ≠ arity then
    fail (.wrongArgumentCount arity arguments.length) line
  else if maxCallDepth ≤ (← get).callDepth then
    fail .stackOverflow line
  else
    asCall body

/-- Calls a value; `line` is that of the call's closing parenthesis. -/
def callValue (run : Stmt → Eval Completion) (callee : Value) (line : Nat)
    (arguments : List Value) : Eval Value := do
  match callee with
  | .functionRef f =>
    let arity := (← function f).declaration.arity
    checkedCall arity line arguments (callFunction run f arguments)
  | .classRef c =>
    let arity := (← getStore).classArity c
    checkedCall arity line arguments (instantiate run c arguments)
  | _ => fail .notCallable line

/-- A property of an instance: its field of that name, or else the method of its class bound to
it. -/
def readProperty (id : InstanceId) (name : Name) : Eval Value := do
  match (← getStore).field? id name.text with
  | some value => return value
  | none =>
    match (← getStore).findMethod? (← instanceClass id) name.text with
    | some method => return .functionRef (← bindTo method id)
    | none => fail (.undefinedProperty name.text) name.line

/-- The class under `super`, `distance` scopes out. -/
def superclassAt (distance : Nat) : Eval ClassId := do
  let m ← get
  let scope ← orFault .noSuchScope (m.store.ancestor? distance m.scope)
  match m.store.findLocal? scope "super" with
  | some (.classRef c) => return c
  | _ => throw (.fault .noSuperclass)

/-- The instance under `this`, one scope inside the one that is `distance` scopes out. -/
def receiverInside : (distance : Nat) → Eval InstanceId
  | 0 => throw (.fault .noReceiver)
  | distance + 1 => do
    let m ← get
    let scope ← orFault .noSuchScope (m.store.ancestor? distance m.scope)
    match m.store.findLocal? scope "this" with
    | some (.instanceRef id) => return id
    | _ => throw (.fault .noReceiver)

/-- A method looked up from the superclass on and bound to `this`; `line` is that of `super`. -/
def superMethod (id : NodeId) (line : Nat) (method : Name) : Eval Value := do
  match (← get).distances.find? id with
  | none => fail .superOutsideClass line
  | some distance =>
    let superclass ← superclassAt distance
    let receiver ← receiverInside distance
    match (← getStore).findMethod? superclass method.text with
    | some f => return .functionRef (← bindTo f receiver)
    | none => fail (.undefinedProperty method.text) method.line

/-- The class that a superclass clause names. -/
def superclassValue (evaluate : Expr → Eval Value) (superclass : Superclass) : Eval ClassId := do
  match ← evaluate superclass.toExpr with
  | .classRef c => return c
  | _ => fail .superclassNotClass superclass.name.line

/-- The scope that the methods of a class close over: one with `super` if there is a superclass. -/
def methodScope : (superclass : Option ClassId) → Eval ScopeId
  | none => return (← get).scope
  | some c => do
    let enclosing := some (← get).scope
    allocate (·.newScope { bindings := Bindings.empty.insert "super" (.classRef c), enclosing })

/-- Makes the methods of a class; of two methods of one name the later counts. -/
def makeMethods (closure : ScopeId) : List FunctionDecl → Bindings FunctionId →
    Eval (Bindings FunctionId)
  | [], methods => return methods
  | declaration :: rest, methods => do
    let isInitializer := declaration.isInitializer
    let f ← allocate (·.newFunction { declaration, closure, isInitializer })
    makeMethods closure rest (methods.insert declaration.name.text f)

/-- A class declaration. The name is bound before the methods are made, so that they can use it. -/
def declareClass (evaluate : Expr → Eval Value) (name : Name) (superclass : Option Superclass)
    (methods : List FunctionDecl) : Eval Unit := do
  let superclass ←
    match superclass with
    | some superclass => some <$> superclassValue evaluate superclass
    | none => pure none
  defineHere name.text .nil
  let closure ← methodScope superclass
  let methods ← makeMethods closure methods .empty
  let c ← allocate (·.newClass { name := name.text, superclass, methods })
  writeFrom (← get).scope name (.classRef c)

end Lox.Evaluation
