import Lox.Diagnostic
import Lox.Fault
import Lox.Resolution.Distances
import Lox.Value.Text

/-!
# The machine

The state in which expressions and statements are evaluated, what can end an evaluation early, and
the steps that a machine can take: reading and writing variables, making objects, printing.
-/
namespace Lox

/-- What a program does wrong when it runs. -/
inductive RuntimeError.Cause where
  | undefinedVariable (name : String)
  | undefinedProperty (name : String)
  | propertyOfNonInstance
  | fieldOfNonInstance
  | notCallable
  | wrongArgumentCount (expected actual : Nat)
  | stackOverflow
  | superclassNotClass
  | superOutsideClass
  | operandNotNumber
  | operandsNotNumbers
  | operandsNotAddable
  deriving DecidableEq, Repr

structure RuntimeError where
  cause : RuntimeError.Cause
  line : Nat
  deriving DecidableEq, Repr

namespace RuntimeError

def message (error : RuntimeError) : String :=
  match error.cause with
  | .undefinedVariable name => "Undefined variable '" ++ name ++ "'."
  | .undefinedProperty name => "Undefined property '" ++ name ++ "'."
  | .propertyOfNonInstance => "Only instances have properties."
  | .fieldOfNonInstance => "Only instances have fields."
  | .notCallable => "Can only call functions and classes."
  | .wrongArgumentCount expected actual =>
    "Expected " ++ toString expected ++ " arguments but got " ++ toString actual ++ "."
  | .stackOverflow => "Stack overflow."
  | .superclassNotClass => "Superclass must be a class."
  | .superOutsideClass => "Can't use 'super' outside of a class."
  | .operandNotNumber => "Operand must be a number."
  | .operandsNotNumbers => "Operands must be numbers."
  | .operandsNotAddable => "Operands must be two numbers or two strings."

def diagnostic (error : RuntimeError) : Diagnostic := .runtime error.line error.message

end RuntimeError

namespace Evaluation

/-- Why an evaluation ends early. -/
inductive Halt where
  | failure (error : RuntimeError)
  | fault (fault : Fault)
  /-- The evaluation goes deeper, or a loop on longer, than it was allowed to. -/
  | outOfFuel
  deriving DecidableEq, Repr

structure Machine where
  store : Store
  /-- The outermost scope of the session. -/
  globals : ScopeId
  /-- The scope of the statement that runs. -/
  scope : ScopeId
  distances : Distances := {}
  /-- The number of calls that have not returned. -/
  callDepth : Nat := 0
  /-- What was printed. -/
  output : String := ""

/-- A machine with nothing in its global scope. -/
def Machine.initial : Machine :=
  let (store, globals) := ({} : Store).newScope {}
  { store, globals, scope := globals }

/-- An evaluation with a result of type `α`. The state it has reached stays when it ends early. -/
abbrev Eval := EStateM Halt Machine

/-- How a statement ends when it does not fail. -/
inductive Completion where
  | normal
  | returned (value : Value)
  deriving Repr, Inhabited

variable {α : Type}

def fail (cause : RuntimeError.Cause) (line : Nat) : Eval α := throw (.failure ⟨cause, line⟩)

/-- The value, if there is one. -/
def orFault (fault : Fault) : Option α → Eval α
  | some a => return a
  | none => throw (.fault fault)

def getStore : Eval Store := return (← get).store

def modifyStore (f : Store → Store) : Eval Unit :=
  modify fun ⟨store, globals, scope, distances, callDepth, output⟩ =>
    ⟨f store, globals, scope, distances, callDepth, output⟩

/-- Adds an object to the store. -/
def allocate (make : Store → Store × Nat) : Eval Nat :=
  modifyGet fun ⟨store, globals, scope, distances, callDepth, output⟩ =>
    let (store, id) := make store
    (id, ⟨store, globals, scope, distances, callDepth, output⟩)

def function (id : FunctionId) : Eval FunctionObject := do
  orFault .noSuchObject (← getStore).functions[id]?

def instanceClass (id : InstanceId) : Eval ClassId := do
  orFault .noSuchObject ((← getStore).instances[id]?.map (·.classId))

/-- Prints a line. -/
def printLine (text : String) : Eval Unit :=
  modify fun m => { m with output := m.output ++ text ++ "\n" }

/-- Binds a name in the scope of the running statement. -/
def defineHere (name : String) (value : Value) : Eval Unit :=
  modify fun m => { m with store := m.store.define m.scope name value }

/-- Evaluates in another scope; the scope before is that after it, however the evaluation ends. -/
def inScope (scope : ScopeId) (step : Eval α) : Eval α := fun m =>
  let outer := m.scope
  match step { m with scope } with
  | .ok a m => .ok a { m with scope := outer }
  | .error halt m => .error halt { m with scope := outer }

/-- Evaluates as one call more, and counts it off again, however the evaluation ends. -/
def asCall (step : Eval α) : Eval α := fun m =>
  match step { m with callDepth := m.callDepth + 1 } with
  | .ok a m => .ok a { m with callDepth := m.callDepth - 1 }
  | .error halt m => .error halt { m with callDepth := m.callDepth - 1 }

/-- The value that a name has in the scope `distance` steps out. -/
def readAt (distance : Nat) (name : Name) : Eval Value := do
  let m ← get
  let scope ← orFault .noSuchScope (m.store.ancestor? distance m.scope)
  match m.store.findLocal? scope name.text with
  | some value => return value
  | none => fail (.undefinedVariable name.text) name.line

/-- The value of a global variable. -/
def readGlobal (name : Name) : Eval Value := do
  let m ← get
  match m.store.lookup? m.globals name.text with
  | some value => return value
  | none => fail (.undefinedVariable name.text) name.line

/-- The value of a reference: in the scope at its distance, or else among the globals. -/
def readVariable (id : NodeId) (name : Name) : Eval Value := do
  match (← get).distances.find? id with
  | some distance => readAt distance name
  | none => readGlobal name

/-- Gives a name a value in the scope `distance` steps out. -/
def writeAt (distance : Nat) (name : String) (value : Value) : Eval Unit := do
  let m ← get
  let scope ← orFault .noSuchScope (m.store.ancestor? distance m.scope)
  modifyStore (·.define scope name value)

/-- Gives a variable that `scope` or one around it has a value. -/
def writeFrom (scope : ScopeId) (name : Name) (value : Value) : Eval Unit := do
  match (← getStore).holder? scope name.text with
  | some holder => modifyStore (·.define holder name.text value)
  | none => fail (.undefinedVariable name.text) name.line

/-- Assigns to a reference: in the scope at its distance, or else among the globals. -/
def writeVariable (id : NodeId) (name : Name) (value : Value) : Eval Unit := do
  let m ← get
  match m.distances.find? id with
  | some distance => writeAt distance name.text value
  | none => writeFrom m.globals name value

end Evaluation
end Lox
