import Lox.Bindings
import Lox.Syntax.Tree
import Lox.Value

/-!
# The store

All scopes, functions, classes and instances of a session, each under the number that it got when
it was made. Objects are added and never removed. Of those that exist only the bindings of scopes
and the fields of instances change; the links between scopes and between classes stay as they are
and lead to older objects.
-/
namespace Lox

/-- Variables by name, and the scope around. -/
structure Scope where
  bindings : Bindings Value := {}
  enclosing : Option ScopeId := none
  deriving Repr, Inhabited

/-- A function with the scope in which it was declared. -/
structure FunctionObject where
  declaration : FunctionDecl
  closure : ScopeId
  isInitializer : Bool
  deriving Repr, Inhabited

structure ClassObject where
  name : String
  superclass : Option ClassId
  /-- The methods declared in the class itself. -/
  methods : Bindings FunctionId
  deriving Repr, Inhabited

structure InstanceObject where
  classId : ClassId
  fields : Bindings Value := {}
  deriving Repr, Inhabited

structure Store where
  scopes : Array Scope := #[]
  functions : Array FunctionObject := #[]
  classes : Array ClassObject := #[]
  instances : Array InstanceObject := #[]
  deriving Repr, Inhabited

/-- The first value that `find?` has for `id` or an object that is reached from it by following
`link`. At most `limit` objects are tried. -/
def firstAlong {α : Type} (link : Nat → Option Nat) (find? : Nat → Option α) :
    (limit : Nat) → Nat → Option α
  | 0, _ => none
  | limit + 1, id =>
    match find? id with
    | some a => some a
    | none =>
      match link id with
      | some parent => firstAlong link find? limit parent
      | none => none

namespace Store

/-- Adds a scope. -/
def newScope (store : Store) (scope : Scope) : Store × ScopeId :=
  let id := store.scopes.size
  ({ store with scopes := store.scopes.push scope }, id)

/-- The scope around a scope. -/
def enclosing? (store : Store) (scope : ScopeId) : Option ScopeId :=
  store.scopes[scope]?.bind (·.enclosing)

/-- The value that a name has in a scope itself. -/
def findLocal? (store : Store) (scope : ScopeId) (name : String) : Option Value :=
  store.scopes[scope]?.bind (·.bindings.find? name)

/-- Binds a name in a scope itself, in place of what it was bound to. -/
def define (store : Store) (scope : ScopeId) (name : String) (value : Value) : Store :=
  { store with
    scopes := store.scopes.modify scope fun s =>
      { s with bindings := s.bindings.insert name value } }

/-- The nearest scope that binds a name, from the inside out. -/
def holder? (store : Store) (scope : ScopeId) (name : String) : Option ScopeId :=
  firstAlong store.enclosing? (fun s => if (store.findLocal? s name).isSome then some s else none)
    store.scopes.size scope

/-- The value that a name has, looked up from the inside out. -/
def lookup? (store : Store) (scope : ScopeId) (name : String) : Option Value :=
  firstAlong store.enclosing? (store.findLocal? · name) store.scopes.size scope

/-- Gives a name a new value in the nearest scope that binds it. -/
def assign? (store : Store) (scope : ScopeId) (name : String) (value : Value) : Option Store :=
  match store.holder? scope name with
  | some holder => some (store.define holder name value)
  | none => none

/-- The scope `distance` steps out. -/
def ancestor? (store : Store) : (distance : Nat) → ScopeId → Option ScopeId
  | 0, scope => some scope
  | distance + 1, scope =>
    match store.enclosing? scope with
    | some outer => store.ancestor? distance outer
    | none => none

def newFunction (store : Store) (function : FunctionObject) : Store × FunctionId :=
  let id := store.functions.size
  ({ store with functions := store.functions.push function }, id)

def newClass (store : Store) (newClass : ClassObject) : Store × ClassId :=
  let id := store.classes.size
  ({ store with classes := store.classes.push newClass }, id)

def newInstance (store : Store) (classId : ClassId) : Store × InstanceId :=
  let id := store.instances.size
  ({ store with instances := store.instances.push { classId } }, id)

def superclass? (store : Store) (classId : ClassId) : Option ClassId :=
  store.classes[classId]?.bind (·.superclass)

/-- The method that a class itself declares under a name. -/
def ownMethod? (store : Store) (classId : ClassId) (name : String) : Option FunctionId :=
  store.classes[classId]?.bind (·.methods.find? name)

/-- The method that a class declares under a name, or else the nearest of its superclasses. -/
def findMethod? (store : Store) (classId : ClassId) (name : String) : Option FunctionId :=
  firstAlong store.superclass? (store.ownMethod? · name) store.classes.size classId

def field? (store : Store) (id : InstanceId) (name : String) : Option Value :=
  store.instances[id]?.bind (·.fields.find? name)

/-- Gives a field a value, whether or not the instance had it. -/
def setField (store : Store) (id : InstanceId) (name : String) (value : Value) : Store :=
  { store with
    instances := store.instances.modify id fun o =>
      { o with fields := o.fields.insert name value } }

/-- The number of arguments that a class takes: those of its initializer. -/
def classArity (store : Store) (classId : ClassId) : Nat :=
  match store.findMethod? classId FunctionOf.initializerName with
  | some init => (store.functions[init]?.map (·.declaration.arity)).getD 0
  | none => 0

/-- A new function like `function` whose closure has one scope more, in which `this` is
`receiver`. -/
def bindMethod (store : Store) (function : FunctionObject) (receiver : InstanceId) :
    Store × FunctionId :=
  let this := Bindings.empty.insert "this" (.instanceRef receiver)
  let (store, closure) := store.newScope { bindings := this, enclosing := some function.closure }
  store.newFunction { function with closure }

end Store
end Lox
