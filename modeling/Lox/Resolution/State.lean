import Lox.Bindings
import Lox.Diagnostic
import Lox.Resolution.Distances
import Lox.Syntax.Tree

/-!
# The state of the static pass

The static pass walks over a program once, before it runs. It keeps the scopes that are open at
the current place, the functions and classes around it, the distances found and the errors. Scopes
hold the names declared so far, each with a mark that tells whether its initializer is over.
-/
namespace Lox

/-- What the static pass forbids. -/
inductive ResolutionError.Cause where
  | declaredTwice
  | readInOwnInitializer
  | returnOutsideFunction
  | valueFromInitializer
  | thisOutsideClass
  | superOutsideClass
  | superWithoutSuperclass
  | inheritsFromItself
  deriving DecidableEq, Repr

/-- A forbidden use of the name or reserved word `name`. -/
structure ResolutionError where
  cause : ResolutionError.Cause
  name : Name
  deriving DecidableEq, Repr

namespace ResolutionError

def message (error : ResolutionError) : String :=
  match error.cause with
  | .declaredTwice => "Already a variable with this name in this scope."
  | .readInOwnInitializer => "Can't read local variable in its own initializer."
  | .returnOutsideFunction => "Can't return from top-level code."
  | .valueFromInitializer => "Can't return a value from an initializer."
  | .thisOutsideClass => "Can't use 'this' outside of a class."
  | .superOutsideClass => "Can't use 'super' outside of a class."
  | .superWithoutSuperclass => "Can't use 'super' in a class with no superclass."
  | .inheritsFromItself => "A class can't inherit from itself."

def diagnostic (error : ResolutionError) : Diagnostic :=
  .resolution error.name.line (" at '" ++ error.name.text ++ "'") error.message

end ResolutionError

namespace Resolution

/-- The kind of the innermost function around a place. -/
inductive FunctionKind where
  | ordinary
  | initializer
  deriving DecidableEq, Repr

/-- The kind of the innermost class around a place. -/
inductive ClassKind where
  | base
  | derived
  deriving DecidableEq, Repr

structure State where
  /-- The open scopes, innermost first; the global scope is not among them. -/
  scopes : List (Bindings Bool) := []
  /-- The global names declared so far. -/
  globals : Bindings Bool := {}
  functionKind : Option FunctionKind := none
  classKind : Option ClassKind := none
  distances : Distances := {}
  errors : Array ResolutionError := #[]

namespace State

def report (s : State) (cause : ResolutionError.Cause) (name : Name) : State :=
  { s with errors := s.errors.push ⟨cause, name⟩ }

/-- The scope that a declaration at this place goes into. -/
def innermost (s : State) : Bindings Bool := s.scopes.headD s.globals

/-- Changes the scope that a declaration at this place goes into. -/
def modifyInnermost (s : State) (f : Bindings Bool → Bindings Bool) : State :=
  match s.scopes with
  | [] => { s with globals := f s.globals }
  | scope :: outer => { s with scopes := f scope :: outer }

/-- Whether a global name has a value already, from this walk or an earlier program. -/
def isKnownGlobal (s : State) (known : String → Bool) (name : String) : Bool :=
  s.globals.find? name == some true || known name

/-- Adds a name whose initializer is not over. A local name must be new in its scope; a global one
that has a value already keeps it meanwhile. -/
def declare (s : State) (known : String → Bool) (name : Name) : State :=
  match s.scopes with
  | [] =>
    if s.isKnownGlobal known name.text then s else s.modifyInnermost (·.insert name.text false)
  | scope :: _ =>
    if scope.contains name.text then
      s.report .declaredTwice name
    else
      s.modifyInnermost (·.insert name.text false)

/-- Marks a name as ready for use. -/
def define (s : State) (name : String) : State := s.modifyInnermost (·.insert name true)

/-- Declares a name that is ready for use at once. -/
def introduce (s : State) (known : String → Bool) (name : Name) : State :=
  (s.declare known name).define name.text

/-- Records how far away the innermost scope with `name` is, if one of the open scopes has it. -/
def reference (s : State) (id : NodeId) (name : String) : State :=
  match s.scopes.findIdx? (·.contains name) with
  | some distance => { s with distances := s.distances.record id distance }
  | none => s

/-- A variable must not be read in its own initializer. -/
def checkInitialized (s : State) (name : Name) : State :=
  if s.innermost.find? name.text = some false then s.report .readInOwnInitializer name else s

def beginScope (s : State) : State := { s with scopes := {} :: s.scopes }

def endScope (s : State) : State := { s with scopes := s.scopes.tail }

/-- Walks inside a scope of its own. -/
def inScope (walk : State → State) (s : State) : State := (walk s.beginScope).endScope

/-- Walks inside a function. -/
def inFunction (kind : FunctionKind) (walk : State → State) (s : State) : State :=
  { walk { s with functionKind := some kind } with functionKind := s.functionKind }

/-- Walks inside a class. -/
def inClass (kind : ClassKind) (walk : State → State) (s : State) : State :=
  { walk { s with classKind := some kind } with classKind := s.classKind }

end State
end Resolution
end Lox
