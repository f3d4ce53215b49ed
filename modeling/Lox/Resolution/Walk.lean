import Lox.Resolution.State

/-!
# The static pass

The walk over a program that finds the distance of each local reference and every forbidden use.
Blocks and functions have one scope each. The methods of a class stand in a scope that has `this`,
and outside of it there is one that has `super` if the class has a superclass. Errors do not stop
the walk.
-/
namespace Lox.Resolution
open State

def expr : Expr → State → State
  | .literal _, s => s
  | .grouping inner, s => expr inner s
  | .unary _ _ operand, s => expr operand s
  | .binary _ _ left right, s | .logical _ left right, s => expr right (expr left s)
  | .variable id name, s => (s.checkInitialized name).reference id name.text
  | .assign id name value, s => (expr value s).reference id name.text
  | .call callee _ arguments, s => exprs arguments (expr callee s)
  | .get object _, s => expr object s
  | .set object _ value, s => expr object (expr value s)
  | .this id line, s =>
    match s.classKind with
    | none => s.report .thisOutsideClass ⟨"this", line⟩
    | some _ => s.reference id "this"
  | .super id line _, s =>
    match s.classKind with
    | none => s.report .superOutsideClass ⟨"super", line⟩
    | some .base => s.report .superWithoutSuperclass ⟨"super", line⟩
    | some .derived => s.reference id "super"
where
  exprs : List Expr → State → State
    | [], s => s
    | e :: es, s => exprs es (expr e s)

def expr? (value : Option Expr) (s : State) : State :=
  match value with
  | some value => expr value s
  | none => s

/-- What `return` is forbidden to do at this place. -/
def checkReturn (line : Nat) (value : Option Expr) (s : State) : State :=
  match s.functionKind, value with
  | none, _ => s.report .returnOutsideFunction ⟨"return", line⟩
  | some .initializer, some _ => s.report .valueFromInitializer ⟨"return", line⟩
  | _, _ => s

/-- The name and the superclass clause of a class, and `walk` for its methods in their scopes. -/
def classScopes (known : String → Bool) (name : Name) (superclass : Option Superclass)
    (walk : State → State) (s : State) : State :=
  let s := s.introduce known name
  let methods := inScope fun s => walk (s.define "this")
  match superclass with
  | none => inClass .base methods s
  | some superclass =>
    let s := if superclass.name.text == name.text then
        s.report .inheritsFromItself superclass.name
      else
        s
    s.inClass .derived fun s =>
      inScope (fun s => methods (s.define "super")) (expr superclass.toExpr s)

def parameters (known : String → Bool) (names : List Name) (s : State) : State :=
  names.foldl (·.introduce known ·) s

def methodKind (function : FunctionDecl) : FunctionKind :=
  if function.isInitializer then .initializer else .ordinary

variable (known : String → Bool)

mutual

def stmt : Stmt → State → State
  | .expression value, s | .print value, s => expr value s
  | .varDecl name initializer, s => (expr? initializer (s.declare known name)).define name.text
  | .block body, s => s.inScope (stmts body)
  | .ifElse condition thenBranch none, s => stmt thenBranch (expr condition s)
  | .ifElse condition thenBranch (some elseBranch), s =>
    stmt elseBranch (stmt thenBranch (expr condition s))
  | .whileLoop condition body, s => stmt body (expr condition s)
  | .funDecl function, s => functionBody .ordinary function (s.introduce known function.name)
  | .returnWith line value, s => expr? value (checkReturn line value s)
  | .classDecl name superclass methods, s =>
    classScopes known name superclass (methodBodies methods) s

def stmts : List Stmt → State → State
  | [], s => s
  | first :: rest, s => stmts rest (stmt first s)

/-- Parameters and body share one scope. -/
def functionBody (kind : FunctionKind) : FunctionOf Stmt → State → State
  | ⟨_, names, body⟩, s =>
    s.inFunction kind (inScope fun s => stmts body (parameters known names s))

def methodBodies : List (FunctionOf Stmt) → State → State
  | [], s => s
  | first :: rest, s => methodBodies rest (functionBody (methodKind first) first s)

end

end Resolution

/-- What the static pass gives for a program. -/
structure Resolution where
  distances : Distances
  errors : List ResolutionError

/-- Resolves the references of a program. `known` tells the globals that have a value already;
`distances` holds the distances of earlier programs, which are kept. -/
def Resolution.ofProgram (known : String → Bool) (distances : Distances) (program : List Stmt) :
    Resolution :=
  let s := stmts known program { distances }
  ⟨s.distances, s.errors.toList⟩

end Lox
