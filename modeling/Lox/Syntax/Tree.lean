/-!
# Syntax trees

Expressions and statements as the parser builds them. Only what later passes need is kept: the
operator and its line, names with their lines, and the line of a call's closing parenthesis. Each
reference to a variable, to `this` or to `super` carries a node number, under which the static pass
records how far away its scope is. A `for` loop has no form of its own: it is a block with a
`while` loop.
-/
namespace Lox

/-- A name at a place in the source. -/
structure Name where
  text : String
  line : Nat
  deriving DecidableEq, Repr, Inhabited

/-- The number of a reference; no two references of a session share one. -/
abbrev NodeId := Nat

inductive UnaryOp where
  | negate
  | not
  deriving DecidableEq, Repr

inductive BinaryOp where
  | add | subtract | multiply | divide
  | less | lessEqual | greater | greaterEqual
  | equal | notEqual
  deriving DecidableEq, Repr

inductive LogicalOp where
  | and
  | or
  deriving DecidableEq, Repr

inductive Literal where
  | nil
  | bool (value : Bool)
  | number (value : Float)
  | string (value : String)
  deriving Repr

inductive Expr where
  | literal (value : Literal)
  | grouping (inner : Expr)
  | unary (op : UnaryOp) (line : Nat) (operand : Expr)
  | binary (op : BinaryOp) (line : Nat) (left right : Expr)
  | logical (op : LogicalOp) (left right : Expr)
  | variable (id : NodeId) (name : Name)
  | assign (id : NodeId) (name : Name) (value : Expr)
  /-- A call; `line` is that of its closing parenthesis. -/
  | call (callee : Expr) (line : Nat) (arguments : List Expr)
  | get (object : Expr) (name : Name)
  | set (object : Expr) (name : Name) (value : Expr)
  | this (id : NodeId) (line : Nat)
  | super (id : NodeId) (line : Nat) (method : Name)
  deriving Repr, Inhabited

/-- A named function or method with a body of statements of type `σ`. -/
structure FunctionOf (σ : Type) where
  name : Name
  parameters : List Name
  body : List σ
  deriving Repr, Inhabited

/-- A class named after `extends`; evaluated like a variable of that name. -/
structure Superclass where
  id : NodeId
  name : Name
  deriving DecidableEq, Repr

inductive Stmt where
  | expression (value : Expr)
  | print (value : Expr)
  | varDecl (name : Name) (initializer : Option Expr)
  | block (body : List Stmt)
  | ifElse (condition : Expr) (thenBranch : Stmt) (elseBranch : Option Stmt)
  | whileLoop (condition : Expr) (body : Stmt)
  | funDecl (function : FunctionOf Stmt)
  | returnWith (line : Nat) (value : Option Expr)
  | classDecl (name : Name) (superclass : Option Superclass) (methods : List (FunctionOf Stmt))
  deriving Repr, Inhabited

/-- A declared function or method. -/
abbrev FunctionDecl := FunctionOf Stmt

namespace FunctionOf

def arity {σ : Type} (function : FunctionOf σ) : Nat := function.parameters.length

/-- The name of the method that a class call runs on the new instance. -/
def initializerName : String := "init"

def isInitializer {σ : Type} (function : FunctionOf σ) : Bool :=
  function.name.text == initializerName

end FunctionOf

/-- The variable that evaluates to the superclass. -/
def Superclass.toExpr (superclass : Superclass) : Expr := .variable superclass.id superclass.name

end Lox
