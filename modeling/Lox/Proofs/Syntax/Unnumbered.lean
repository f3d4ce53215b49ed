import Lox.Syntax.Tree
import Mathlib.Data.List.Forall2

/-!
# Trees without numbers

The numbers of a tree depend on where a parser starts to count and on what it tried before. Two
trees are the same text if they are equal after all numbers are replaced by 0.
-/
namespace Lox

/-- The expression with 0 for each of its numbers. -/
def Expr.unnumbered : Expr → Expr
  | .literal value => .literal value
  | .grouping inner => .grouping inner.unnumbered
  | .unary op line operand => .unary op line operand.unnumbered
  | .binary op line left right => .binary op line left.unnumbered right.unnumbered
  | .logical op left right => .logical op left.unnumbered right.unnumbered
  | .variable _ name => .variable 0 name
  | .assign _ name value => .assign 0 name value.unnumbered
  | .call callee line arguments => .call callee.unnumbered line (listUnnumbered arguments)
  | .get object name => .get object.unnumbered name
  | .set object name value => .set object.unnumbered name value.unnumbered
  | .this _ line => .this 0 line
  | .super _ line method => .super 0 line method
where
  listUnnumbered : List Expr → List Expr
    | [] => []
    | e :: es => e.unnumbered :: listUnnumbered es

def Superclass.unnumbered (superclass : Superclass) : Superclass := { superclass with id := 0 }

namespace Stmt

mutual

/-- The statement with 0 for each of its numbers. -/
def unnumbered : Stmt → Stmt
  | .expression value => .expression value.unnumbered
  | .print value => .print value.unnumbered
  | .varDecl name initializer => .varDecl name (initializer.map Expr.unnumbered)
  | .block body => .block (listUnnumbered body)
  | .ifElse condition thenBranch none =>
    .ifElse condition.unnumbered thenBranch.unnumbered none
  | .ifElse condition thenBranch (some elseBranch) =>
    .ifElse condition.unnumbered thenBranch.unnumbered (some elseBranch.unnumbered)
  | .whileLoop condition body => .whileLoop condition.unnumbered body.unnumbered
  | .funDecl function => .funDecl (functionUnnumbered function)
  | .returnWith line value => .returnWith line (value.map Expr.unnumbered)
  | .classDecl name superclass methods =>
    .classDecl name (superclass.map Superclass.unnumbered) (methodsUnnumbered methods)

def listUnnumbered : List Stmt → List Stmt
  | [] => []
  | s :: ss => s.unnumbered :: listUnnumbered ss

def functionUnnumbered : FunctionOf Stmt → FunctionOf Stmt
  | ⟨name, parameters, body⟩ => ⟨name, parameters, listUnnumbered body⟩

def methodsUnnumbered : List (FunctionOf Stmt) → List (FunctionOf Stmt)
  | [] => []
  | f :: fs => functionUnnumbered f :: methodsUnnumbered fs

end

end Stmt

theorem Expr.listUnnumbered_eq {a b : List Expr}
    (h : List.Forall₂ (fun e e' => e.unnumbered = e'.unnumbered) a b) :
    unnumbered.listUnnumbered a = unnumbered.listUnnumbered b := by
  induction h with
  | nil => rfl
  | cons first _ ih => rw [unnumbered.listUnnumbered, unnumbered.listUnnumbered, first, ih]

theorem Stmt.methodsUnnumbered_eq {a b : List (FunctionOf Stmt)}
    (h : List.Forall₂ (fun f f' => functionUnnumbered f = functionUnnumbered f') a b) :
    methodsUnnumbered a = methodsUnnumbered b := by
  induction h with
  | nil => rfl
  | cons first _ ih => rw [methodsUnnumbered, methodsUnnumbered, first, ih]

end Lox
