import Lox.Syntax.Tree

/-!
# References

The nodes of a tree that refer to a scope, in tree order: a node before its parts, the parts in
the order of the source.
-/
namespace Lox

inductive ReferenceKind where
  | variable
  | assign
  | this
  | super
  deriving DecidableEq, Repr

/-- A node that carries a number. The name of a `super` node is that of the method, at the line of
the reserved word. -/
structure Reference where
  kind : ReferenceKind
  id : NodeId
  name : Name
  deriving DecidableEq, Repr

def Expr.references : Expr → List Reference
  | .literal _ => []
  | .grouping inner => inner.references
  | .unary _ _ operand => operand.references
  | .binary _ _ left right | .logical _ left right => left.references ++ right.references
  | .variable id name => [⟨.variable, id, name⟩]
  | .assign id name value => ⟨.assign, id, name⟩ :: value.references
  | .call callee _ arguments => callee.references ++ listReferences arguments
  | .get object _ => object.references
  | .set object _ value => object.references ++ value.references
  | .this id line => [⟨.this, id, ⟨"this", line⟩⟩]
  | .super id line method => [⟨.super, id, ⟨method.text, line⟩⟩]
where
  listReferences : List Expr → List Reference
    | [] => []
    | e :: es => e.references ++ listReferences es

def Superclass.references (superclass : Superclass) : List Reference :=
  [⟨.variable, superclass.id, superclass.name⟩]

namespace Stmt

mutual

def references : Stmt → List Reference
  | .expression value | .print value => value.references
  | .varDecl _ initializer => (initializer.map Expr.references).getD []
  | .block body => listReferences body
  | .ifElse condition thenBranch none => condition.references ++ thenBranch.references
  | .ifElse condition thenBranch (some elseBranch) =>
    condition.references ++ thenBranch.references ++ elseBranch.references
  | .whileLoop condition body => condition.references ++ body.references
  | .funDecl function => functionReferences function
  | .returnWith _ value => (value.map Expr.references).getD []
  | .classDecl _ superclass methods =>
    (superclass.map Superclass.references).getD [] ++ methodReferences methods

def listReferences : List Stmt → List Reference
  | [] => []
  | s :: ss => s.references ++ listReferences ss

def functionReferences : FunctionOf Stmt → List Reference
  | ⟨_, _, body⟩ => listReferences body

def methodReferences : List (FunctionOf Stmt) → List Reference
  | [] => []
  | f :: fs => functionReferences f ++ methodReferences fs

end

end Stmt
end Lox
