import Lox.Syntax.Tree

/-!
# Leaves and parts

The leaves of a tree are its names and its literals, in tree order. The parts of a statement are
that statement and those inside it, where a method counts as the declaration of a function.
-/
namespace Lox

/-- A name or a literal of a tree. -/
inductive Leaf where
  | name (text : String)
  | literal (value : Literal)

def Name.leaf (name : Name) : Leaf := .name name.text

def Expr.leaves : Expr → List Leaf
  | .literal value => [.literal value]
  | .grouping inner => inner.leaves
  | .unary _ _ operand => operand.leaves
  | .binary _ _ left right | .logical _ left right => left.leaves ++ right.leaves
  | .variable _ name => [name.leaf]
  | .assign _ name value => name.leaf :: value.leaves
  | .call callee _ arguments => callee.leaves ++ listLeaves arguments
  | .get object name => object.leaves ++ [name.leaf]
  | .set object name value => object.leaves ++ name.leaf :: value.leaves
  | .this _ _ => []
  | .super _ _ method => [method.leaf]
where
  listLeaves : List Expr → List Leaf
    | [] => []
    | e :: es => e.leaves ++ listLeaves es

namespace Stmt

mutual

def leaves : Stmt → List Leaf
  | .expression value | .print value => value.leaves
  | .varDecl name initializer => name.leaf :: (initializer.map Expr.leaves).getD []
  | .block body => listLeaves body
  | .ifElse condition thenBranch none => condition.leaves ++ thenBranch.leaves
  | .ifElse condition thenBranch (some elseBranch) =>
    condition.leaves ++ thenBranch.leaves ++ elseBranch.leaves
  | .whileLoop condition body => condition.leaves ++ body.leaves
  | .funDecl function => functionLeaves function
  | .returnWith _ value => (value.map Expr.leaves).getD []
  | .classDecl name superclass methods =>
    name.leaf :: ((superclass.map fun s => [s.name.leaf]).getD [] ++ methodsLeaves methods)

def listLeaves : List Stmt → List Leaf
  | [] => []
  | s :: ss => s.leaves ++ listLeaves ss

def functionLeaves : FunctionOf Stmt → List Leaf
  | ⟨name, parameters, body⟩ => name.leaf :: (parameters.map Name.leaf ++ listLeaves body)

def methodsLeaves : List (FunctionOf Stmt) → List Leaf
  | [] => []
  | f :: fs => functionLeaves f ++ methodsLeaves fs

end

end Stmt

theorem Expr.mem_listLeaves {leaf : Leaf} {es : List Expr} :
    leaf ∈ leaves.listLeaves es ↔ ∃ e ∈ es, leaf ∈ e.leaves := by
  induction es with
  | nil => simp [leaves.listLeaves]
  | cons e es ih => simp [leaves.listLeaves, ih]

theorem Stmt.mem_listLeaves {leaf : Leaf} {body : List Stmt} :
    leaf ∈ listLeaves body ↔ ∃ s ∈ body, leaf ∈ s.leaves := by
  induction body with
  | nil => simp [listLeaves]
  | cons s ss ih => simp [listLeaves, ih]

theorem Stmt.mem_methodsLeaves {leaf : Leaf} {methods : List (FunctionOf Stmt)} :
    leaf ∈ methodsLeaves methods ↔ ∃ f ∈ methods, leaf ∈ functionLeaves f := by
  induction methods with
  | nil => simp [methodsLeaves]
  | cons f fs ih => simp [methodsLeaves, ih]

namespace Stmt

mutual

/-- The statement itself and the statements inside it. -/
def parts : Stmt → List Stmt
  | .block body => .block body :: listParts body
  | .ifElse condition thenBranch none => .ifElse condition thenBranch none :: thenBranch.parts
  | .ifElse condition thenBranch (some elseBranch) =>
    .ifElse condition thenBranch (some elseBranch) :: (thenBranch.parts ++ elseBranch.parts)
  | .whileLoop condition body => .whileLoop condition body :: body.parts
  | .funDecl function => functionParts function
  | .classDecl name superclass methods =>
    .classDecl name superclass methods :: methodsParts methods
  | other => [other]

def listParts : List Stmt → List Stmt
  | [] => []
  | s :: ss => s.parts ++ listParts ss

def functionParts : FunctionOf Stmt → List Stmt
  | ⟨name, parameters, body⟩ => .funDecl ⟨name, parameters, body⟩ :: listParts body

def methodsParts : List (FunctionOf Stmt) → List Stmt
  | [] => []
  | f :: fs => functionParts f ++ methodsParts fs

end

variable {part : Stmt}

mutual

/-- A part has no other leaves than the statement. -/
theorem leaves_subset_of_mem_parts : (s : Stmt) → part ∈ s.parts → part.leaves ⊆ s.leaves
  | .block body, h => by
    obtain rfl | h := List.mem_cons.mp h
    · exact List.Subset.refl _
    · exact leaves_subset_of_mem_listParts body h
  | .ifElse condition thenBranch none, h => by
    obtain rfl | h := List.mem_cons.mp h
    · exact List.Subset.refl _
    · exact List.subset_append_of_subset_right _ (leaves_subset_of_mem_parts thenBranch h)
  | .ifElse condition thenBranch (some elseBranch), h => by
    obtain rfl | h := List.mem_cons.mp h
    · exact List.Subset.refl _
    obtain h | h := List.mem_append.mp h
    · exact List.subset_append_of_subset_left _
        (List.subset_append_of_subset_right _ (leaves_subset_of_mem_parts thenBranch h))
    · exact List.subset_append_of_subset_right _ (leaves_subset_of_mem_parts elseBranch h)
  | .whileLoop condition body, h => by
    obtain rfl | h := List.mem_cons.mp h
    · exact List.Subset.refl _
    · exact List.subset_append_of_subset_right _ (leaves_subset_of_mem_parts body h)
  | .funDecl function, h => leaves_subset_of_mem_functionParts function h
  | .classDecl name superclass methods, h => by
    obtain rfl | h := List.mem_cons.mp h
    · exact List.Subset.refl _
    · exact List.subset_cons_of_subset _
        (List.subset_append_of_subset_right _ (leaves_subset_of_mem_methodsParts methods h))
  | .expression _, h | .print _, h | .varDecl _ _, h | .returnWith _ _, h => by
    obtain rfl := List.mem_singleton.mp h
    exact List.Subset.refl _

theorem leaves_subset_of_mem_listParts : (body : List Stmt) → part ∈ listParts body →
    part.leaves ⊆ listLeaves body
  | s :: ss, h => by
    obtain h | h := List.mem_append.mp h
    · exact List.subset_append_of_subset_left _ (leaves_subset_of_mem_parts s h)
    · exact List.subset_append_of_subset_right _ (leaves_subset_of_mem_listParts ss h)

theorem leaves_subset_of_mem_functionParts : (f : FunctionOf Stmt) → part ∈ functionParts f →
    part.leaves ⊆ functionLeaves f
  | ⟨name, parameters, body⟩, h => by
    obtain rfl | h := List.mem_cons.mp h
    · exact List.Subset.refl _
    · exact List.subset_cons_of_subset _
        (List.subset_append_of_subset_right _ (leaves_subset_of_mem_listParts body h))

theorem leaves_subset_of_mem_methodsParts : (methods : List (FunctionOf Stmt)) →
    part ∈ methodsParts methods → part.leaves ⊆ methodsLeaves methods
  | f :: fs, h => by
    obtain h | h := List.mem_append.mp h
    · exact List.subset_append_of_subset_left _ (leaves_subset_of_mem_functionParts f h)
    · exact List.subset_append_of_subset_right _ (leaves_subset_of_mem_methodsParts fs h)

end

end Stmt
end Lox
