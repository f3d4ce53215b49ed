import Lox.Proofs.Syntax.Unnumbered
import Lox.Token

/-!
# The same text on other lines

Where a text stands in a source changes the lines of its tokens and the numbers of its references,
and nothing else. The functions of this module put a token or a tree on other lines; since numbers
tell nothing about the text, they are replaced by 0. Trees without numbers are the case in which all
lines stay as they are.
-/
namespace Lox
variable (line : Nat → Nat)

def Token.onLine (token : Token) : Token := { token with line := line token.line }

def Name.onLine (name : Name) : Name := { name with line := line name.line }

/-- The expression on other lines, with 0 for each of its numbers. -/
def Expr.onLines : Expr → Expr
  | .literal value => .literal value
  | .grouping inner => .grouping inner.onLines
  | .unary op n operand => .unary op (line n) operand.onLines
  | .binary op n left right => .binary op (line n) left.onLines right.onLines
  | .logical op left right => .logical op left.onLines right.onLines
  | .variable _ name => .variable 0 (name.onLine line)
  | .assign _ name value => .assign 0 (name.onLine line) value.onLines
  | .call callee n arguments => .call callee.onLines (line n) (listOnLines arguments)
  | .get object name => .get object.onLines (name.onLine line)
  | .set object name value => .set object.onLines (name.onLine line) value.onLines
  | .this _ n => .this 0 (line n)
  | .super _ n method => .super 0 (line n) (method.onLine line)
where
  listOnLines : List Expr → List Expr
    | [] => []
    | e :: es => e.onLines :: listOnLines es

def Superclass.onLines (superclass : Superclass) : Superclass := ⟨0, superclass.name.onLine line⟩

namespace Stmt

mutual

/-- The statement on other lines, with 0 for each of its numbers. -/
def onLines : Stmt → Stmt
  | .expression value => .expression (value.onLines line)
  | .print value => .print (value.onLines line)
  | .varDecl name initializer =>
    .varDecl (name.onLine line) (initializer.map (Expr.onLines line))
  | .block body => .block (listOnLines body)
  | .ifElse condition thenBranch none =>
    .ifElse (condition.onLines line) thenBranch.onLines none
  | .ifElse condition thenBranch (some elseBranch) =>
    .ifElse (condition.onLines line) thenBranch.onLines (some elseBranch.onLines)
  | .whileLoop condition body => .whileLoop (condition.onLines line) body.onLines
  | .funDecl function => .funDecl (functionOnLines function)
  | .returnWith n value => .returnWith (line n) (value.map (Expr.onLines line))
  | .classDecl name superclass methods =>
    .classDecl (name.onLine line) (superclass.map (Superclass.onLines line))
      (methodsOnLines methods)

def listOnLines : List Stmt → List Stmt
  | [] => []
  | s :: ss => s.onLines :: listOnLines ss

def functionOnLines : FunctionOf Stmt → FunctionOf Stmt
  | ⟨name, parameters, body⟩ =>
    ⟨name.onLine line, parameters.map (Name.onLine line), listOnLines body⟩

def methodsOnLines : List (FunctionOf Stmt) → List (FunctionOf Stmt)
  | [] => []
  | f :: fs => functionOnLines f :: methodsOnLines fs

end

end Stmt

variable {line}

theorem Expr.listOnLines_eq_map (es : List Expr) :
    onLines.listOnLines line es = es.map (onLines line) := by
  induction es with
  | nil => rfl
  | cons e es ih => rw [onLines.listOnLines, ih, List.map_cons]

theorem Stmt.listOnLines_eq_map (body : List Stmt) :
    listOnLines line body = body.map (onLines line) := by
  induction body with
  | nil => rfl
  | cons s ss ih => rw [listOnLines, ih, List.map_cons]

theorem Stmt.methodsOnLines_eq_map (methods : List (FunctionOf Stmt)) :
    methodsOnLines line methods = methods.map (functionOnLines line) := by
  induction methods with
  | nil => rfl
  | cons f fs ih => rw [methodsOnLines, ih, List.map_cons]

theorem Stmt.listOnLines_append (a b : List Stmt) :
    listOnLines line (a ++ b) = listOnLines line a ++ listOnLines line b := by
  simp only [listOnLines_eq_map, List.map_append]

@[simp] theorem Stmt.functionOnLines_name (f : FunctionDecl) :
    (functionOnLines line f).name = f.name.onLine line := by
  rw [functionOnLines]

@[simp] theorem Stmt.functionOnLines_parameters (f : FunctionDecl) :
    (functionOnLines line f).parameters = f.parameters.map (Name.onLine line) := by
  rw [functionOnLines]

@[simp] theorem Stmt.functionOnLines_body (f : FunctionDecl) :
    (functionOnLines line f).body = listOnLines line f.body := by
  rw [functionOnLines]

@[simp] theorem Stmt.functionOnLines_arity (f : FunctionDecl) :
    (functionOnLines line f).arity = f.arity := by
  simp [FunctionOf.arity]

@[simp] theorem Stmt.functionOnLines_isInitializer (f : FunctionDecl) :
    (functionOnLines line f).isInitializer = f.isInitializer := by
  simp [FunctionOf.isInitializer, Name.onLine]

variable {outer : Nat → Nat}

mutual

theorem Expr.onLines_onLines : (e : Expr) →
    (e.onLines line).onLines outer = e.onLines (outer ∘ line)
  | .literal _ | .variable _ _ | .this _ _ | .super _ _ _ => rfl
  | .grouping inner => congrArg Expr.grouping inner.onLines_onLines
  | .unary op _ operand => congrArg (Expr.unary op _) operand.onLines_onLines
  | .binary op _ left right =>
    congrArg₂ (Expr.binary op _) left.onLines_onLines right.onLines_onLines
  | .logical op left right =>
    congrArg₂ (Expr.logical op) left.onLines_onLines right.onLines_onLines
  | .assign _ _ value => congrArg (Expr.assign 0 _) value.onLines_onLines
  | .call callee _ arguments =>
    congrArg₂ (Expr.call · _ ·) callee.onLines_onLines (listOnLines_onLines arguments)
  | .get object _ => congrArg (Expr.get · _) object.onLines_onLines
  | .set object _ value =>
    congrArg₂ (Expr.set · _ ·) object.onLines_onLines value.onLines_onLines

theorem Expr.listOnLines_onLines : (es : List Expr) →
    onLines.listOnLines outer (onLines.listOnLines line es) =
      onLines.listOnLines (outer ∘ line) es
  | [] => rfl
  | e :: es => congrArg₂ List.cons e.onLines_onLines (listOnLines_onLines es)

end

theorem Expr.map_onLines_onLines (e : Option Expr) :
    (e.map (onLines line)).map (onLines outer) = e.map (onLines (outer ∘ line)) := by
  cases e with
  | none => rfl
  | some e => exact congrArg some e.onLines_onLines

namespace Stmt

mutual

theorem onLines_onLines : (s : Stmt) → (s.onLines line).onLines outer = s.onLines (outer ∘ line)
  | .expression value => congrArg Stmt.expression value.onLines_onLines
  | .print value => congrArg Stmt.print value.onLines_onLines
  | .varDecl _ initializer =>
    congrArg (Stmt.varDecl _) (Expr.map_onLines_onLines initializer)
  | .block body => congrArg Stmt.block (listOnLines_onLines body)
  | .ifElse condition thenBranch none =>
    congrArg₂ (Stmt.ifElse · · none) condition.onLines_onLines thenBranch.onLines_onLines
  | .ifElse condition thenBranch (some elseBranch) => by
    simp only [onLines, condition.onLines_onLines, onLines_onLines thenBranch,
      onLines_onLines elseBranch]
  | .whileLoop condition body =>
    congrArg₂ Stmt.whileLoop condition.onLines_onLines body.onLines_onLines
  | .funDecl function => congrArg Stmt.funDecl (functionOnLines_onLines function)
  | .returnWith _ value => congrArg (Stmt.returnWith _) (Expr.map_onLines_onLines value)
  | .classDecl _ _ methods => by
    simp only [onLines, Option.map_map, methodsOnLines_onLines methods]
    rfl

theorem listOnLines_onLines : (body : List Stmt) →
    listOnLines outer (listOnLines line body) = listOnLines (outer ∘ line) body
  | [] => rfl
  | s :: ss => congrArg₂ List.cons s.onLines_onLines (listOnLines_onLines ss)

theorem functionOnLines_onLines : (f : FunctionOf Stmt) →
    functionOnLines outer (functionOnLines line f) = functionOnLines (outer ∘ line) f
  | ⟨name, parameters, body⟩ => by
    simp only [functionOnLines, List.map_map, listOnLines_onLines body]
    rfl

theorem methodsOnLines_onLines : (methods : List (FunctionOf Stmt)) →
    methodsOnLines outer (methodsOnLines line methods) = methodsOnLines (outer ∘ line) methods
  | [] => rfl
  | f :: fs => congrArg₂ List.cons (functionOnLines_onLines f) (methodsOnLines_onLines fs)

end

end Stmt

mutual

theorem Expr.onLines_id : (e : Expr) → e.onLines id = e.unnumbered
  | .literal _ | .variable _ _ | .this _ _ | .super _ _ _ => rfl
  | .grouping inner => congrArg Expr.grouping inner.onLines_id
  | .unary op n operand => congrArg (Expr.unary op n) operand.onLines_id
  | .binary op n left right => congrArg₂ (Expr.binary op n) left.onLines_id right.onLines_id
  | .logical op left right => congrArg₂ (Expr.logical op) left.onLines_id right.onLines_id
  | .assign _ name value => congrArg (Expr.assign 0 name) value.onLines_id
  | .call callee n arguments =>
    congrArg₂ (Expr.call · n ·) callee.onLines_id (listOnLines_id arguments)
  | .get object name => congrArg (Expr.get · name) object.onLines_id
  | .set object name value => congrArg₂ (Expr.set · name ·) object.onLines_id value.onLines_id

theorem Expr.listOnLines_id : (es : List Expr) →
    onLines.listOnLines id es = unnumbered.listUnnumbered es
  | [] => rfl
  | e :: es => congrArg₂ List.cons e.onLines_id (listOnLines_id es)

end

theorem Expr.map_onLines_id (e : Option Expr) : e.map (onLines id) = e.map unnumbered := by
  cases e with
  | none => rfl
  | some e => exact congrArg some e.onLines_id

namespace Stmt

mutual

theorem onLines_id : (s : Stmt) → s.onLines id = s.unnumbered
  | .expression value => congrArg Stmt.expression value.onLines_id
  | .print value => congrArg Stmt.print value.onLines_id
  | .varDecl name initializer => congrArg (Stmt.varDecl name) (Expr.map_onLines_id initializer)
  | .block body => congrArg Stmt.block (listOnLines_id body)
  | .ifElse condition thenBranch none =>
    congrArg₂ (Stmt.ifElse · · none) condition.onLines_id thenBranch.onLines_id
  | .ifElse condition thenBranch (some elseBranch) => by
    simp only [onLines, unnumbered, condition.onLines_id, onLines_id thenBranch,
      onLines_id elseBranch]
  | .whileLoop condition body => congrArg₂ Stmt.whileLoop condition.onLines_id body.onLines_id
  | .funDecl function => congrArg Stmt.funDecl (functionOnLines_id function)
  | .returnWith n value => congrArg (Stmt.returnWith n) (Expr.map_onLines_id value)
  | .classDecl name superclass methods =>
    congrArg (Stmt.classDecl name (superclass.map Superclass.unnumbered))
      (methodsOnLines_id methods)

/-- With all lines as they are, only the numbers are lost. -/
theorem listOnLines_id : (body : List Stmt) → listOnLines id body = listUnnumbered body
  | [] => rfl
  | s :: ss => congrArg₂ List.cons s.onLines_id (listOnLines_id ss)

theorem functionOnLines_id : (f : FunctionOf Stmt) → functionOnLines id f = functionUnnumbered f
  | ⟨name, parameters, body⟩ => by
    rw [functionOnLines, functionUnnumbered, listOnLines_id body]
    exact congrArg (FunctionOf.mk name · _) (List.map_id parameters)

theorem methodsOnLines_id : (methods : List (FunctionOf Stmt)) →
    methodsOnLines id methods = methodsUnnumbered methods
  | [] => rfl
  | f :: fs => congrArg₂ List.cons (functionOnLines_id f) (methodsOnLines_id fs)

end

theorem listUnnumbered_append (a b : List Stmt) :
    listUnnumbered (a ++ b) = listUnnumbered a ++ listUnnumbered b := by
  simp only [← listOnLines_id, listOnLines_append]

/-- Trees of the same text are the same on other lines. -/
theorem listOnLines_eq_of_unnumbered {a b : List Stmt} (h : listUnnumbered a = listUnnumbered b) :
    listOnLines line a = listOnLines line b := by
  rw [← listOnLines_id, ← listOnLines_id] at h
  calc listOnLines line a = listOnLines line (listOnLines id a) := (listOnLines_onLines a).symm
    _ = listOnLines line (listOnLines id b) := by rw [h]
    _ = listOnLines line b := listOnLines_onLines b

end Stmt
end Lox
