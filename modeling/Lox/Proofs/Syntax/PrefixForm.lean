import Lox.Proofs.Syntax.Form
import Lox.Proofs.Syntax.Leaves
import Lox.Proofs.Syntax.Lines

/-!
# Reading a tree back

A tree can be read back from its form, except for its lines and numbers, if its names are proper
ones and its literals are no strings. So trees with the same prefix form are the same up to their
lines and numbers.
-/
namespace Lox
namespace Form

def ofLiteral : Literal → Form
  | .number value => .number value
  | value => .word value.prefixForm

def ofExpr : Expr → Form
  | .literal value => ofLiteral value
  | .grouping inner => .list "group" [ofExpr inner]
  | .unary op _ operand => .list op.text [ofExpr operand]
  | .binary op _ left right => .list op.text [ofExpr left, ofExpr right]
  | .logical op left right => .list op.text [ofExpr left, ofExpr right]
  | .variable _ name => .word name.text
  | .assign _ name value => .list "=" [.word name.text, ofExpr value]
  | .call callee _ arguments => .list "call" (ofExpr callee :: ofExprs arguments)
  | .get object name => .list "." [ofExpr object, .word name.text]
  | .set object name value =>
    .list "=" [.list "." [ofExpr object, .word name.text], ofExpr value]
  | .this _ _ => .word "this"
  | .super _ _ method => .list "super" [.word method.text]
where
  ofExprs : List Expr → List Form
    | [] => []
    | e :: es => ofExpr e :: ofExprs es

mutual

def ofStmt : Stmt → Form
  | .expression value => .list ";" [ofExpr value]
  | .print value => .list "print" [ofExpr value]
  | .varDecl name none => .list "var" [.word name.text]
  | .varDecl name (some initializer) => .list "var" [.word name.text, ofExpr initializer]
  | .block body => .list "block" (ofStmts body)
  | .ifElse condition thenBranch none => .list "if" [ofExpr condition, ofStmt thenBranch]
  | .ifElse condition thenBranch (some elseBranch) =>
    .list "if" [ofExpr condition, ofStmt thenBranch, ofStmt elseBranch]
  | .whileLoop condition body => .list "while" [ofExpr condition, ofStmt body]
  | .funDecl function => ofFunction function
  | .returnWith _ none => .list "return" []
  | .returnWith _ (some value) => .list "return" [ofExpr value]
  | .classDecl name none methods => .list "class" (.word name.text :: ofFunctions methods)
  | .classDecl name (some superclass) methods =>
    .list "class" (.word name.text :: .word "<" :: .word superclass.name.text ::
      ofFunctions methods)

def ofStmts : List Stmt → List Form
  | [] => []
  | s :: ss => ofStmt s :: ofStmts ss

def ofFunction : FunctionOf Stmt → Form
  | ⟨name, parameters, body⟩ =>
    .list "fun" (.heading name.text (parameters.map Name.text) :: ofStmts body)

def ofFunctions : List (FunctionOf Stmt) → List Form
  | [] => []
  | f :: fs => ofFunction f :: ofFunctions fs

end

mutual

theorem text_ofExpr : (e : Expr) → (ofExpr e).text = e.prefixForm
  | .literal .nil | .literal (.bool _) | .literal (.number _) | .literal (.string _) => rfl
  | .variable _ _ | .this _ _ | .super _ _ _ => rfl
  | .grouping inner => congrArg (parenthesized ["group", ·]) (text_ofExpr inner)
  | .unary op _ operand => congrArg (parenthesized [op.text, ·]) (text_ofExpr operand)
  | .binary op _ left right | .logical op left right =>
    congrArg₂ (parenthesized [op.text, ·, ·]) (text_ofExpr left) (text_ofExpr right)
  | .assign _ name value => congrArg (parenthesized ["=", name.text, ·]) (text_ofExpr value)
  | .call callee _ arguments =>
    congrArg₂ (parenthesized <| "call" :: · :: ·) (text_ofExpr callee) (texts_ofExprs arguments)
  | .get object name => congrArg (parenthesized [".", ·, name.text]) (text_ofExpr object)
  | .set object name value =>
    congrArg₂ (parenthesized ["=", parenthesized [".", ·, name.text], ·]) (text_ofExpr object)
      (text_ofExpr value)

theorem texts_ofExprs : (es : List Expr) →
    text.texts (ofExpr.ofExprs es) = Expr.prefixForm.prefixForms es
  | [] => rfl
  | e :: es => congrArg₂ List.cons (text_ofExpr e) (texts_ofExprs es)

end

mutual

theorem text_ofStmt : (s : Stmt) → (ofStmt s).text = s.prefixForm
  | .expression value => congrArg (parenthesized [";", ·]) (text_ofExpr value)
  | .print value => congrArg (parenthesized ["print", ·]) (text_ofExpr value)
  | .varDecl _ none => rfl
  | .varDecl name (some initializer) =>
    congrArg (parenthesized ["var", name.text, ·]) (text_ofExpr initializer)
  | .block body => congrArg (parenthesized <| "block" :: ·) (texts_ofStmts body)
  | .ifElse condition thenBranch none =>
    congrArg₂ (parenthesized ["if", ·, ·]) (text_ofExpr condition) (text_ofStmt thenBranch)
  | .ifElse condition thenBranch (some elseBranch) => by
    simp only [ofStmt, text, text.texts, Stmt.prefixForm, text_ofExpr, text_ofStmt thenBranch,
      text_ofStmt elseBranch]
  | .whileLoop condition body =>
    congrArg₂ (parenthesized ["while", ·, ·]) (text_ofExpr condition) (text_ofStmt body)
  | .funDecl function => text_ofFunction function
  | .returnWith _ none => rfl
  | .returnWith _ (some value) => congrArg (parenthesized ["return", ·]) (text_ofExpr value)
  | .classDecl name none methods =>
    congrArg (parenthesized <| "class" :: name.text :: ·) (texts_ofFunctions methods)
  | .classDecl name (some superclass) methods =>
    congrArg (parenthesized <| "class" :: name.text :: "<" :: superclass.name.text :: ·)
      (texts_ofFunctions methods)

theorem texts_ofStmts : (body : List Stmt) → text.texts (ofStmts body) = Stmt.prefixForms body
  | [] => rfl
  | s :: ss => congrArg₂ List.cons (text_ofStmt s) (texts_ofStmts ss)

theorem text_ofFunction : (f : FunctionOf Stmt) → (ofFunction f).text = Stmt.functionForm f
  | ⟨name, parameters, body⟩ => by
    simp only [ofFunction, text, text.texts, texts_ofStmts body, Stmt.functionForm, parenthesized,
      String.append_assoc]

theorem texts_ofFunctions : (methods : List (FunctionOf Stmt)) →
    text.texts (ofFunctions methods) = Stmt.functionForms methods
  | [] => rfl
  | f :: fs => congrArg₂ List.cons (text_ofFunction f) (texts_ofFunctions fs)

end

/-- The expression that a single word stands for. -/
def wordExpr (text : String) : Expr :=
  if text = "nil" then .literal .nil
  else if text = "true" then .literal (.bool true)
  else if text = "false" then .literal (.bool false)
  else if text = "this" then .this 0 0
  else .variable 0 ⟨text, 0⟩

def unaryOp? (head : String) : Option UnaryOp :=
  [UnaryOp.negate, .not].find? (·.text == head)

def logicalOp? (head : String) : Option LogicalOp :=
  [LogicalOp.and, .or].find? (·.text == head)

def binaryOp? (head : String) : Option BinaryOp :=
  [BinaryOp.add, .subtract, .multiply, .divide, .less, .lessEqual, .greater, .greaterEqual, .equal,
    .notEqual].find? (·.text == head)

/-- The operation on the operands that the word is the operator of. -/
def operation (head : String) (parts : List Expr) : Expr :=
  match parts with
  | [operand] => ((unaryOp? head).map (.unary · 0 operand)).getD default
  | [left, right] =>
    ((binaryOp? head).map (.binary · 0 left right)).getD
      (((logicalOp? head).map (.logical · left right)).getD default)
  | _ => default

/-- The expression whose form has these items, which stand for these parts. -/
def listExpr (head : String) (items : List Form) (parts : List Expr) : Expr :=
  match head, items, parts with
  | "group", _, [inner] => .grouping inner
  | "call", _, callee :: arguments => .call callee 0 arguments
  | ".", [_, .word name], object :: _ => .get object ⟨name, 0⟩
  | "=", .word name :: _, [_, value] => .assign 0 ⟨name, 0⟩ value
  | "=", _, [.get object name, value] => .set object name value
  | "super", [.word method], _ => .super 0 0 ⟨method, 0⟩
  | head, _, parts => operation head parts

/-- The expression with that form, with 0 for its lines and numbers. -/
def toExpr : Form → Expr
  | .word text => wordExpr text
  | .number value => .literal (.number value)
  | .list head items => listExpr head items (toExprs items)
  | .heading _ _ => default
where
  toExprs : List Form → List Expr
    | [] => []
    | f :: fs => f.toExpr :: toExprs fs

/-- The function whose declaration is the statement. -/
def asFunction? : Stmt → Option FunctionDecl
  | .funDecl function => some function
  | _ => none

/-- The statement whose form has these items, which stand for these expressions or for these
statements. -/
def listStmt (head : String) (items : List Form) (exprs : List Expr) (stmts : List Stmt) : Stmt :=
  match head, items, exprs, stmts with
  | ";", _, [value], _ => .expression value
  | "print", _, [value], _ => .print value
  | "var", [.word name], _, _ => .varDecl ⟨name, 0⟩ none
  | "var", [.word name, _], [_, initializer], _ => .varDecl ⟨name, 0⟩ (some initializer)
  | "block", _, _, body => .block body
  | "if", _, [condition, _], [_, thenBranch] => .ifElse condition thenBranch none
  | "if", _, [condition, _, _], [_, thenBranch, elseBranch] =>
    .ifElse condition thenBranch (some elseBranch)
  | "while", _, [condition, _], [_, body] => .whileLoop condition body
  | "fun", .heading name parameters :: _, _, _ :: body =>
    .funDecl ⟨⟨name, 0⟩, parameters.map (⟨·, 0⟩), body⟩
  | "return", _, [], _ => .returnWith 0 none
  | "return", _, [value], _ => .returnWith 0 (some value)
  | "class", .word name :: .word "<" :: .word superclass :: _, _, _ :: _ :: _ :: methods =>
    .classDecl ⟨name, 0⟩ (some ⟨0, ⟨superclass, 0⟩⟩) (methods.filterMap asFunction?)
  | "class", .word name :: _, _, _ :: methods =>
    .classDecl ⟨name, 0⟩ none (methods.filterMap asFunction?)
  | _, _, _, _ => default

/-- The statement with that form, with 0 for its lines and numbers. -/
def toStmt : Form → Stmt
  | .list head items => listStmt head items (items.map toExpr) (toStmts items)
  | .word _ | .number _ | .heading _ _ => default
where
  toStmts : List Form → List Stmt
    | [] => []
    | f :: fs => f.toStmt :: toStmts fs

/-- The words for values. -/
def valueWords : List String := ["nil", "true", "false", "this"]

end Form

/-- A name is a word, but none for a value; a literal is a value or a finite number. -/
def Leaf.Distinct : Leaf → Prop
  | .name text => Form.IsWord text ∧ text ∉ Form.valueWords
  | .literal .nil | .literal (.bool _) => True
  | .literal (.number value) => Number.IsFinite value
  | .literal (.string _) => False

namespace Form

/-- All lines and numbers are 0. -/
abbrev nowhere : Nat → Nat := fun _ => 0

theorem toExpr_word {text : String} (h : text ∉ valueWords) :
    (word text).toExpr = .variable 0 ⟨text, 0⟩ := by
  simp only [valueWords, List.mem_cons, List.not_mem_nil, or_false, not_or] at h
  simp only [toExpr, wordExpr, h, if_false]

theorem toExpr_ofLiteral {value : Literal} (h : (Leaf.literal value).Distinct) :
    (ofLiteral value).toExpr = .literal value := by
  cases value with
  | nil => rfl
  | bool b => cases b <;> rfl
  | number value => rfl
  | string text => exact absurd h id

theorem listExpr_unary (op : UnaryOp) (items : List Form) (operand : Expr) :
    listExpr op.text items [operand] = .unary op 0 operand := by
  cases op <;> rfl

theorem listExpr_binary (op : BinaryOp) (items : List Form) (left right : Expr) :
    listExpr op.text items [left, right] = .binary op 0 left right := by
  cases op <;> rfl

theorem listExpr_logical (op : LogicalOp) (items : List Form) (left right : Expr) :
    listExpr op.text items [left, right] = .logical op left right := by
  cases op <;> rfl

mutual

/-- An expression is read back from its form. -/
theorem toExpr_ofExpr : (e : Expr) → (∀ leaf ∈ e.leaves, leaf.Distinct) →
    (ofExpr e).toExpr = e.onLines nowhere
  | .literal value, h => toExpr_ofLiteral (h _ List.mem_cons_self)
  | .grouping inner, h => congrArg Expr.grouping (toExpr_ofExpr inner h)
  | .unary op _ operand, h =>
    (listExpr_unary op _ _).trans (congrArg (Expr.unary op 0) (toExpr_ofExpr operand h))
  | .binary op _ left right, h => by
    rw [Expr.leaves, List.forall_mem_append] at h
    exact (listExpr_binary op _ _ _).trans
      (congrArg₂ (Expr.binary op 0) (toExpr_ofExpr left h.1) (toExpr_ofExpr right h.2))
  | .logical op left right, h => by
    rw [Expr.leaves, List.forall_mem_append] at h
    exact (listExpr_logical op _ _ _).trans
      (congrArg₂ (Expr.logical op) (toExpr_ofExpr left h.1) (toExpr_ofExpr right h.2))
  | .variable _ name, h => toExpr_word (h _ List.mem_cons_self).2
  | .assign _ name value, h => by
    rw [Expr.leaves, List.forall_mem_cons] at h
    exact congrArg (Expr.assign 0 ⟨name.text, 0⟩) (toExpr_ofExpr value h.2)
  | .call callee _ arguments, h => by
    rw [Expr.leaves, List.forall_mem_append] at h
    exact congrArg₂ (Expr.call · 0 ·) (toExpr_ofExpr callee h.1) (toExprs_ofExprs arguments h.2)
  | .get object name, h => by
    rw [Expr.leaves, List.forall_mem_append] at h
    exact congrArg (Expr.get · ⟨name.text, 0⟩) (toExpr_ofExpr object h.1)
  | .set object name value, h => by
    rw [Expr.leaves, List.forall_mem_append, List.forall_mem_cons] at h
    exact congrArg₂ (Expr.set · ⟨name.text, 0⟩ ·) (toExpr_ofExpr object h.1)
      (toExpr_ofExpr value h.2.2)
  | .this _ _, _ | .super _ _ _, _ => rfl

theorem toExprs_ofExprs : (es : List Expr) → (∀ leaf ∈ Expr.leaves.listLeaves es, leaf.Distinct) →
    toExpr.toExprs (ofExpr.ofExprs es) = Expr.onLines.listOnLines nowhere es
  | [], _ => rfl
  | e :: es, h => by
    rw [Expr.leaves.listLeaves, List.forall_mem_append] at h
    exact congrArg₂ List.cons (toExpr_ofExpr e h.1) (toExprs_ofExprs es h.2)

end

mutual

/-- A statement is read back from its form. -/
theorem toStmt_ofStmt : (s : Stmt) → (∀ leaf ∈ s.leaves, leaf.Distinct) →
    (ofStmt s).toStmt = s.onLines nowhere
  | .expression value, h => congrArg Stmt.expression (toExpr_ofExpr value h)
  | .print value, h => congrArg Stmt.print (toExpr_ofExpr value h)
  | .varDecl _ none, _ => rfl
  | .varDecl name (some initializer), h => by
    rw [Stmt.leaves, List.forall_mem_cons] at h
    exact congrArg (Stmt.varDecl ⟨name.text, 0⟩ <| some ·) (toExpr_ofExpr initializer h.2)
  | .block body, h => congrArg Stmt.block (toStmts_ofStmts body h)
  | .ifElse condition thenBranch none, h => by
    rw [Stmt.leaves, List.forall_mem_append] at h
    exact congrArg₂ (Stmt.ifElse · · none) (toExpr_ofExpr condition h.1)
      (toStmt_ofStmt thenBranch h.2)
  | .ifElse condition thenBranch (some elseBranch), h => by
    rw [Stmt.leaves, List.forall_mem_append, List.forall_mem_append] at h
    rw [Stmt.onLines, ← toExpr_ofExpr condition h.1.1, ← toStmt_ofStmt thenBranch h.1.2,
      ← toStmt_ofStmt elseBranch h.2]
    rfl
  | .whileLoop condition body, h => by
    rw [Stmt.leaves, List.forall_mem_append] at h
    exact congrArg₂ Stmt.whileLoop (toExpr_ofExpr condition h.1) (toStmt_ofStmt body h.2)
  | .funDecl function, h => toStmt_ofFunction function h
  | .returnWith _ none, _ => rfl
  | .returnWith _ (some value), h =>
    congrArg (Stmt.returnWith 0 <| some ·) (toExpr_ofExpr value h)
  | .classDecl name none methods, h => by
    rw [Stmt.leaves, List.forall_mem_cons, List.forall_mem_append] at h
    have hmethods := toStmts_ofFunctions methods h.2.2
    rw [Stmt.onLines, ← hmethods]
    obtain _ | ⟨⟨_, _, _⟩, _⟩ := methods <;> rfl
  | .classDecl name (some superclass) methods, h => by
    rw [Stmt.leaves, List.forall_mem_cons, List.forall_mem_append] at h
    rw [Stmt.onLines, ← toStmts_ofFunctions methods h.2.2]
    rfl

theorem toStmts_ofStmts : (body : List Stmt) → (∀ leaf ∈ Stmt.listLeaves body, leaf.Distinct) →
    toStmt.toStmts (ofStmts body) = Stmt.listOnLines nowhere body
  | [], _ => rfl
  | s :: ss, h => by
    rw [Stmt.listLeaves, List.forall_mem_append] at h
    exact congrArg₂ List.cons (toStmt_ofStmt s h.1) (toStmts_ofStmts ss h.2)

theorem toStmt_ofFunction : (f : FunctionOf Stmt) →
    (∀ leaf ∈ Stmt.functionLeaves f, leaf.Distinct) →
    (ofFunction f).toStmt = .funDecl (Stmt.functionOnLines nowhere f)
  | ⟨name, parameters, body⟩, h => by
    rw [Stmt.functionLeaves, List.forall_mem_cons, List.forall_mem_append] at h
    rw [Stmt.functionOnLines, ← toStmts_ofStmts body h.2.2, ofFunction, toStmt]
    show Stmt.funDecl ⟨⟨name.text, 0⟩, (parameters.map Name.text).map (⟨·, 0⟩), _⟩ = _
    rw [List.map_map]
    rfl

theorem toStmts_ofFunctions : (methods : List (FunctionOf Stmt)) →
    (∀ leaf ∈ Stmt.methodsLeaves methods, leaf.Distinct) →
    (toStmt.toStmts (ofFunctions methods)).filterMap asFunction? =
      Stmt.methodsOnLines nowhere methods
  | [], _ => rfl
  | f :: fs, h => by
    rw [Stmt.methodsLeaves, List.forall_mem_append] at h
    rw [ofFunctions, toStmt.toStmts, toStmt_ofFunction f h.1, Stmt.methodsOnLines,
      ← toStmts_ofFunctions fs h.2]
    rfl

end

theorem spelled_ofLiteral {value : Literal} (h : (Leaf.literal value).Distinct) :
    (ofLiteral value).Spelled := by
  cases value with
  | nil => exact isWord_of_all (by decide) (by decide)
  | bool b => cases b <;> exact isWord_of_all (by decide) (by decide)
  | number value => exact h
  | string text => exact absurd h id

theorem plain_unaryOp (op : UnaryOp) : ∀ c ∈ op.text.toList, IsPlain c :=
  plain_of_all (by cases op <;> decide)

theorem plain_binaryOp (op : BinaryOp) : ∀ c ∈ op.text.toList, IsPlain c :=
  plain_of_all (by cases op <;> decide)

theorem plain_logicalOp (op : LogicalOp) : ∀ c ∈ op.text.toList, IsPlain c :=
  plain_of_all (by cases op <;> decide)

mutual

theorem spelled_ofExpr : (e : Expr) → (∀ leaf ∈ e.leaves, leaf.Distinct) → (ofExpr e).Spelled
  | .literal _, h => spelled_ofLiteral (h _ List.mem_cons_self)
  | .grouping inner, h => ⟨plain_of_all (by decide), spelled_ofExpr inner h, trivial⟩
  | .unary op _ operand, h => ⟨plain_unaryOp op, spelled_ofExpr operand h, trivial⟩
  | .binary op _ left right, h => by
    rw [Expr.leaves, List.forall_mem_append] at h
    exact ⟨plain_binaryOp op, spelled_ofExpr left h.1, spelled_ofExpr right h.2, trivial⟩
  | .logical op left right, h => by
    rw [Expr.leaves, List.forall_mem_append] at h
    exact ⟨plain_logicalOp op, spelled_ofExpr left h.1, spelled_ofExpr right h.2, trivial⟩
  | .variable _ _, h => (h _ List.mem_cons_self).1
  | .assign _ _ value, h => by
    rw [Expr.leaves, List.forall_mem_cons] at h
    exact ⟨plain_of_all (by decide), h.1.1, spelled_ofExpr value h.2, trivial⟩
  | .call callee _ arguments, h => by
    rw [Expr.leaves, List.forall_mem_append] at h
    exact ⟨plain_of_all (by decide), spelled_ofExpr callee h.1, allSpelled_ofExprs arguments h.2⟩
  | .get object _, h => by
    rw [Expr.leaves, List.forall_mem_append, List.forall_mem_singleton] at h
    exact ⟨plain_of_all (by decide), spelled_ofExpr object h.1, h.2.1, trivial⟩
  | .set object _ value, h => by
    rw [Expr.leaves, List.forall_mem_append, List.forall_mem_cons] at h
    exact ⟨plain_of_all (by decide), ⟨plain_of_all (by decide), spelled_ofExpr object h.1, h.2.1.1, trivial⟩,
      spelled_ofExpr value h.2.2, trivial⟩
  | .this _ _, _ => isWord_of_all (by decide) (by decide)
  | .super _ _ _, h => ⟨plain_of_all (by decide), (h _ List.mem_cons_self).1, trivial⟩

theorem allSpelled_ofExprs : (es : List Expr) →
    (∀ leaf ∈ Expr.leaves.listLeaves es, leaf.Distinct) → AllSpelled (ofExpr.ofExprs es)
  | [], _ => trivial
  | e :: es, h => by
    rw [Expr.leaves.listLeaves, List.forall_mem_append] at h
    exact ⟨spelled_ofExpr e h.1, allSpelled_ofExprs es h.2⟩

end

mutual

theorem spelled_ofStmt : (s : Stmt) → (∀ leaf ∈ s.leaves, leaf.Distinct) → (ofStmt s).Spelled
  | .expression value, h | .print value, h => ⟨plain_of_all (by decide), spelled_ofExpr value h, trivial⟩
  | .varDecl _ none, h => ⟨plain_of_all (by decide), (h _ List.mem_cons_self).1, trivial⟩
  | .varDecl _ (some initializer), h => by
    rw [Stmt.leaves, List.forall_mem_cons] at h
    exact ⟨plain_of_all (by decide), h.1.1, spelled_ofExpr initializer h.2, trivial⟩
  | .block body, h => ⟨plain_of_all (by decide), allSpelled_ofStmts body h⟩
  | .ifElse condition thenBranch none, h => by
    rw [Stmt.leaves, List.forall_mem_append] at h
    exact ⟨plain_of_all (by decide), spelled_ofExpr condition h.1, spelled_ofStmt thenBranch h.2, trivial⟩
  | .ifElse condition thenBranch (some elseBranch), h => by
    rw [Stmt.leaves, List.forall_mem_append, List.forall_mem_append] at h
    exact ⟨plain_of_all (by decide), spelled_ofExpr condition h.1.1, spelled_ofStmt thenBranch h.1.2,
      spelled_ofStmt elseBranch h.2, trivial⟩
  | .whileLoop condition body, h => by
    rw [Stmt.leaves, List.forall_mem_append] at h
    exact ⟨plain_of_all (by decide), spelled_ofExpr condition h.1, spelled_ofStmt body h.2, trivial⟩
  | .funDecl function, h => spelled_ofFunction function h
  | .returnWith _ none, _ => ⟨plain_of_all (by decide), trivial⟩
  | .returnWith _ (some value), h => ⟨plain_of_all (by decide), spelled_ofExpr value h, trivial⟩
  | .classDecl _ none methods, h => by
    rw [Stmt.leaves, List.forall_mem_cons, List.forall_mem_append] at h
    exact ⟨plain_of_all (by decide), h.1.1, allSpelled_ofFunctions methods h.2.2⟩
  | .classDecl _ (some superclass) methods, h => by
    rw [Stmt.leaves, List.forall_mem_cons, List.forall_mem_append] at h
    exact ⟨plain_of_all (by decide), h.1.1, isWord_of_all (by decide) (by decide),
      (h.2.1 superclass.name.leaf List.mem_cons_self).1, allSpelled_ofFunctions methods h.2.2⟩

theorem allSpelled_ofStmts : (body : List Stmt) →
    (∀ leaf ∈ Stmt.listLeaves body, leaf.Distinct) → AllSpelled (ofStmts body)
  | [], _ => trivial
  | s :: ss, h => by
    rw [Stmt.listLeaves, List.forall_mem_append] at h
    exact ⟨spelled_ofStmt s h.1, allSpelled_ofStmts ss h.2⟩

theorem spelled_ofFunction : (f : FunctionOf Stmt) →
    (∀ leaf ∈ Stmt.functionLeaves f, leaf.Distinct) → (ofFunction f).Spelled
  | ⟨name, parameters, body⟩, h => by
    rw [Stmt.functionLeaves, List.forall_mem_cons, List.forall_mem_append] at h
    have hparameters : ∀ p ∈ parameters.map Name.text, IsWord p := by
      rw [List.forall_mem_map]
      exact fun p hp => (h.2.1 p.leaf (List.mem_map_of_mem hp)).1
    exact ⟨plain_of_all (by decide), ⟨h.1.1, hparameters⟩, allSpelled_ofStmts body h.2.2⟩

theorem allSpelled_ofFunctions : (methods : List (FunctionOf Stmt)) →
    (∀ leaf ∈ Stmt.methodsLeaves methods, leaf.Distinct) → AllSpelled (ofFunctions methods)
  | [], _ => trivial
  | f :: fs, h => by
    rw [Stmt.methodsLeaves, List.forall_mem_append] at h
    exact ⟨spelled_ofFunction f h.1, allSpelled_ofFunctions fs h.2⟩

end

end Form

/-- Statements with one prefix form are the same but for their lines and numbers, if their names
are proper ones and their literals are neither strings nor infinite. -/
theorem Stmt.onLines_eq_of_prefixForm {s t : Stmt} (hs : ∀ leaf ∈ s.leaves, leaf.Distinct)
    (ht : ∀ leaf ∈ t.leaves, leaf.Distinct) (h : s.prefixForm = t.prefixForm) :
    s.onLines Form.nowhere = t.onLines Form.nowhere := by
  rw [← Form.text_ofStmt, ← Form.text_ofStmt] at h
  have hform := Form.eq_of_text (Form.spelled_ofStmt s hs) (Form.spelled_ofStmt t ht) h
  rw [← Form.toStmt_ofStmt s hs, ← Form.toStmt_ofStmt t ht, hform]

end Lox
