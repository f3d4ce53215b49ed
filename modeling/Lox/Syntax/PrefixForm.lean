import Lox.Number.Text
import Lox.Syntax.Tree

/-!
# Prefix form

The text of a syntax tree in which each node is a list in parentheses with its operator first.
-/
namespace Lox

def UnaryOp.text : UnaryOp → String
  | negate => "-"
  | not => "!"

def BinaryOp.text : BinaryOp → String
  | add => "+" | subtract => "-" | multiply => "*" | divide => "/"
  | less => "<" | lessEqual => "<=" | greater => ">" | greaterEqual => ">="
  | equal => "==" | notEqual => "!="

def LogicalOp.text : LogicalOp → String
  | and => "and"
  | or => "or"

namespace Literal

/-- Whole numbers are written with all their digits and a zero fraction, others in full by their
shortest digits. -/
def numberStyle : Number.Style where
  infinity := "inf"
  tie := .upward
  signedZero := true
  allDigits _ := true
  positional _ := true
  wholeFraction := false
  mark := "e"
  plus := ""
  mantissaFraction := false

def prefixForm : Literal → String
  | nil => "nil"
  | bool value => if value then "true" else "false"
  | number value => numberStyle.write value
  | string value => value

end Literal

/-- The items in parentheses, with one space between them. -/
def parenthesized (items : List String) : String := "(" ++ " ".intercalate items ++ ")"

def Expr.prefixForm : Expr → String
  | .literal value => value.prefixForm
  | .grouping inner => parenthesized ["group", inner.prefixForm]
  | .unary op _ operand => parenthesized [op.text, operand.prefixForm]
  | .binary op _ left right => parenthesized [op.text, left.prefixForm, right.prefixForm]
  | .logical op left right => parenthesized [op.text, left.prefixForm, right.prefixForm]
  | .variable _ name => name.text
  | .assign _ name value => parenthesized ["=", name.text, value.prefixForm]
  | .call callee _ arguments =>
    parenthesized ("call" :: callee.prefixForm :: prefixForms arguments)
  | .get object name => parenthesized [".", object.prefixForm, name.text]
  | .set object name value =>
    parenthesized ["=", parenthesized [".", object.prefixForm, name.text], value.prefixForm]
  | .this _ _ => "this"
  | .super _ _ method => parenthesized ["super", method.text]
where
  prefixForms : List Expr → List String
    | [] => []
    | e :: es => e.prefixForm :: prefixForms es

mutual

def Stmt.prefixForm : Stmt → String
  | .expression value => parenthesized [";", value.prefixForm]
  | .print value => parenthesized ["print", value.prefixForm]
  | .varDecl name none => parenthesized ["var", name.text]
  | .varDecl name (some initializer) => parenthesized ["var", name.text, initializer.prefixForm]
  | .block body => parenthesized ("block" :: Stmt.prefixForms body)
  | .ifElse condition thenBranch none =>
    parenthesized ["if", condition.prefixForm, thenBranch.prefixForm]
  | .ifElse condition thenBranch (some elseBranch) =>
    parenthesized ["if", condition.prefixForm, thenBranch.prefixForm, elseBranch.prefixForm]
  | .whileLoop condition body => parenthesized ["while", condition.prefixForm, body.prefixForm]
  | .funDecl function => Stmt.functionForm function
  | .returnWith _ none => parenthesized ["return"]
  | .returnWith _ (some value) => parenthesized ["return", value.prefixForm]
  | .classDecl name superclass methods =>
    let heading :=
      match superclass with
      | none => ["class", name.text]
      | some superclass => ["class", name.text, "<", superclass.name.text]
    parenthesized (heading ++ Stmt.functionForms methods)

def Stmt.prefixForms : List Stmt → List String
  | [] => []
  | s :: ss => s.prefixForm :: Stmt.prefixForms ss

def Stmt.functionForm : FunctionOf Stmt → String
  | ⟨name, parameters, body⟩ =>
    let heading := name.text ++ "(" ++ " ".intercalate (parameters.map Name.text) ++ ")"
    parenthesized ("fun" :: heading :: Stmt.prefixForms body)

def Stmt.functionForms : List (FunctionOf Stmt) → List String
  | [] => []
  | f :: fs => Stmt.functionForm f :: Stmt.functionForms fs

end

end Lox
