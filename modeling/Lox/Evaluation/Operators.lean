import Lox.Evaluation.Machine

/-!
# Operators

The results of operators on values. Arithmetic and order are those of doubles; only numbers have
them, except that strings can be joined.
-/
namespace Lox

def Literal.value : Literal → Value
  | nil => .nil
  | bool value => .bool value
  | number value => .number value
  | string text => .string text

def UnaryOp.apply (op : UnaryOp) (operand : Value) : Except RuntimeError.Cause Value :=
  match op, operand with
  | not, operand => .ok (.bool !operand.isTruthy)
  | negate, .number x => .ok (.number (-x))
  | negate, _ => .error .operandNotNumber

namespace BinaryOp

def add? : Value → Value → Except RuntimeError.Cause Value
  | .number a, .number b => .ok (.number (a + b))
  | .string a, .string b => .ok (.string (a ++ b))
  | _, _ => .error .operandsNotAddable

/-- The result of an operator that takes two numbers. -/
def onNumbers (f : Float → Float → Value) : Value → Value → Except RuntimeError.Cause Value
  | .number a, .number b => .ok (f a b)
  | _, _ => .error .operandsNotNumbers

def apply (op : BinaryOp) (left right : Value) : Except RuntimeError.Cause Value :=
  match op with
  | add => add? left right
  | subtract => onNumbers (fun a b => .number (a - b)) left right
  | multiply => onNumbers (fun a b => .number (a * b)) left right
  | divide => onNumbers (fun a b => .number (a / b)) left right
  | less => onNumbers (fun a b => .bool (a < b)) left right
  | lessEqual => onNumbers (fun a b => .bool (a ≤ b)) left right
  | greater => onNumbers (fun a b => .bool (b < a)) left right
  | greaterEqual => onNumbers (fun a b => .bool (b ≤ a)) left right
  | equal => .ok (.bool (left.equals right))
  | notEqual => .ok (.bool !left.equals right)

end BinaryOp

/-- Whether the left operand alone settles the result. -/
def LogicalOp.settledBy (op : LogicalOp) (left : Value) : Bool :=
  match op with
  | or => left.isTruthy
  | and => !left.isTruthy

/-- The result of an operator on `line`. -/
def Evaluation.atLine (line : Nat) : Except RuntimeError.Cause Value → Eval Value
  | .ok value => return value
  | .error cause => fail cause line

end Lox
