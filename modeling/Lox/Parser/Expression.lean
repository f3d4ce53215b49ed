import Lox.Parser.Basic

/-!
# Parsing expressions

One definition for each level of precedence, loosest last:

    primary, call        names, literals, parentheses; calls and properties
    unary                ! -                 to the right
    factor               / *                 to the left
    term                 - +                 to the left
    comparison           > >= < <=           to the left
    equality             != ==               to the left
    conjunction          and                 to the left
    disjunction          or                  to the left
    assignment           =                   to the right

Inner expressions (in parentheses, in argument lists, and on the right of an assignment) are read
by the step that each level is given. They stand after at least one token of the outer expression,
so a bound on the tokens that are left is also one on the depth of nesting and on every loop.
-/
namespace Lox.Parser

/-- How an operator combines its operands. -/
abbrev Combine := Expr → Expr → Expr

/-- The symbol of a token. -/
def symbol? (token : Token) : Option Symbol :=
  match token.kind with
  | .symbol s => some s
  | _ => none

/-- The binary operators among `ops`. -/
def binary? (ops : Symbol → Option BinaryOp) (token : Token) : Option Combine :=
  (symbol? token).bind fun s => (ops s).map fun op => .binary op token.line

def logical? (symbol : Symbol) (op : LogicalOp) (token : Token) : Option Combine :=
  (only symbol token).map fun _ => .logical op

def factorOp : Symbol → Option BinaryOp
  | .slash => some .divide
  | .star => some .multiply
  | _ => none

def termOp : Symbol → Option BinaryOp
  | .minus => some .subtract
  | .plus => some .add
  | _ => none

def comparisonOp : Symbol → Option BinaryOp
  | .greater => some .greater
  | .greaterEqual => some .greaterEqual
  | .less => some .less
  | .lessEqual => some .lessEqual
  | _ => none

def equalityOp : Symbol → Option BinaryOp
  | .bangEqual => some .notEqual
  | .equalEqual => some .equal
  | _ => none

def unaryOp : Symbol → Option UnaryOp
  | .bang => some .not
  | .minus => some .negate
  | _ => none

def unary? (token : Token) : Option (Expr → Expr) :=
  (symbol? token).bind fun s => (unaryOp s).map fun op => .unary op token.line

/-- The literals, the reserved words for values included. -/
def literal? (token : Token) : Option Literal :=
  match token.kind with
  | .symbol .kwFalse => some (.bool false)
  | .symbol .kwTrue => some (.bool true)
  | .symbol .kwNil => some .nil
  | .number value => some (.number value)
  | .string text => some (.string text)
  | _ => none

/-- `super . name`, after the reserved word. -/
def superclassMethod (keyword : Token) : Parse Expr := do
  let _ ← expect .dot "'.' after 'super'"
  let method ← expectName "superclass method name"
  return .super (← freshId) keyword.line method

/-- A literal, a name, `this`, a method of `super`, or an expression in parentheses. -/
def primary (nested : Parse Expr) : Parse Expr := do
  if let some value ← accept? literal? then
    return .literal value
  if let some keyword ← accept? (only .kwSuper) then
    return ← superclassMethod keyword
  if let some keyword ← accept? (only .kwThis) then
    return .this (← freshId) keyword.line
  if let some name ← accept? name? then
    return .variable (← freshId) name
  if ← accept .leftParen then
    let inner ← nested
    let _ ← expect .rightParen "')' after expression"
    return .grouping inner
  fail (.missing "expression")

/-- The arguments of a call, after the opening parenthesis. -/
def finishCall (limit : Nat) (nested : Parse Expr) (callee : Expr) : Parse Expr := do
  let arguments ← listItems .tooManyArguments nested limit
  let paren ← expect .rightParen "')' after arguments"
  return .call callee paren.line arguments

/-- The calls and properties that follow `callee`, at most `limit` of them. -/
def callSuffixes (bound : Nat) (nested : Parse Expr) : (limit : Nat) → Expr → Parse Expr
  | 0, callee => return callee
  | limit + 1, callee => do
    if ← accept .leftParen then
      callSuffixes bound nested limit (← finishCall bound nested callee)
    else if ← accept .dot then
      let name ← expectName "property name after '.'"
      callSuffixes bound nested limit (.get callee name)
    else
      return callee

def call (limit : Nat) (nested : Parse Expr) : Parse Expr := do
  callSuffixes limit nested limit (← primary nested)

/-- At most `limit` unary operators before an operand. -/
def unary (operand : Parse Expr) : (limit : Nat) → Parse Expr
  | 0 => operand
  | limit + 1 => do
    match ← accept? unary? with
    | some build => return build (← unary operand limit)
    | none => operand

/-- The operators and operands that follow `left`, at most `limit` of them. -/
def operations (operator? : Token → Option Combine) (operand : Parse Expr) :
    (limit : Nat) → Expr → Parse Expr
  | 0, left => return left
  | limit + 1, left => do
    match ← accept? operator? with
    | some combine => operations operator? operand limit (combine left (← operand))
    | none => return left

/-- Operands with operators between them, grouped to the left. -/
def leftAssociative (operator? : Token → Option Combine) (operand : Parse Expr) (limit : Nat) :
    Parse Expr := do
  operations operator? operand limit (← operand)

def factor (limit : Nat) (nested : Parse Expr) : Parse Expr :=
  leftAssociative (binary? factorOp) (unary (call limit nested) limit) limit

def term (limit : Nat) (nested : Parse Expr) : Parse Expr :=
  leftAssociative (binary? termOp) (factor limit nested) limit

def comparison (limit : Nat) (nested : Parse Expr) : Parse Expr :=
  leftAssociative (binary? comparisonOp) (term limit nested) limit

def equality (limit : Nat) (nested : Parse Expr) : Parse Expr :=
  leftAssociative (binary? equalityOp) (comparison limit nested) limit

def conjunction (limit : Nat) (nested : Parse Expr) : Parse Expr :=
  leftAssociative (logical? .kwAnd .and) (equality limit nested) limit

def disjunction (limit : Nat) (nested : Parse Expr) : Parse Expr :=
  leftAssociative (logical? .kwOr .or) (conjunction limit nested) limit

/-- The assignment of `value` to `target`. A target that cannot be assigned to is an error that is
recorded at the equals sign; the target alone is then the result. -/
def assignTo (target : Expr) (equals : Token) (value : Expr) : Parse Expr :=
  match target with
  | .variable _ name => return .assign (← freshId) name value
  | .get object name => return .set object name value
  | other => do
    record ⟨.invalidAssignmentTarget, equals⟩
    return other

/-- A target, an equals sign and a value, or an expression without an equals sign. -/
def assignment (limit : Nat) (nested : Parse Expr) : Parse Expr := do
  let target ← disjunction limit nested
  match ← accept? (only .equal) with
  | some equals => assignTo target equals (← nested)
  | none => return target

/-- An expression of which fewer than `depth` tokens are left. -/
def expression : (depth : Nat) → Parse Expr
  | 0 => fail (.missing "expression")
  | depth + 1 => fun s => assignment depth (expression depth) s

end Lox.Parser
