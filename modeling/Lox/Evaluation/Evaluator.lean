import Lox.Evaluation.Calls

/-!
# Evaluation of expressions and statements

The rules for each form of expression and statement, given the evaluation of the parts, and the
evaluator that ties them together. The evaluator is given fuel: how deep evaluations may nest, and
how often a loop may repeat. More fuel never changes the result of an evaluation that ends with
less.
-/
namespace Lox.Evaluation

/-- How the parts of an expression or statement are evaluated. -/
structure Inner where
  /-- How often a loop may repeat. -/
  limit : Nat
  evaluate : Expr → Eval Value
  execute : Stmt → Eval Completion

variable (inner : Inner)

/-- The rules for expressions. Operands are evaluated from left to right. -/
@[inline] def evaluateForm : Expr → Eval Value
  | .literal value => return value.value
  | .grouping e => inner.evaluate e
  | .unary op line operand => do
    atLine line (op.apply (← inner.evaluate operand))
  | .binary op line left right => do
    let left ← inner.evaluate left
    let right ← inner.evaluate right
    atLine line (op.apply left right)
  | .logical op left right => do
    let left ← inner.evaluate left
    if op.settledBy left then return left else inner.evaluate right
  | .variable id name => readVariable id name
  | .assign id name value => do
    let value ← inner.evaluate value
    writeVariable id name value
    return value
  | .call callee line arguments => do
    let callee ← inner.evaluate callee
    let arguments ← evaluateAll inner.evaluate arguments []
    callValue inner.execute callee line arguments
  | .get object name => do
    match ← inner.evaluate object with
    | .instanceRef id => readProperty id name
    | _ => fail .propertyOfNonInstance name.line
  | .set object name value => do
    match ← inner.evaluate object with
    | .instanceRef id =>
      let value ← inner.evaluate value
      modifyStore (·.setField id name.text value)
      return value
    | _ => fail .fieldOfNonInstance name.line
  | .this id line => readVariable id ⟨"this", line⟩
  | .super id line method => superMethod id line method

/-- The value of an optional expression, `nil` if it is absent. -/
def evaluate? : Option Expr → Eval Value
  | some e => inner.evaluate e
  | none => return .nil

/-- The rules for statements. -/
@[inline] def executeForm : Stmt → Eval Completion
  | .expression e => do
    let _ ← inner.evaluate e
    return .normal
  | .print e => do
    let value ← inner.evaluate e
    printLine ((← getStore).display value)
    return .normal
  | .varDecl name initializer => do
    defineHere name.text (← evaluate? inner initializer)
    return .normal
  | .block body => do
    let enclosing := some (← get).scope
    let scope ← allocate (·.newScope { enclosing })
    inScope scope (runAll inner.execute body)
  | .ifElse condition thenBranch elseBranch => do
    if (← inner.evaluate condition).isTruthy then
      inner.execute thenBranch
    else
      match elseBranch with
      | some elseBranch => inner.execute elseBranch
      | none => return .normal
  | .whileLoop condition body =>
    loop (Value.isTruthy <$> inner.evaluate condition) (inner.execute body) inner.limit
  | .funDecl declaration => do
    let closure := (← get).scope
    let f ← allocate (·.newFunction { declaration, closure, isInitializer := false })
    defineHere declaration.name.text (.functionRef f)
    return .normal
  | .returnWith _ value => return .returned (← evaluate? inner value)
  | .classDecl name superclass methods => do
    declareClass inner.evaluate name superclass methods
    return .normal

mutual

/-- Evaluates an expression. -/
def evaluate : (fuel : Nat) → Expr → Eval Value
  | 0, _ => throw .outOfFuel
  | fuel + 1, e => fun m => evaluateForm ⟨fuel, evaluate fuel, execute fuel⟩ e m

/-- Executes a statement. -/
def execute : (fuel : Nat) → Stmt → Eval Completion
  | 0, _ => throw .outOfFuel
  | fuel + 1, s => fun m => executeForm ⟨fuel, evaluate fuel, execute fuel⟩ s m

end

/-- Runs a program until it ends, fails or returns. -/
def interpret (fuel : Nat) (program : List Stmt) : Eval Unit := do
  let _ ← runAll (execute fuel) program

/-- Fuel for every evaluation that a computer can carry out. -/
def ampleFuel : Nat := Nat.pow 2 62 - 1

@[simp] theorem evaluate_succ (fuel : Nat) (e : Expr) :
    evaluate (fuel + 1) e = evaluateForm ⟨fuel, evaluate fuel, execute fuel⟩ e := by
  rw [evaluate]

@[simp] theorem execute_succ (fuel : Nat) (s : Stmt) :
    execute (fuel + 1) s = executeForm ⟨fuel, evaluate fuel, execute fuel⟩ s := by
  rw [execute]

end Lox.Evaluation
