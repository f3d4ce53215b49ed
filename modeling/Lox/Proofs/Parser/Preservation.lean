import Lox.Proofs.Parser.Recovery

/-!
# What holds of every parsing step

The parser is put together from a few kinds of steps by sequencing, by the right-hand side of an
assignment, and by going on after an error. A property of steps that these keep holds of the whole
parser, however deeply statements and expressions are nested. What sequencing and assignments keep
holds of every step that has no declarations in it; what goes on after an error may then depend on
where a declaration starts.
-/
namespace Lox

/-- Whether such an error stops the declaration that it is found in. -/
def SyntaxError.Cause.isFatal : SyntaxError.Cause → Bool
  | .missing _ => true
  | .invalidAssignmentTarget | .tooManyParameters | .tooManyArguments => false

def SyntaxError.isFatal (error : SyntaxError) : Bool := error.cause.isFatal

namespace Parser
variable {α β : Type}

/-- What follows the target in an assignment expression: an equals sign and a value, or nothing. -/
def assignmentRest (nested : Parse Expr) (target : Expr) : Parse Expr := do
  match ← accept? (only .equal) with
  | some equals => assignTo target equals (← nested)
  | none => return target

theorem assignment_eq (limit : Nat) (nested : Parse Expr) :
    assignment limit nested = disjunction limit nested >>= assignmentRest nested := rfl

theorem bind_recordNext (cause : SyntaxError.Cause) (step : Parse α) :
    ((do record ⟨cause, ← peek⟩ : Parse Unit) >>= fun _ => step) =
      peek >>= fun token => record ⟨cause, token⟩ >>= fun _ => step := by
  funext s
  simp only [bind, EStateM.bind]
  cases peek s <;> rfl

/-- A property of steps that everything has that is put together from steps with it, as long as no
step goes on after an error. Only items that are too many and invalid assignment targets are then
recorded, so nothing is asked of other records. -/
structure Composed (P : ∀ {α : Type}, Parse α → Prop) : Prop where
  pure {α : Type} (a : α) : P (pure a : Parse α)
  bind {α β : Type} {x : Parse α} {f : α → Parse β} : P x → (∀ a, P (f a)) → P (x >>= f)
  peek : P peek
  accept? {α : Type} {f : Token → Option α} : Skips f → P (accept? f)
  fail {α : Type} {cause : SyntaxError.Cause} : cause.isFatal = true → P (fail cause : Parse α)
  freshId : P freshId
  recordNext {cause : SyntaxError.Cause} : cause.isFatal = false →
    P (do record ⟨cause, ← Parser.peek⟩)
  assignmentRest (depth : Nat) (target : Expr) :
    P (expression depth) → P (assignmentRest (expression depth) target)

/-- A property that everything has that the parser puts together from steps with it. -/
structure Preserved (P : ∀ {α : Type}, Parse α → Prop) : Prop extends Composed P where
  recovering {α : Type} {step : Parse α} : P step → P (recovering step)

variable {P : ∀ {α : Type}, Parse α → Prop}

namespace Composed
variable (h : Composed P)
include h

theorem map {x : Parse α} (g : α → β) (hx : P x) : P (g <$> x) := by
  have heq : g <$> x = x >>= fun a => Pure.pure (g a) := by
    funext s
    simp only [Functor.map, EStateM.map, Bind.bind, EStateM.bind]
    cases x s <;> rfl
  rw [heq]
  exact h.bind hx fun a => h.pure (g a)

omit h in
theorem ite {x y : Parse α} (c : Prop) [Decidable c] (hx : P x) (hy : P y) :
    P (if c then x else y) := by
  split
  · exact hx
  · exact hy

theorem accept (symbol : Symbol) : P (accept symbol) :=
  h.bind (h.accept? (skips_only symbol)) fun _ => h.pure _

theorem check (symbol : Symbol) : P (check symbol) := h.bind h.peek fun _ => h.pure _

theorem atEnd : P atEnd := h.bind h.peek fun _ => h.pure _

theorem require {f : Token → Option α} (hf : Skips f) (what : String) : P (require f what) := by
  refine h.bind (h.accept? hf) fun a => ?_
  cases a with
  | some a => exact h.pure a
  | none => exact h.fail rfl

theorem expect (symbol : Symbol) (what : String) : P (expect symbol what) :=
  h.require (skips_only symbol) what

theorem expectName (what : String) : P (expectName what) := h.require skips_name? what

theorem commaSeparated {item : Parse α} {tooMany : SyntaxError.Cause}
    (hmany : tooMany.isFatal = false) (hitem : P item) (limit count : Nat) :
    P (commaSeparated tooMany item limit count) := by
  induction limit generalizing count with
  | zero => exact h.pure _
  | succ limit ih =>
    unfold Parser.commaSeparated
    have hrest : P (do
        let first ← item
        if ← Parser.accept .comma then
          return first :: (← Parser.commaSeparated tooMany item limit (count + 1))
        else
          return [first]) := by
      refine h.bind hitem fun first => h.bind (h.accept .comma) fun more => ite _ ?_ (h.pure _)
      exact h.bind (ih (count + 1)) fun _ => h.pure _
    exact ite _ (bind_recordNext tooMany _ ▸ h.bind (h.recordNext hmany) fun _ => hrest) hrest

theorem listItems {item : Parse α} {tooMany : SyntaxError.Cause}
    (hmany : tooMany.isFatal = false) (hitem : P item) (limit : Nat) :
    P (listItems tooMany item limit) :=
  h.bind (h.check .rightParen) fun _ =>
    ite _ (h.pure _) (h.commaSeparated hmany hitem limit 0)

theorem untilRightBrace {item : Parse α} (hitem : P item) (limit : Nat) :
    P (untilRightBrace item limit) := by
  induction limit with
  | zero => exact h.pure _
  | succ limit ih =>
    refine h.bind (h.check .rightBrace) fun _ => h.bind h.atEnd fun _ => ite _ (h.pure _) ?_
    exact h.bind hitem fun _ => h.bind ih fun _ => h.pure _

theorem superclassMethod (keyword : Token) : P (superclassMethod keyword) :=
  h.bind (h.expect .dot _) fun _ => h.bind (h.expectName _) fun _ => h.bind h.freshId fun _ =>
    h.pure _

theorem primary {nested : Parse Expr} (hnested : P nested) : P (primary nested) := by
  unfold Parser.primary
  refine h.bind (h.accept? skips_literal?) fun value => ?_
  cases value with
  | some value => exact h.pure _
  | none =>
  refine h.bind (h.accept? (skips_only _)) fun keyword => ?_
  cases keyword with
  | some keyword => exact h.superclassMethod keyword
  | none =>
  refine h.bind (h.accept? (skips_only _)) fun keyword => ?_
  cases keyword with
  | some keyword => exact h.bind h.freshId fun _ => h.pure _
  | none =>
  refine h.bind (h.accept? skips_name?) fun name => ?_
  cases name with
  | some name => exact h.bind h.freshId fun _ => h.pure _
  | none =>
  refine h.bind (h.accept _) fun paren => ite _ ?_ (h.fail rfl)
  exact h.bind hnested fun _ => h.bind (h.expect _ _) fun _ => h.pure _

theorem callSuffixes {nested : Parse Expr} (hnested : P nested) (bound limit : Nat)
    (callee : Expr) : P (callSuffixes bound nested limit callee) := by
  induction limit generalizing callee with
  | zero => exact h.pure _
  | succ limit ih =>
    refine h.bind (h.accept _) fun paren => ite _ ?_ ?_
    · refine h.bind ?_ fun _ => ih _
      exact h.bind (h.listItems rfl hnested bound) fun _ => h.bind (h.expect _ _) fun _ => h.pure _
    · refine h.bind (h.accept _) fun dot => ite _ ?_ (h.pure _)
      exact h.bind (h.expectName _) fun name => ih _

theorem unary {operand : Parse Expr} (hoperand : P operand) (limit : Nat) :
    P (unary operand limit) := by
  induction limit with
  | zero => exact hoperand
  | succ limit ih =>
    refine h.bind (h.accept? skips_unary?) fun build => ?_
    cases build with
    | some build => exact h.bind ih fun _ => h.pure _
    | none => exact hoperand

section
variable {operator? : Token → Option Combine} {operand : Parse Expr}
variable (hoperator : Skips operator?) (hoperand : P operand)
include hoperator hoperand

theorem operations (limit : Nat) (left : Expr) : P (operations operator? operand limit left) := by
  induction limit generalizing left with
  | zero => exact h.pure _
  | succ limit ih =>
    refine h.bind (h.accept? hoperator) fun combine => ?_
    cases combine with
    | some combine => exact h.bind hoperand fun right => ih _
    | none => exact h.pure _

theorem leftAssociative (limit : Nat) : P (leftAssociative operator? operand limit) :=
  h.bind hoperand fun left => h.operations hoperator hoperand limit left

end

theorem disjunction {nested : Parse Expr} (hnested : P nested) (limit : Nat) :
    P (disjunction limit nested) := by
  have hcall : P (call limit nested) :=
    h.bind (h.primary hnested) fun callee => h.callSuffixes hnested limit limit callee
  have hfactor : P (factor limit nested) :=
    h.leftAssociative (skips_binary? _) (h.unary hcall limit) limit
  have hterm : P (term limit nested) := h.leftAssociative (skips_binary? _) hfactor limit
  have hcomparison : P (comparison limit nested) :=
    h.leftAssociative (skips_binary? _) hterm limit
  have hequality : P (equality limit nested) :=
    h.leftAssociative (skips_binary? _) hcomparison limit
  have hconjunction : P (conjunction limit nested) :=
    h.leftAssociative (skips_logical? _ _) hequality limit
  exact h.leftAssociative (skips_logical? _ _) hconjunction limit

theorem expression (depth : Nat) : P (expression depth) := by
  induction depth with
  | zero => exact h.fail rfl
  | succ depth ih =>
    have hassignment : P (assignment depth (Parser.expression depth)) := by
      rw [assignment_eq]
      exact h.bind (h.disjunction ih depth) fun target => h.assignmentRest depth target ih
    exact hassignment

section
variable {inner : Inner}

theorem varDeclaration : P (varDeclaration inner) := by
  refine h.bind (h.expectName _) fun name => h.bind (h.accept _) fun equal => ?_
  have hrest (initializer : Option Expr) : P (do
      let _ ← Parser.expect .semicolon "';' after variable declaration"
      return Stmt.varDecl name initializer) := h.bind (h.expect _ _) fun _ => h.pure _
  exact ite _ (h.bind (h.map some (h.expression _)) hrest) (h.bind (h.pure none) hrest)

theorem expressionStatement : P (expressionStatement inner) :=
  h.bind (h.expression _) fun _ => h.bind (h.expect _ _) fun _ => h.pure _

theorem unlessNext (closing : Symbol) : P (unlessNext inner closing) :=
  h.bind (h.check _) fun _ => ite _ (h.pure _) (h.bind (h.expression _) fun _ => h.pure _)

theorem printStatement : P (printStatement inner) :=
  h.bind (h.expression _) fun _ => h.bind (h.expect _ _) fun _ => h.pure _

theorem returnStatement (keyword : Token) : P (returnStatement inner keyword) :=
  h.bind (h.unlessNext _) fun _ => h.bind (h.expect _ _) fun _ => h.pure _

theorem block (hdeclarations : P (Parser.untilRightBrace inner.declaration inner.limit)) :
    P (block inner) :=
  h.bind hdeclarations fun _ => h.bind (h.expect _ _) fun _ => h.pure _

variable (hstatement : P inner.statement) (hblock : P (Parser.block inner))

section
include hblock

theorem function (kind : String) : P (function inner kind) :=
  h.bind (h.expectName _) fun _ => h.bind (h.expect _ _) fun _ =>
    h.bind (h.listItems rfl (h.expectName _) _) fun _ => h.bind (h.expect _ _) fun _ =>
      h.bind (h.expect _ _) fun _ => h.bind hblock fun _ => h.pure _

theorem classDeclaration : P (classDeclaration inner) := by
  have hsuperclass : P superclass? :=
    h.bind (h.accept _) fun _ => ite _
      (h.bind (h.expectName _) fun _ => h.bind h.freshId fun _ => h.pure _) (h.pure _)
  exact h.bind (h.expectName _) fun _ => h.bind hsuperclass fun _ => h.bind (h.expect _ _) fun _ =>
    h.bind (h.untilRightBrace (h.function hblock _) _) fun _ => h.bind (h.expect _ _) fun _ =>
      h.pure _

end

section
include hstatement

theorem forStatement : P (forStatement inner) := by
  have hinitializer : P (forInitializer inner) :=
    h.bind (h.accept _) fun _ => ite _ (h.pure _) <| h.bind (h.accept _) fun _ =>
      ite _ (h.bind h.varDeclaration fun _ => h.pure _)
        (h.bind h.expressionStatement fun _ => h.pure _)
  exact h.bind (h.expect _ _) fun _ => h.bind hinitializer fun _ =>
    h.bind (h.unlessNext _) fun _ => h.bind (h.expect _ _) fun _ =>
      h.bind (h.unlessNext _) fun _ => h.bind (h.expect _ _) fun _ =>
        h.bind hstatement fun _ => h.pure _

theorem ifStatement : P (ifStatement inner) := by
  refine h.bind (h.expect _ _) fun _ => h.bind (h.expression _) fun condition =>
    h.bind (h.expect _ _) fun _ => h.bind hstatement fun thenBranch =>
      h.bind (h.accept _) fun _ => ?_
  exact ite _ (h.bind (h.map some hstatement) fun _ => h.pure _)
    (h.bind (h.pure none) fun _ => h.pure _)

theorem whileStatement : P (whileStatement inner) :=
  h.bind (h.expect _ _) fun _ => h.bind (h.expression _) fun _ => h.bind (h.expect _ _) fun _ =>
    h.bind hstatement fun _ => h.pure _

end

include hstatement hblock

theorem anyStatement : P (anyStatement inner) := by
  refine h.bind (h.accept _) fun _ => ite _ (h.forStatement hstatement) ?_
  refine h.bind (h.accept _) fun _ => ite _ (h.ifStatement hstatement) ?_
  refine h.bind (h.accept _) fun _ => ite _ h.printStatement ?_
  refine h.bind (h.accept? (skips_only _)) fun keyword => ?_
  cases keyword with
  | some keyword => exact h.returnStatement keyword
  | none =>
  refine h.bind (h.accept _) fun _ => ite _ (h.whileStatement hstatement) ?_
  refine h.bind (h.accept _) fun _ => ite _ ?_ h.expressionStatement
  exact h.bind hblock fun _ => h.pure _

end

theorem attempt {depth : Nat} (hstatement : P (innerAt depth).statement)
    (hblock : P (Parser.block (innerAt depth))) : P (attempt (depth + 1)) := by
  refine h.bind (h.accept _) fun _ => ite _ (h.classDeclaration hblock) ?_
  refine h.bind (h.accept _) fun _ => ite _ ?_ ?_
  · exact h.bind (h.function hblock _) fun _ => h.pure _
  · exact h.bind (h.accept _) fun _ => ite _ h.varDeclaration (h.anyStatement hstatement hblock)

end Composed

namespace Preserved
variable (h : Preserved P)
include h

theorem innerAt (depth : Nat) : P (innerAt depth).statement ∧ P (innerAt depth).declaration := by
  induction depth with
  | zero => exact ⟨h.fail rfl, h.recovering (h.fail rfl)⟩
  | succ depth ih =>
    have hblock := h.block (h.untilRightBrace ih.2 _)
    exact ⟨h.anyStatement ih.1 hblock, h.recovering (h.attempt ih.1 hblock)⟩

theorem declarations (depth limit : Nat) : P (declarations depth limit) := by
  induction limit with
  | zero => exact h.pure _
  | succ limit ih =>
    refine h.bind h.atEnd fun _ => Composed.ite _ (h.pure _) ?_
    exact h.bind (h.innerAt depth).2 fun _ => h.bind ih fun _ => h.pure _

end Preserved

end Parser
end Lox
