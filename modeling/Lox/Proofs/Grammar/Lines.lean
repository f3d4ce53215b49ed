import Lox.Proofs.Grammar.Acceptance
import Lox.Proofs.Syntax.Lines

/-!
# Derivations on other lines

The rules look at the kinds of tokens and copy their lines into the trees. So tokens on other lines
have the same derivations, with the trees on these lines; and since no rule looks past the end of a
declaration, what is derived from two lists of tokens is derived from both in sequence.
-/
namespace Lox.Grammar
variable {line : Nat → Nat}

theorem Level.onLines_operator? {level : Level} {symbol : Symbol}
    {build : Nat → Expr → Expr → Expr} (h : level.operator? symbol = some build) (n : Nat)
    (left right : Expr) :
    (build n left right).onLines line =
      build (line n) (left.onLines line) (right.onLines line) := by
  unfold operator? at h
  split at h <;> cases h <;> rfl

mutual

/-- The tokens of an expression on other lines are the expression on these lines. -/
theorem Expression.onLines {level : Level} {tokens : List Token} {e : Expr}
    (h : Expression level tokens e) :
    Expression level (tokens.map (Token.onLine line)) (e.onLines line) := by
  match h with
  | .literal constant => exact .literal constant
  | .this isThis => exact .this isThis
  | .reference isName => exact .reference isName
  | .grouping opens nested closes =>
    rw [List.map_cons, List.map_append]
    exact .grouping opens nested.onLines closes
  | .super isSuper isDot isName => exact .super isSuper isDot isName
  | .suffixed start suffixes =>
    rw [List.map_append]
    exact .suffixed start.onLines suffixes.onLines
  | .not isOperator operand => exact .not isOperator operand.onLines
  | .negate isOperator operand => exact .negate isOperator operand.onLines
  | .bare operand => exact .bare operand.onLines
  | .operations tighter start others =>
    rw [List.map_append]
    exact .operations tighter start.onLines others.onLines
  | .assign isName isEqual assigned => exact .assign isName isEqual assigned.onLines
  | .set holder isDot isName isEqual assigned =>
    rw [List.map_append]
    exact .set holder.onLines isDot isName isEqual assigned.onLines
  | .value operand => exact .value operand.onLines

theorem Suffixes.onLines {e result : Expr} {tokens : List Token} (h : Suffixes e tokens result) :
    Suffixes (e.onLines line) (tokens.map (Token.onLine line)) (result.onLines line) := by
  match h with
  | .nil => exact .nil
  | .call opens items closes others =>
    rw [List.map_cons, List.map_append, List.map_cons]
    exact .call opens (items_onLines items) closes others.onLines
  | .property isDot isName others => exact .property isDot isName others.onLines

theorem items_onLines {tokens : List Token} {arguments : List Expr}
    (h : Items (Expression .assignment) tokens arguments) :
    Items (Expression .assignment) (tokens.map (Token.onLine line))
      (Expr.onLines.listOnLines line arguments) := by
  match h with
  | .none => exact .none
  | .some items few =>
    refine .some (commaSeparated_onLines items) ?_
    rw [Expr.listOnLines_eq_map, List.length_map]
    exact few

theorem commaSeparated_onLines {tokens : List Token} {arguments : List Expr}
    (h : CommaSeparated (Expression .assignment) tokens arguments) :
    CommaSeparated (Expression .assignment) (tokens.map (Token.onLine line))
      (Expr.onLines.listOnLines line arguments) := by
  match h with
  | .single only => exact .single only.onLines
  | .cons first separator others =>
    rw [List.map_append, List.map_cons]
    exact .cons first.onLines separator (commaSeparated_onLines others)

theorem Operations.onLines {level operands : Level} {left e : Expr} {tokens : List Token}
    (h : Operations level operands left tokens e) :
    Operations level operands (left.onLines line) (tokens.map (Token.onLine line))
      (e.onLines line) := by
  match h with
  | .nil => exact .nil
  | .cons written isOperator operand others =>
    have hothers := others.onLines
    rw [Level.onLines_operator? isOperator] at hothers
    rw [List.map_cons, List.map_append]
    exact .cons written isOperator operand.onLines hothers

end

theorem OptionalExpression.onLines {tokens : List Token} {e : Option Expr}
    (h : OptionalExpression tokens e) :
    OptionalExpression (tokens.map (Token.onLine line)) (e.map (Expr.onLines line)) := by
  cases h with
  | absent => exact .absent
  | present expression => exact .present expression.onLines

theorem Variable.onLines {tokens : List Token} {stmt : Stmt} (h : Variable tokens stmt) :
    Variable (tokens.map (Token.onLine line)) (stmt.onLines line) := by
  cases h with
  | bare isVar isName ends => exact .bare isVar isName ends
  | initialized isVar isName isEqual initializer ends =>
    simp only [List.map_cons, List.map_append]
    exact .initialized isVar isName isEqual initializer.onLines ends

theorem Evaluated.onLines {tokens : List Token} {stmt : Stmt} (h : Evaluated tokens stmt) :
    Evaluated (tokens.map (Token.onLine line)) (stmt.onLines line) := by
  cases h with
  | mk expression ends =>
    rw [List.map_append]
    exact .mk expression.onLines ends

theorem Initializer.onLines {tokens : List Token} {stmt : Option Stmt}
    (h : Initializer tokens stmt) :
    Initializer (tokens.map (Token.onLine line)) (stmt.map (Stmt.onLines line)) := by
  cases h with
  | absent ends => exact .absent ends
  | varDecl declaration => exact .varDecl declaration.onLines
  | evaluated statement => exact .evaluated statement.onLines

theorem whileForm_onLines (condition increment : Option Expr) (body : Stmt)
    (initializer : Option Stmt) :
    (whileForm condition increment body initializer).onLines line =
      whileForm (condition.map (Expr.onLines line)) (increment.map (Expr.onLines line))
        (body.onLines line) (initializer.map (Stmt.onLines line)) := by
  cases condition <;> cases increment <;> cases initializer <;> rfl

theorem Inherits.onLines {tokens : List Token} {superclass : Option Superclass}
    (h : Inherits tokens superclass) :
    Inherits (tokens.map (Token.onLine line)) (superclass.map (Superclass.onLines line)) := by
  cases h with
  | absent => exact .absent
  | present isLess isName => exact .present isLess isName

theorem parameterList_onLines {tokens : List Token} {parameters : List Name}
    (h : CommaSeparated Parameter tokens parameters) :
    CommaSeparated Parameter (tokens.map (Token.onLine line))
      (parameters.map (Name.onLine line)) := by
  induction h with
  | single only =>
    cases only with
    | mk isName => exact .single (.mk isName)
  | cons first separator _ ih =>
    cases first with
    | @mk name isName =>
      have hname : Parameter [name.onLine line] (name.toName.onLine line) := .mk isName
      exact .cons hname separator ih

theorem parameters_onLines {tokens : List Token} {parameters : List Name}
    (h : Items Parameter tokens parameters) :
    Items Parameter (tokens.map (Token.onLine line)) (parameters.map (Name.onLine line)) := by
  cases h with
  | none => exact .none
  | some items few => exact .some (parameterList_onLines items) (by rwa [List.length_map])

section
variable {nearest : Bool}

mutual

/-- The tokens of a statement on other lines are the statement on these lines. -/
theorem Statement.onLines {isOpen : Bool} {tokens : List Token} {stmt : Stmt}
    (h : Statement nearest isOpen tokens stmt) :
    Statement nearest isOpen (tokens.map (Token.onLine line)) (stmt.onLines line) := by
  match h with
  | .evaluated statement => exact .evaluated statement.onLines
  | .print isPrint value ends =>
    rw [List.map_cons, List.map_append]
    exact .print isPrint value.onLines ends
  | .returnWith isReturn result ends =>
    rw [List.map_cons, List.map_append]
    exact .returnWith isReturn result.onLines ends
  | .block opens declarations closes =>
    rw [List.map_cons, List.map_append]
    exact .block opens (many_onLines declarations) closes
  | .ifThen isIf opens test closes branch =>
    simp only [List.map_cons, List.map_append]
    exact .ifThen isIf opens test.onLines closes branch.onLines
  | .ifElse isIf opens test closes branch isNearest isElse other =>
    simp only [List.map_cons, List.map_append]
    exact .ifElse isIf opens test.onLines closes branch.onLines isNearest isElse other.onLines
  | .whileLoop isWhile opens test closes repeats =>
    simp only [List.map_cons, List.map_append]
    exact .whileLoop isWhile opens test.onLines closes repeats.onLines
  | .forLoop isFor opens start test ends step closes repeats =>
    simp only [List.map_cons, List.map_append]
    rw [whileForm_onLines]
    exact .forLoop isFor opens start.onLines test.onLines ends step.onLines closes repeats.onLines

theorem Declaration.onLines {tokens : List Token} {stmt : Stmt}
    (h : Declaration nearest tokens stmt) :
    Declaration nearest (tokens.map (Token.onLine line)) (stmt.onLines line) := by
  match h with
  | .varDecl declaration => exact .varDecl declaration.onLines
  | .funDecl isFun declaration => exact .funDecl isFun declaration.onLines
  | .classDecl isClass isName inherits opens declarations closes =>
    simp only [List.map_cons, List.map_append]
    exact .classDecl isClass isName inherits.onLines opens (manyFunctions_onLines declarations)
      closes
  | .statement statement => exact .statement statement.onLines

theorem Function.onLines {tokens : List Token} {f : FunctionDecl}
    (h : Function nearest tokens f) :
    Function nearest (tokens.map (Token.onLine line)) (Stmt.functionOnLines line f) := by
  match h with
  | .mk isName opens items closes begins declarations ends =>
    simp only [List.map_cons, List.map_append]
    exact .mk isName opens (parameters_onLines items) closes begins (many_onLines declarations) ends

theorem many_onLines {tokens : List Token} {body : List Stmt}
    (h : Many (Declaration nearest) tokens body) :
    Many (Declaration nearest) (tokens.map (Token.onLine line)) (Stmt.listOnLines line body) := by
  match h with
  | .nil => exact .nil
  | .cons first others =>
    rw [List.map_append]
    exact .cons first.onLines (many_onLines others)

theorem manyFunctions_onLines {tokens : List Token} {methods : List FunctionDecl}
    (h : Many (Function nearest) tokens methods) :
    Many (Function nearest) (tokens.map (Token.onLine line))
      (Stmt.methodsOnLines line methods) := by
  match h with
  | .nil => exact .nil
  | .cons first others =>
    rw [List.map_append]
    exact .cons first.onLines (manyFunctions_onLines others)

end
end

theorem Many.append {α : Type} {item : List Token → α → Prop} {a b : List Token} {as bs : List α}
    (h : Many item a as) (h' : Many item b bs) : Many item (a ++ b) (as ++ bs) := by
  induction h with
  | nil => exact h'
  | cons first _ ih =>
    rw [List.append_assoc]
    exact .cons first ih

end Grammar

namespace Program
open Lox.Parser
variable {front other : List Token} {last last' : Token} {first first' : NodeId} {line : Nat → Nat}

/-- What is parsed without errors from two lists of tokens is parsed from both in sequence. -/
theorem append_of_errors_eq_nil (hfront : ∀ token ∈ front, token.kind.isEnd = false)
    (hother : ∀ token ∈ other, token.kind.isEnd = false) (hlast : last.kind.isEnd = true)
    (hlast' : last'.kind.isEnd = true) (h : (ofTokens (front ++ [last]) first).errors = [])
    (h' : (ofTokens (other ++ [last']) first').errors = []) :
    let both := ofTokens (front ++ (other ++ [last']).map (Token.onLine line)) first
    both.errors = [] ∧ Stmt.listOnLines id both.statements =
      Stmt.listOnLines id (ofTokens (front ++ [last]) first).statements ++
        Stmt.listOnLines line (ofTokens (other ++ [last']) first').statements := by
  intro both
  have hderives := derives_of_errors_eq_nil hfront hlast h
  have hderives' : Grammar.Program true (other.map (Token.onLine line)) _ :=
    Grammar.many_onLines (derives_of_errors_eq_nil hother hlast' h')
  have hend : (last'.onLine line).kind.isEnd = true := hlast'
  obtain ⟨herrors, hsame⟩ :=
    errors_eq_nil_of_derives hend (hderives.append hderives')
  have hboth : both =
      ofTokens (front ++ other.map (Token.onLine line) ++ [last'.onLine line]) first := by
    refine congrArg (ofTokens · first) ?_
    rw [List.map_append, List.append_assoc]
    rfl
  rw [hboth]
  refine ⟨herrors, ?_⟩
  rw [Stmt.listOnLines_eq_of_unnumbered hsame, Stmt.listOnLines_append, Stmt.listOnLines_onLines]
  rfl

end Program
end Lox
