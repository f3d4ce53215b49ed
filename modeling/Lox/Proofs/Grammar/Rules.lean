import Lox.Syntax.Tree
import Lox.Token

/-!
# The grammar

The rules of the language as relations between token lists and trees. A rule has no lookahead and
knows nothing of errors; whether some tokens can be derived is a matter of the rules alone.

    program      → declaration*
    declaration  → classDecl | funDecl | varDecl | statement
    classDecl    → "class" IDENT ( "<" IDENT )? "{" function* "}"
    funDecl      → "fun" function
    function     → IDENT "(" parameters? ")" block
    varDecl      → "var" IDENT ( "=" expression )? ";"
    statement    → exprStmt | forStmt | ifStmt | printStmt | returnStmt | whileStmt | block
    exprStmt     → expression ";"
    forStmt      → "for" "(" ( varDecl | exprStmt | ";" ) expression? ";" expression? ")" statement
    ifStmt       → "if" "(" expression ")" statement ( "else" statement )?
    printStmt    → "print" expression ";"
    returnStmt   → "return" expression? ";"
    whileStmt    → "while" "(" expression ")" statement
    block        → "{" declaration* "}"
    expression   → assignment
    assignment   → ( call "." )? IDENT "=" assignment | logic_or
    logic_or     → logic_and ( "or" logic_and )*
    logic_and    → equality ( "and" equality )*
    equality     → comparison ( ( "!=" | "==" ) comparison )*
    comparison   → term ( ( ">" | ">=" | "<" | "<=" ) term )*
    term         → factor ( ( "-" | "+" ) factor )*
    factor       → unary ( ( "/" | "*" ) unary )*
    unary        → ( "!" | "-" ) unary | call
    call         → primary ( "(" arguments? ")" | "." IDENT )*
    primary      → NUMBER | STRING | "true" | "false" | "nil" | "this"
                 | IDENT | "(" expression ")" | "super" "." IDENT

Parameter and argument lists have commas between their items, of which there are at most 255. The
trees carry numbers, which the rules leave open.

By these rules an `else` after two `if`s can be read as that of either. The relations for
statements have a parameter `nearest` that tells whether the `else` must be that of the nearest
`if` that has none.
-/
namespace Lox

/-- The name that is written by a token. -/
def Token.toName (token : Token) : Name := ⟨token.lexeme, token.line⟩

namespace Grammar

section
variable {α : Type} (item : List Token → α → Prop)

/-- Items one after another. -/
inductive Many : List Token → List α → Prop
  | nil : Many [] []
  | cons {tokens rest : List Token} {a : α} {as : List α} (first : item tokens a)
      (others : Many rest as) : Many (tokens ++ rest) (a :: as)

/-- One item or more, with commas between them. -/
inductive CommaSeparated : List Token → List α → Prop
  | single {tokens : List Token} {a : α} (only : item tokens a) : CommaSeparated tokens [a]
  | cons {tokens rest : List Token} {comma : Token} {a : α} {as : List α} (first : item tokens a)
      (separator : comma.kind = .symbol .comma) (others : CommaSeparated rest as) :
      CommaSeparated (tokens ++ comma :: rest) (a :: as)

/-- The items between two parentheses. -/
inductive Items : List Token → List α → Prop
  | none : Items [] []
  | some {tokens : List Token} {as : List α} (items : CommaSeparated item tokens as)
      (few : as.length ≤ 255) : Items tokens as

end

/-- The levels of precedence, loosest first. -/
inductive Level where
  | assignment | disjunction | conjunction | equality | comparison | term | factor
  | unary | call | primary
  deriving DecidableEq

/-- The operators between the operands of a level, with the tree that each of them builds from its
line and two operands. -/
def Level.operator? : Level → Symbol → Option (Nat → Expr → Expr → Expr)
  | disjunction, .kwOr => some fun _ => .logical .or
  | conjunction, .kwAnd => some fun _ => .logical .and
  | equality, .bangEqual => some (.binary .notEqual)
  | equality, .equalEqual => some (.binary .equal)
  | comparison, .greater => some (.binary .greater)
  | comparison, .greaterEqual => some (.binary .greaterEqual)
  | comparison, .less => some (.binary .less)
  | comparison, .lessEqual => some (.binary .lessEqual)
  | term, .minus => some (.binary .subtract)
  | term, .plus => some (.binary .add)
  | factor, .slash => some (.binary .divide)
  | factor, .star => some (.binary .multiply)
  | _, _ => none

/-- The level of the operands, for a level of operators between operands. -/
def Level.operand? : Level → Option Level
  | disjunction => some conjunction
  | conjunction => some equality
  | equality => some comparison
  | comparison => some term
  | term => some factor
  | factor => some unary
  | _ => none

/-- The tokens that are a value by themselves. -/
inductive Constant : Kind → Literal → Prop
  | false : Constant (.symbol .kwFalse) (.bool false)
  | true : Constant (.symbol .kwTrue) (.bool true)
  | nil : Constant (.symbol .kwNil) .nil
  | number (value : Float) : Constant (.number value) (.number value)
  | string (text : String) : Constant (.string text) (.string text)

mutual

/-- The tokens are an expression of the level, with this tree. -/
inductive Expression : Level → List Token → Expr → Prop
  | literal {token : Token} {value : Literal} (constant : Constant token.kind value) :
      Expression .primary [token] (.literal value)
  | this {keyword : Token} {id : NodeId} (isThis : keyword.kind = .symbol .kwThis) :
      Expression .primary [keyword] (.this id keyword.line)
  | reference {name : Token} {id : NodeId} (isName : name.kind = .identifier) :
      Expression .primary [name] (.variable id name.toName)
  | grouping {opening closing : Token} {tokens : List Token} {inner : Expr}
      (opens : opening.kind = .symbol .leftParen) (nested : Expression .assignment tokens inner)
      (closes : closing.kind = .symbol .rightParen) :
      Expression .primary (opening :: (tokens ++ [closing])) (.grouping inner)
  | super {keyword dot method : Token} {id : NodeId} (isSuper : keyword.kind = .symbol .kwSuper)
      (isDot : dot.kind = .symbol .dot) (isName : method.kind = .identifier) :
      Expression .primary [keyword, dot, method] (.super id keyword.line method.toName)
  | suffixed {first rest : List Token} {e result : Expr} (start : Expression .primary first e)
      (suffixes : Suffixes e rest result) : Expression .call (first ++ rest) result
  | not {operator : Token} {tokens : List Token} {e : Expr}
      (isOperator : operator.kind = .symbol .bang) (operand : Expression .unary tokens e) :
      Expression .unary (operator :: tokens) (.unary .not operator.line e)
  | negate {operator : Token} {tokens : List Token} {e : Expr}
      (isOperator : operator.kind = .symbol .minus) (operand : Expression .unary tokens e) :
      Expression .unary (operator :: tokens) (.unary .negate operator.line e)
  | bare {tokens : List Token} {e : Expr} (operand : Expression .call tokens e) :
      Expression .unary tokens e
  | operations {level operands : Level} {first rest : List Token} {left e : Expr}
      (tighter : level.operand? = some operands) (start : Expression operands first left)
      (others : Operations level operands left rest e) : Expression level (first ++ rest) e
  | assign {name equals : Token} {tokens : List Token} {id : NodeId} {value : Expr}
      (isName : name.kind = .identifier) (isEqual : equals.kind = .symbol .equal)
      (assigned : Expression .assignment tokens value) :
      Expression .assignment (name :: equals :: tokens) (.assign id name.toName value)
  | set {target tokens : List Token} {dot name equals : Token} {object value : Expr}
      (holder : Expression .call target object) (isDot : dot.kind = .symbol .dot)
      (isName : name.kind = .identifier) (isEqual : equals.kind = .symbol .equal)
      (assigned : Expression .assignment tokens value) :
      Expression .assignment (target ++ dot :: name :: equals :: tokens)
        (.set object name.toName value)
  | value {tokens : List Token} {e : Expr} (operand : Expression .disjunction tokens e) :
      Expression .assignment tokens e

/-- The tokens are calls and properties that turn the tree before them into the one after. -/
inductive Suffixes : Expr → List Token → Expr → Prop
  | nil {e : Expr} : Suffixes e [] e
  | call {callee result : Expr} {opening closing : Token} {tokens rest : List Token}
      {arguments : List Expr} (opens : opening.kind = .symbol .leftParen)
      (items : Items (Expression .assignment) tokens arguments)
      (closes : closing.kind = .symbol .rightParen)
      (others : Suffixes (.call callee closing.line arguments) rest result) :
      Suffixes callee (opening :: (tokens ++ closing :: rest)) result
  | property {object result : Expr} {dot name : Token} {rest : List Token}
      (isDot : dot.kind = .symbol .dot) (isName : name.kind = .identifier)
      (others : Suffixes (.get object name.toName) rest result) :
      Suffixes object (dot :: name :: rest) result

/-- The tokens are operators of a level, each with an operand of the level below, that are joined
to the tree on the left one after another. -/
inductive Operations : (level operands : Level) → Expr → List Token → Expr → Prop
  | nil {level operands : Level} {left : Expr} : Operations level operands left [] left
  | cons {level operands : Level} {operator : Token} {symbol : Symbol} {tokens rest : List Token}
      {build : Nat → Expr → Expr → Expr} {left right result : Expr}
      (written : operator.kind = .symbol symbol) (isOperator : level.operator? symbol = some build)
      (operand : Expression operands tokens right)
      (others : Operations level operands (build operator.line left right) rest result) :
      Operations level operands left (operator :: (tokens ++ rest)) result

end

/-- Whether an expression can start with a token of the kind. -/
def startsExpression : Kind → Bool
  | .identifier | .string _ | .number _ => true
  | .symbol .kwTrue | .symbol .kwFalse | .symbol .kwNil | .symbol .kwThis | .symbol .kwSuper => true
  | .symbol .leftParen | .symbol .bang | .symbol .minus => true
  | _ => false

/-- The first token of an expression tells it from every other part of a statement. -/
theorem Expression.starts {level : Level} {tokens : List Token} {e : Expr}
    (h : Expression level tokens e) :
    ∃ token rest, tokens = token :: rest ∧ startsExpression token.kind = true := by
  match h with
  | .literal constant =>
    refine ⟨_, [], rfl, ?_⟩
    generalize hk : Token.kind _ = kind at constant
    cases constant <;> rfl
  | .this isThis => exact ⟨_, [], rfl, by rw [isThis]; rfl⟩
  | .reference isName => exact ⟨_, [], rfl, by rw [isName]; rfl⟩
  | .grouping opens _ _ => exact ⟨_, _, rfl, by rw [opens]; rfl⟩
  | .super isSuper _ _ => exact ⟨_, _, rfl, by rw [isSuper]; rfl⟩
  | .suffixed start _ =>
    obtain ⟨token, rest, rfl, hstarts⟩ := start.starts
    exact ⟨token, _, rfl, hstarts⟩
  | .not isOperator _ => exact ⟨_, _, rfl, by rw [isOperator]; rfl⟩
  | .negate isOperator _ => exact ⟨_, _, rfl, by rw [isOperator]; rfl⟩
  | .bare operand => exact operand.starts
  | .operations _ start _ =>
    obtain ⟨token, rest, rfl, hstarts⟩ := start.starts
    exact ⟨token, _, rfl, hstarts⟩
  | .assign isName _ _ => exact ⟨_, _, rfl, by rw [isName]; rfl⟩
  | .set holder _ _ _ _ =>
    obtain ⟨token, rest, rfl, hstarts⟩ := holder.starts
    exact ⟨token, _, rfl, hstarts⟩
  | .value operand => exact operand.starts

/-- The tokens are an expression or there are none. -/
inductive OptionalExpression : List Token → Option Expr → Prop
  | absent : OptionalExpression [] none
  | present {tokens : List Token} {e : Expr} (expression : Expression .assignment tokens e) :
      OptionalExpression tokens (some e)

/-- The declaration of a variable. -/
inductive Variable : List Token → Stmt → Prop
  | bare {keyword name semicolon : Token} (isVar : keyword.kind = .symbol .kwVar)
      (isName : name.kind = .identifier) (ends : semicolon.kind = .symbol .semicolon) :
      Variable [keyword, name, semicolon] (.varDecl name.toName none)
  | initialized {keyword name equals semicolon : Token} {tokens : List Token} {e : Expr}
      (isVar : keyword.kind = .symbol .kwVar) (isName : name.kind = .identifier)
      (isEqual : equals.kind = .symbol .equal) (initializer : Expression .assignment tokens e)
      (ends : semicolon.kind = .symbol .semicolon) :
      Variable (keyword :: name :: equals :: (tokens ++ [semicolon])) (.varDecl name.toName (some e))

/-- An expression as a statement. -/
inductive Evaluated : List Token → Stmt → Prop
  | mk {semicolon : Token} {tokens : List Token} {e : Expr}
      (expression : Expression .assignment tokens e) (ends : semicolon.kind = .symbol .semicolon) :
      Evaluated (tokens ++ [semicolon]) (.expression e)

/-- The first clause of a `for` statement. -/
inductive Initializer : List Token → Option Stmt → Prop
  | absent {semicolon : Token} (ends : semicolon.kind = .symbol .semicolon) :
      Initializer [semicolon] none
  | varDecl {tokens : List Token} {stmt : Stmt} (declaration : Variable tokens stmt) :
      Initializer tokens (some stmt)
  | evaluated {tokens : List Token} {stmt : Stmt} (statement : Evaluated tokens stmt) :
      Initializer tokens (some stmt)

/-- What a `for` statement repeats. -/
def repeated (body : Stmt) : (increment : Option Expr) → Stmt
  | none => body
  | some increment => .block [body, .expression increment]

/-- The `while` loop that is the tree of a `for` statement. A condition that is left out is true. -/
def whileForm (condition increment : Option Expr) (body : Stmt) : (initializer : Option Stmt) → Stmt
  | none => .whileLoop (condition.getD (.literal (.bool true))) (repeated body increment)
  | some initializer =>
    .block [initializer,
      .whileLoop (condition.getD (.literal (.bool true))) (repeated body increment)]

/-- A parameter of a function. -/
inductive Parameter : List Token → Name → Prop
  | mk {name : Token} (isName : name.kind = .identifier) : Parameter [name] name.toName

/-- The superclass clause of a class. -/
inductive Inherits : List Token → Option Superclass → Prop
  | absent : Inherits [] none
  | present {less name : Token} {id : NodeId} (isLess : less.kind = .symbol .less)
      (isName : name.kind = .identifier) : Inherits [less, name] (some ⟨id, name.toName⟩)

variable (nearest : Bool)

mutual

/-- The tokens are a statement with this tree. It is open if an `else` behind it could be that of
an `if` in it. -/
inductive Statement : (isOpen : Bool) → List Token → Stmt → Prop
  | evaluated {tokens : List Token} {stmt : Stmt} (statement : Evaluated tokens stmt) :
      Statement false tokens stmt
  | print {keyword semicolon : Token} {tokens : List Token} {e : Expr}
      (isPrint : keyword.kind = .symbol .kwPrint) (value : Expression .assignment tokens e)
      (ends : semicolon.kind = .symbol .semicolon) :
      Statement false (keyword :: (tokens ++ [semicolon])) (.print e)
  | returnWith {keyword semicolon : Token} {tokens : List Token} {value : Option Expr}
      (isReturn : keyword.kind = .symbol .kwReturn) (result : OptionalExpression tokens value)
      (ends : semicolon.kind = .symbol .semicolon) :
      Statement false (keyword :: (tokens ++ [semicolon])) (.returnWith keyword.line value)
  | block {opening closing : Token} {tokens : List Token} {body : List Stmt}
      (opens : opening.kind = .symbol .leftBrace) (declarations : Many Declaration tokens body)
      (closes : closing.kind = .symbol .rightBrace) :
      Statement false (opening :: (tokens ++ [closing])) (.block body)
  | ifThen {keyword opening closing : Token} {tokens thens : List Token} {condition : Expr}
      {thenBranch : Stmt} {isOpen : Bool} (isIf : keyword.kind = .symbol .kwIf)
      (opens : opening.kind = .symbol .leftParen) (test : Expression .assignment tokens condition)
      (closes : closing.kind = .symbol .rightParen) (branch : Statement isOpen thens thenBranch) :
      Statement true (keyword :: opening :: (tokens ++ closing :: thens))
        (.ifElse condition thenBranch none)
  | ifElse {keyword opening closing otherwise : Token} {tokens thens elses : List Token}
      {condition : Expr} {thenBranch elseBranch : Stmt} {thenOpen isOpen : Bool}
      (isIf : keyword.kind = .symbol .kwIf) (opens : opening.kind = .symbol .leftParen)
      (test : Expression .assignment tokens condition)
      (closes : closing.kind = .symbol .rightParen) (branch : Statement thenOpen thens thenBranch)
      (isNearest : nearest = true → thenOpen = false)
      (isElse : otherwise.kind = .symbol .kwElse) (other : Statement isOpen elses elseBranch) :
      Statement isOpen
        (keyword :: opening :: (tokens ++ closing :: (thens ++ otherwise :: elses)))
        (.ifElse condition thenBranch (some elseBranch))
  | whileLoop {keyword opening closing : Token} {tokens rest : List Token} {condition : Expr}
      {body : Stmt} {isOpen : Bool} (isWhile : keyword.kind = .symbol .kwWhile)
      (opens : opening.kind = .symbol .leftParen) (test : Expression .assignment tokens condition)
      (closes : closing.kind = .symbol .rightParen) (repeats : Statement isOpen rest body) :
      Statement isOpen (keyword :: opening :: (tokens ++ closing :: rest))
        (.whileLoop condition body)
  | forLoop {keyword opening semicolon closing : Token} {starts tests steps rest : List Token}
      {initializer : Option Stmt} {condition increment : Option Expr} {body : Stmt} {isOpen : Bool}
      (isFor : keyword.kind = .symbol .kwFor) (opens : opening.kind = .symbol .leftParen)
      (start : Initializer starts initializer) (test : OptionalExpression tests condition)
      (ends : semicolon.kind = .symbol .semicolon) (step : OptionalExpression steps increment)
      (closes : closing.kind = .symbol .rightParen) (repeats : Statement isOpen rest body) :
      Statement isOpen
        (keyword :: opening :: (starts ++ (tests ++ semicolon :: (steps ++ closing :: rest))))
        (whileForm condition increment body initializer)

/-- The tokens are a declaration or statement with this tree. -/
inductive Declaration : List Token → Stmt → Prop
  | varDecl {tokens : List Token} {stmt : Stmt} (declaration : Variable tokens stmt) :
      Declaration tokens stmt
  | funDecl {keyword : Token} {tokens : List Token} {f : FunctionDecl}
      (isFun : keyword.kind = .symbol .kwFun) (declaration : Function tokens f) :
      Declaration (keyword :: tokens) (.funDecl f)
  | classDecl {keyword name opening closing : Token} {clause tokens : List Token}
      {superclass : Option Superclass} {methods : List FunctionDecl}
      (isClass : keyword.kind = .symbol .kwClass) (isName : name.kind = .identifier)
      (inherits : Inherits clause superclass) (opens : opening.kind = .symbol .leftBrace)
      (declarations : Many Function tokens methods) (closes : closing.kind = .symbol .rightBrace) :
      Declaration (keyword :: name :: (clause ++ opening :: (tokens ++ [closing])))
        (.classDecl name.toName superclass methods)
  | statement {tokens : List Token} {stmt : Stmt} {isOpen : Bool}
      (statement : Statement isOpen tokens stmt) : Declaration tokens stmt

/-- The tokens are a function or method from its name on. -/
inductive Function : List Token → FunctionDecl → Prop
  | mk {name opening closing left right : Token} {list tokens : List Token}
      {parameters : List Name} {body : List Stmt} (isName : name.kind = .identifier)
      (opens : opening.kind = .symbol .leftParen) (items : Items Parameter list parameters)
      (closes : closing.kind = .symbol .rightParen) (begins : left.kind = .symbol .leftBrace)
      (declarations : Many Declaration tokens body) (ends : right.kind = .symbol .rightBrace) :
      Function (name :: opening :: (list ++ closing :: left :: (tokens ++ [right])))
        ⟨name.toName, parameters, body⟩

end

/-- Whether a statement can start with a token of the kind. -/
def startsStatement (kind : Kind) : Bool :=
  startsExpression kind ||
    kind matches .symbol .kwFor | .symbol .kwIf | .symbol .kwPrint | .symbol .kwReturn
      | .symbol .kwWhile | .symbol .leftBrace

/-- Whether a declaration or statement can start with a token of the kind. -/
def startsDeclaration (kind : Kind) : Bool :=
  startsStatement kind || kind matches .symbol .kwClass | .symbol .kwFun | .symbol .kwVar

theorem Variable.starts {tokens : List Token} {stmt : Stmt} (h : Variable tokens stmt) :
    ∃ token rest, tokens = token :: rest ∧ token.kind = .symbol .kwVar := by
  cases h with
  | bare isVar _ _ => exact ⟨_, _, rfl, isVar⟩
  | initialized isVar _ _ _ _ => exact ⟨_, _, rfl, isVar⟩

theorem Evaluated.starts {tokens : List Token} {stmt : Stmt} (h : Evaluated tokens stmt) :
    ∃ token rest, tokens = token :: rest ∧ startsExpression token.kind = true := by
  cases h with
  | mk expression _ =>
    obtain ⟨token, rest, rfl, hstarts⟩ := expression.starts
    exact ⟨token, _, rfl, hstarts⟩

section
variable {nearest : Bool} {tokens : List Token} {stmt : Stmt}

theorem Statement.starts {isOpen : Bool} (h : Statement nearest isOpen tokens stmt) :
    ∃ token rest, tokens = token :: rest ∧ startsStatement token.kind = true := by
  cases h with
  | evaluated statement =>
    obtain ⟨token, rest, rfl, hstarts⟩ := statement.starts
    exact ⟨token, rest, rfl, by simp [startsStatement, hstarts]⟩
  | print isPrint _ _ => exact ⟨_, _, rfl, by rw [isPrint]; rfl⟩
  | returnWith isReturn _ _ => exact ⟨_, _, rfl, by rw [isReturn]; rfl⟩
  | block opens _ _ => exact ⟨_, _, rfl, by rw [opens]; rfl⟩
  | ifThen isIf _ _ _ _ => exact ⟨_, _, rfl, by rw [isIf]; rfl⟩
  | ifElse isIf _ _ _ _ _ _ _ => exact ⟨_, _, rfl, by rw [isIf]; rfl⟩
  | whileLoop isWhile _ _ _ _ => exact ⟨_, _, rfl, by rw [isWhile]; rfl⟩
  | forLoop isFor _ _ _ _ _ _ _ => exact ⟨_, _, rfl, by rw [isFor]; rfl⟩

theorem Declaration.starts (h : Declaration nearest tokens stmt) :
    ∃ token rest, tokens = token :: rest ∧ startsDeclaration token.kind = true := by
  cases h with
  | varDecl declaration =>
    obtain ⟨token, rest, rfl, hk⟩ := declaration.starts
    exact ⟨token, rest, rfl, by rw [hk]; rfl⟩
  | funDecl isFun _ => exact ⟨_, _, rfl, by rw [isFun]; rfl⟩
  | classDecl isClass _ _ _ _ _ => exact ⟨_, _, rfl, by rw [isClass]; rfl⟩
  | statement statement =>
    obtain ⟨token, rest, rfl, hstarts⟩ := statement.starts
    exact ⟨token, rest, rfl, by simp [startsDeclaration, hstarts]⟩

theorem Function.starts {f : FunctionDecl} (h : Function nearest tokens f) :
    ∃ token rest, tokens = token :: rest ∧ token.kind = .identifier := by
  cases h with
  | mk isName _ _ _ _ _ _ => exact ⟨_, _, rfl, isName⟩

end

/-- The tokens are a program with these trees. -/
def Program (tokens : List Token) (statements : List Stmt) : Prop :=
  Many (Declaration nearest) tokens statements

end Grammar
end Lox
