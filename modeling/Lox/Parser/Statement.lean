import Lox.Parser.Expression

/-!
# Parsing statements

Declarations, statements and whole programs. An error that stops a declaration is recorded; the
declaration is left out and parsing goes on at the next place where a statement seems to start.
Every declaration that is tried reads a token, so the number of tokens bounds the nesting of
statements and the length of every list of them.
-/
namespace Lox.Parser

/-- The end of a skipped stretch in which `previous` was read last: the token read last and those
that follow, from a reserved word that starts a statement, or after a semicolon, or from the end of
the input. -/
def resume (previous : Token) : List Token → Option (Token × List Token)
  | [] => none
  | token :: rest =>
    if token.kind.isEnd || (only .semicolon previous).isSome || token.kind.startsStatement then
      some (previous, token :: rest)
    else
      resume token rest

/-- Goes on after an error at the next token. That token is skipped, unless it is the end of the
input; then the token before it is looked at. -/
def synchronize : Parse Unit := fun s =>
  match s.rest with
  | [] => .error (.fault .pastLastToken) s
  | token :: rest =>
    if token.kind.isEnd then
      match s.previous? with
      | some _ => .ok () s
      | none => .error (.fault .beforeFirstToken) s
    else
      match resume token rest with
      | some (previous, rest) => .ok () { s with rest, previous? := some previous }
      | none => .error (.fault .pastLastToken) s

/-- The result of `step`; if it fails, its error is recorded and the rest of the declaration
skipped. -/
def recovering {α : Type} (step : Parse α) : Parse (Option α) := fun s =>
  match step s with
  | .ok a s => .ok (some a) s
  | .error (.error error) s =>
    (do record error; synchronize; return none : Parse (Option α)) s
  | .error (.fault fault) s => .error (.fault fault) s

/-- What the parts of a statement are read by. At most `limit` tokens are left. -/
structure Inner where
  limit : Nat
  statement : Parse Stmt
  declaration : Parse (Option Stmt)

variable (inner : Inner)

def Inner.expression : Parse Expr := Parser.expression (inner.limit + 1)

/-- The declarations of a block, after its opening brace, and the closing one. Those that failed
are left out. -/
def block : Parse (List Stmt) := do
  let body ← untilRightBrace inner.declaration inner.limit
  let _ ← expect .rightBrace "'\x7d' after block"
  return body.reduceOption

/-- A function or method from its name on; `kind` is the word for it in errors. -/
def function (kind : String) : Parse FunctionDecl := do
  let name ← expectName (kind ++ " name")
  let _ ← expect .leftParen ("'(' after " ++ kind ++ " name")
  let parameters ← listItems .tooManyParameters (expectName "parameter name") inner.limit
  let _ ← expect .rightParen "')' after parameters"
  let _ ← expect .leftBrace ("'\x7b' before " ++ kind ++ " body")
  return { name, parameters, body := ← block inner }

/-- The superclass of a class declaration, if there is one. -/
def superclass? : Parse (Option Superclass) := do
  if ← accept .less then
    let name ← expectName "superclass name"
    return some { id := ← freshId, name }
  else
    return none

/-- A class declaration after `class`. -/
def classDeclaration : Parse Stmt := do
  let name ← expectName "class name"
  let superclass ← superclass?
  let _ ← expect .leftBrace "'\x7b' before class body"
  let methods ← untilRightBrace (function inner "method") inner.limit
  let _ ← expect .rightBrace "'\x7d' after class body"
  return .classDecl name superclass methods

/-- A variable declaration after `var`. -/
def varDeclaration : Parse Stmt := do
  let name ← expectName "variable name"
  let initializer ← if ← accept .equal then some <$> inner.expression else pure none
  let _ ← expect .semicolon "';' after variable declaration"
  return .varDecl name initializer

def expressionStatement : Parse Stmt := do
  let value ← inner.expression
  let _ ← expect .semicolon "';' after expression"
  return .expression value

/-- The loop that a `for` statement stands for. -/
def forLoop (initializer : Option Stmt) (condition increment : Option Expr) (body : Stmt) : Stmt :=
  let body :=
    match increment with
    | some increment => .block [body, .expression increment]
    | none => body
  let loop := .whileLoop (condition.getD (.literal (.bool true))) body
  match initializer with
  | some initializer => .block [initializer, loop]
  | none => loop

/-- The first clause of a `for` statement, its semicolon included. -/
def forInitializer : Parse (Option Stmt) := do
  if ← accept .semicolon then
    return none
  else if ← accept .kwVar then
    return some (← varDeclaration inner)
  else
    return some (← expressionStatement inner)

/-- An expression, unless `closing` comes next. -/
def unlessNext (closing : Symbol) : Parse (Option Expr) := do
  if ← check closing then return none else return some (← inner.expression)

/-- A `for` statement after `for`. -/
def forStatement : Parse Stmt := do
  let _ ← expect .leftParen "'(' after 'for'"
  let initializer ← forInitializer inner
  let condition ← unlessNext inner .semicolon
  let _ ← expect .semicolon "';' after loop condition"
  let increment ← unlessNext inner .rightParen
  let _ ← expect .rightParen "')' after for clauses"
  let body ← inner.statement
  return forLoop initializer condition increment body

/-- An `if` statement after `if`. An `else` belongs to the nearest `if`. -/
def ifStatement : Parse Stmt := do
  let _ ← expect .leftParen "'(' after 'if'"
  let condition ← inner.expression
  let _ ← expect .rightParen "')' after if condition"
  let thenBranch ← inner.statement
  let elseBranch ← if ← accept .kwElse then some <$> inner.statement else pure none
  return .ifElse condition thenBranch elseBranch

def printStatement : Parse Stmt := do
  let value ← inner.expression
  let _ ← expect .semicolon "';' after value"
  return .print value

/-- A `return` statement after its keyword. -/
def returnStatement (keyword : Token) : Parse Stmt := do
  let value ← unlessNext inner .semicolon
  let _ ← expect .semicolon "';' after return value"
  return .returnWith keyword.line value

/-- A `while` statement after `while`. -/
def whileStatement : Parse Stmt := do
  let _ ← expect .leftParen "'(' after 'while'"
  let condition ← inner.expression
  let _ ← expect .rightParen "')' after condition"
  return .whileLoop condition (← inner.statement)

def anyStatement : Parse Stmt := do
  if ← accept .kwFor then
    forStatement inner
  else if ← accept .kwIf then
    ifStatement inner
  else if ← accept .kwPrint then
    printStatement inner
  else if let some keyword ← accept? (only .kwReturn) then
    returnStatement inner keyword
  else if ← accept .kwWhile then
    whileStatement inner
  else if ← accept .leftBrace then
    return .block (← block inner)
  else
    expressionStatement inner

/-- A declaration or a statement; nothing if it failed. -/
def anyDeclaration : Parse (Option Stmt) :=
  recovering do
    if ← accept .kwClass then
      classDeclaration inner
    else if ← accept .kwFun then
      return .funDecl (← function inner "function")
    else if ← accept .kwVar then
      varDeclaration inner
    else
      anyStatement inner

mutual

/-- A statement of which fewer than `depth` tokens are left. -/
def statement : (depth : Nat) → Parse Stmt
  | 0 => fail (.missing "expression")
  | depth + 1 => fun s => anyStatement ⟨depth, statement depth, declaration depth⟩ s

/-- A declaration of which fewer than `depth` tokens are left. -/
def declaration : (depth : Nat) → Parse (Option Stmt)
  | 0 => recovering (fail (.missing "expression"))
  | depth + 1 => fun s => anyDeclaration ⟨depth, statement depth, declaration depth⟩ s

end

/-- The declarations up to the end of the input, at most `limit` of them. -/
def declarations (depth : Nat) : (limit : Nat) → Parse (List Stmt)
  | 0 => return []
  | limit + 1 => do
    if ← atEnd then
      return []
    else
      let first ← declaration depth
      return first.toList ++ (← declarations depth limit)

end Parser

/-- What parsing a list of tokens gives. -/
structure Program where
  /-- The declarations without a stopping error. -/
  statements : List Stmt
  /-- All errors, in the order in which they were recorded. -/
  errors : List SyntaxError
  /-- The first number that no reference has. -/
  next : NodeId
  /-- The fault that ended parsing. -/
  fault? : Option Fault := none

/-- Parses a list of tokens that ends with the end of the input. References get numbers from `first`
on. -/
def Program.ofTokens (tokens : List Token) (first : NodeId) : Program :=
  let start : Parser.State := { rest := tokens, next := first }
  match Parser.declarations tokens.length (tokens.length + 1) start with
  | .ok statements s => ⟨statements, s.errors.toList, s.next, none⟩
  | .error (.error error) s => ⟨[], (s.errors.push error).toList, s.next, none⟩
  | .error (.fault fault) s => ⟨[], s.errors.toList, s.next, some fault⟩

end Lox
