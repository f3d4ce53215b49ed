import Lox.Proofs.Grammar.Completeness
import Lox.Proofs.Grammar.StatementSoundness

/-!
# Whatever statements are derivable are read

A derivable statement is read without errors, and the result is the tree of the derivation except
for the numbers. An open statement must not have an `else` behind it, which would be read too.
-/
namespace Lox.Parser
open Grammar
variable {α β : Type}

/-- What can stand behind a declaration and start another. -/
def goesOn : Kind → Bool
  | .symbol .rightBrace | .symbol .kwElse | .endOfInput => false
  | _ => true

theorem ne_of_apply {p : Kind → Bool} {token : Token} (h : p token.kind = true) {symbol : Symbol}
    (hsymbol : p (.symbol symbol) = false) : token.kind ≠ .symbol symbol := by
  intro hk
  rw [hk, hsymbol] at h
  exact nomatch h

theorem goesOn_of_startsDeclaration {kind : Kind} (h : startsDeclaration kind = true) :
    goesOn kind = true := by
  cases kind with
  | symbol s => cases s <;> first | rfl | exact nomatch h
  | endOfInput => exact nomatch h
  | _ => rfl

theorem isEnd_of_goesOn {kind : Kind} (h : goesOn kind = true) : kind.isEnd = false := by
  cases kind with
  | endOfInput => exact nomatch h
  | _ => rfl

/-- The step reads every item, if at most `limit` tokens are left. -/
def TakesItem (limit : Nat) (item : Parse β) (good : List Token → α → Prop)
    (same : β → α → Prop) : Prop :=
  ∀ tokens a next rest, good tokens a → (tokens ++ next :: rest).length ≤ limit →
    next.kind ≠ .symbol .kwElse → Accepts item (tokens ++ next :: rest) (next :: rest) (same · a)

/-- Every item starts with a token that can go on a list of items. -/
def StartsItem (good : List Token → α → Prop) : Prop :=
  ∀ tokens a, good tokens a → ∃ token rest, tokens = token :: rest ∧ goesOn token.kind = true

section
variable {item : Parse β} {good : List Token → α → Prop} {same : β → α → Prop} {limit : Nat}

/-- Items go on with the next item or with what stands behind them all. -/
theorem many_next (hstarts : StartsItem good) {tokens : List Token} {items : List α}
    (h : Many good tokens items) (next : Token) (rest : List Token)
    (hnext : next.kind ≠ .symbol .kwElse) :
    ∃ next' rest', tokens ++ next :: rest = next' :: rest' ∧ next'.kind ≠ .symbol .kwElse := by
  cases h with
  | nil => exact ⟨next, rest, rfl, hnext⟩
  | cons first _ =>
    obtain ⟨token, others, rfl, hgoes⟩ := hstarts _ _ first
    exact ⟨token, _, rfl, ne_of_apply hgoes rfl⟩

theorem accepts_untilRightBrace (hitem : TakesItem limit item good same)
    (hstarts : StartsItem good) {tokens : List Token} {items : List α} (h : Many good tokens items)
    {closing : Token} {rest : List Token} (closes : closing.kind = .symbol .rightBrace)
    (hlimit : (tokens ++ closing :: rest).length ≤ limit) (bound : Nat)
    (hbound : (tokens ++ closing :: rest).length ≤ bound) :
    Accepts (untilRightBrace item bound) (tokens ++ closing :: rest) (closing :: rest)
      (List.Forall₂ same · items) := by
  induction h generalizing bound with
  | nil =>
    cases bound with
    | zero => simp at hbound
    | succ bound =>
      have hend : closing.kind.isEnd = false := by rw [closes]; rfl
      exact (accepts_check closes).bindTo ((accepts_atEnd hend).bindTo (.pure .nil))
  | @cons tokens others first items hfirst hothers ih =>
    obtain ⟨token, tail, rfl, hgoes⟩ := hstarts _ _ hfirst
    cases bound with
    | zero => simp at hbound
    | succ bound =>
      have hbrace : token.kind ≠ .symbol .rightBrace := ne_of_apply hgoes rfl
      rw [List.append_assoc] at hlimit hbound ⊢
      refine (accepts_check_ne hbrace).bindTo ((accepts_atEnd (isEnd_of_goesOn hgoes)).bindTo ?_)
      obtain ⟨next, rest', hnext, helse⟩ :=
        many_next hstarts hothers closing rest (by rw [closes]; simp)
      have hread := hitem (token :: tail) first next rest' hfirst (by rw [← hnext]; exact hlimit) helse
      rw [← hnext] at hread
      refine hread.bind fun a ha => ?_
      simp only [List.length_append, List.length_cons] at hlimit hbound
      refine (ih ?_ bound ?_).bind fun as has => .pure (.cons ha has)
      · simp only [List.length_append, List.length_cons]
        omega
      · simp only [List.length_append, List.length_cons]
        omega

end

/-- The result is there, and it is the statement except for the numbers. -/
def SameStmt (o : Option Stmt) (stmt : Stmt) : Prop :=
  ∃ result, o = some result ∧ result.unnumbered = stmt.unnumbered

theorem reduceOption_some_cons (a : α) (os : List (Option α)) :
    (some a :: os).reduceOption = a :: os.reduceOption := rfl

theorem unnumbered_reduceOption {os : List (Option Stmt)} {stmts : List Stmt}
    (h : List.Forall₂ SameStmt os stmts) :
    Stmt.listUnnumbered os.reduceOption = Stmt.listUnnumbered stmts := by
  induction h with
  | nil => rfl
  | cons first _ ih =>
    obtain ⟨result, rfl, hresult⟩ := first
    rw [reduceOption_some_cons, Stmt.listUnnumbered, Stmt.listUnnumbered, hresult, ih]

/-- The step reads every statement behind which no `else` is left for it. -/
def TakesStatement (limit : Nat) (step : Parse Stmt) : Prop :=
  ∀ isOpen tokens stmt next rest, Statement true isOpen tokens stmt →
    (tokens ++ next :: rest).length ≤ limit → (isOpen = true → next.kind ≠ .symbol .kwElse) →
      Accepts step (tokens ++ next :: rest) (next :: rest) (·.unnumbered = stmt.unnumbered)

structure Inner.Takes (inner : Inner) : Prop where
  statements : TakesStatement inner.limit inner.statement
  declarations : TakesItem inner.limit inner.declaration (Declaration true) SameStmt

theorem startsItem_declaration : StartsItem (Declaration true) := by
  intro tokens stmt h
  obtain ⟨token, rest, rfl, hstarts⟩ := h.starts
  exact ⟨token, rest, rfl, goesOn_of_startsDeclaration hstarts⟩

theorem startsItem_function : StartsItem (Function true) := by
  intro tokens f h
  obtain ⟨token, rest, rfl, hk⟩ := h.starts
  exact ⟨token, rest, rfl, by rw [hk]; rfl⟩

variable {inner : Inner}

theorem accepts_innerExpression {tokens : List Token} {e : Expr}
    (h : Expression .assignment tokens e) {next : Token} {rest : List Token} {symbol : Symbol}
    (hnext : next.kind = .symbol symbol) (hsymbol : continuation? symbol = none)
    (hlimit : (tokens ++ next :: rest).length ≤ inner.limit + 1) :
    Accepts inner.expression (tokens ++ next :: rest) (next :: rest)
      (·.unnumbered = e.unnumbered) :=
  takes_expression _ tokens e _ h hlimit (ends_of_none hnext hsymbol)

theorem accepts_unlessNext {tokens : List Token} {value : Option Expr}
    (h : OptionalExpression tokens value) {next : Token} {rest : List Token} {symbol : Symbol}
    (hnext : next.kind = .symbol symbol) (hsymbol : continuation? symbol = none)
    (hstarts : startsExpression (.symbol symbol) = false)
    (hlimit : (tokens ++ next :: rest).length ≤ inner.limit + 1) :
    Accepts (unlessNext inner symbol) (tokens ++ next :: rest) (next :: rest)
      (·.map Expr.unnumbered = value.map Expr.unnumbered) := by
  cases h with
  | absent => exact (accepts_check hnext).bindTo (.pure rfl)
  | present expression =>
    obtain ⟨token, tail, rfl, hk⟩ := starts_ne expression hstarts
    refine Accepts.bindTo (accepts_check_ne hk) ?_
    refine (accepts_innerExpression expression hnext hsymbol hlimit).bind fun e he => .pure ?_
    rw [Option.map_some, Option.map_some, he]

theorem accepts_expressionStatement {tokens rest : List Token} {stmt : Stmt}
    (h : Evaluated tokens stmt) (hlimit : (tokens ++ rest).length ≤ inner.limit + 1) :
    Accepts (expressionStatement inner) (tokens ++ rest) rest (·.unnumbered = stmt.unnumbered) := by
  cases h with
  | mk expression ends =>
    rw [List.append_assoc] at hlimit ⊢
    refine (accepts_innerExpression expression ends rfl hlimit).bind fun e he => ?_
    refine (accepts_expect ends).bindTo (.pure ?_)
    rw [Stmt.unnumbered, Stmt.unnumbered, he]

theorem accepts_varDeclaration {keyword : Token} {tokens rest : List Token} {stmt : Stmt}
    (h : Variable (keyword :: tokens) stmt) (hlimit : (tokens ++ rest).length ≤ inner.limit + 1) :
    Accepts (varDeclaration inner) (tokens ++ rest) rest (·.unnumbered = stmt.unnumbered) := by
  cases h with
  | bare _ isName ends =>
    refine (accepts_expectName isName).bindTo ?_
    refine (accepts_accept_ne (by rw [ends]; simp)).bindTo ?_
    refine Accepts.bindTo (.pure rfl) ?_
    exact (accepts_expect ends).bindTo (.pure rfl)
  | @initialized _ name equals semicolon tokens e _ isName isEqual initializer ends =>
    simp only [List.cons_append, List.append_assoc, List.nil_append, List.length_cons] at hlimit ⊢
    refine (accepts_expectName isName).bindTo ((accepts_accept isEqual).bindTo ?_)
    have hvalue : Accepts (some <$> inner.expression) (tokens ++ semicolon :: rest)
        (semicolon :: rest) (·.map Expr.unnumbered = some e.unnumbered) := by
      refine (accepts_innerExpression initializer ends rfl (by omega)).map fun e he => ?_
      rw [Option.map_some, he]
    refine hvalue.bind fun o ho => (accepts_expect ends).bindTo (.pure ?_)
    rw [Stmt.unnumbered, Stmt.unnumbered, ho, Option.map_some]

theorem accepts_forInitializer {tokens rest : List Token} {initializer : Option Stmt}
    (h : Initializer tokens initializer) (hlimit : (tokens ++ rest).length ≤ inner.limit + 1) :
    Accepts (forInitializer inner) (tokens ++ rest) rest
      (·.map Stmt.unnumbered = initializer.map Stmt.unnumbered) := by
  cases h with
  | absent ends => exact (accepts_accept ends).bindTo (.pure rfl)
  | varDecl declaration =>
    obtain ⟨keyword, tail, rfl, hk⟩ := declaration.starts
    refine (accepts_accept_ne (by rw [hk]; simp)).bindTo ((accepts_accept hk).bindTo ?_)
    refine (accepts_varDeclaration declaration (Nat.le_of_succ_le hlimit)).bind fun s hs => .pure ?_
    rw [Option.map_some, Option.map_some, hs]
  | evaluated statement =>
    obtain ⟨token, tail, rfl, hstarts⟩ := statement.starts
    refine (accepts_accept_ne (ne_of_apply hstarts rfl)).bindTo ?_
    refine (accepts_accept_ne (ne_of_apply hstarts rfl)).bindTo ?_
    refine (accepts_expressionStatement statement hlimit).bind fun s hs => .pure ?_
    rw [Option.map_some, Option.map_some, hs]

theorem accepts_superclass? {tokens : List Token} {superclass : Option Superclass}
    (h : Inherits tokens superclass) {next : Token} {rest : List Token}
    (hnext : next.kind = .symbol .leftBrace) :
    Accepts superclass? (tokens ++ next :: rest) (next :: rest)
      (·.map Superclass.unnumbered = superclass.map Superclass.unnumbered) := by
  cases h with
  | absent => exact (accepts_accept_ne (by rw [hnext]; simp)).bindTo (.pure rfl)
  | present isLess isName =>
    refine (accepts_accept isLess).bindTo ((accepts_expectName isName).bindTo ?_)
    exact accepts_freshId.bind fun id _ => .pure rfl

theorem listItem_parameter (limit : Nat) (what : String) :
    ListItem limit (expectName what) Parameter (· = ·) := by
  intro tokens name next rest h _ _
  cases h with
  | mk isName => exact accepts_expectName isName

theorem starts_parameter (tokens : List Token) (name : Name) (h : Parameter tokens name) :
    ∃ token rest, tokens = token :: rest ∧ token.kind ≠ .symbol .rightParen := by
  cases h with
  | mk isName => exact ⟨_, [], rfl, by rw [isName]; simp⟩

section
variable (h : inner.Takes)
include h

theorem accepts_block {tokens : List Token} {body : List Stmt}
    (declarations : Many (Declaration true) tokens body) {closing : Token}
    (closes : closing.kind = .symbol .rightBrace) {rest : List Token}
    (hlimit : (tokens ++ closing :: rest).length ≤ inner.limit) :
    Accepts (block inner) (tokens ++ closing :: rest) rest
      (Stmt.listUnnumbered · = Stmt.listUnnumbered body) := by
  refine (accepts_untilRightBrace h.declarations startsItem_declaration declarations closes hlimit
    inner.limit hlimit).bind fun os hos => ?_
  exact (accepts_expect closes).bindTo (.pure (unnumbered_reduceOption hos))

theorem accepts_function {kind : String} {tokens rest : List Token} {f : FunctionDecl}
    (hf : Function true tokens f) (hlimit : (tokens ++ rest).length ≤ inner.limit + 1) :
    Accepts (function inner kind) (tokens ++ rest) rest
      (Stmt.functionUnnumbered · = Stmt.functionUnnumbered f) := by
  cases hf with
  | @mk name opening closing left right list tokens parameters body isName opens items closes begins
      declarations ends =>
    have htokens : name :: opening :: (list ++ closing :: left :: (tokens ++ [right])) ++ rest =
        name :: opening :: (list ++ closing :: left :: (tokens ++ right :: rest)) := by simp
    rw [htokens] at hlimit ⊢
    simp only [List.length_cons, List.length_append] at hlimit
    refine (accepts_expectName isName).bindTo ((accepts_expect opens).bindTo ?_)
    have hlist := accepts_listItems (listItem_parameter inner.limit "parameter name")
      starts_parameter .tooManyParameters items closes
      (show (list ++ closing :: left :: (tokens ++ right :: rest)).length ≤ _ by
        simp only [List.length_cons, List.length_append]
        omega)
    refine hlist.bind fun names hnames => ?_
    rw [List.forall₂_eq_eq_eq] at hnames
    subst hnames
    refine (accepts_expect closes).bindTo ((accepts_expect begins).bindTo ?_)
    refine (accepts_block h declarations ends ?_).bind fun body hbody => .pure ?_
    · simp only [List.length_cons, List.length_append]
      omega
    · rw [Stmt.functionUnnumbered, Stmt.functionUnnumbered, hbody]

theorem accepts_classDeclaration {name opening closing : Token} {clause tokens rest : List Token}
    {superclass : Option Superclass} {methods : List FunctionDecl}
    (isName : name.kind = .identifier) (inherits : Inherits clause superclass)
    (opens : opening.kind = .symbol .leftBrace)
    (declarations : Many (Function true) tokens methods) (closes : closing.kind = .symbol .rightBrace)
    (hlimit : (name :: (clause ++ opening :: (tokens ++ closing :: rest))).length ≤ inner.limit + 1) :
    Accepts (classDeclaration inner) (name :: (clause ++ opening :: (tokens ++ closing :: rest))) rest
      (·.unnumbered = (Stmt.classDecl name.toName superclass methods).unnumbered) := by
  simp only [List.length_cons, List.length_append] at hlimit
  refine (accepts_expectName isName).bindTo ?_
  refine (accepts_superclass? inherits opens).bind fun parent hparent => ?_
  refine (accepts_expect opens).bindTo ?_
  have hmethod : TakesItem inner.limit (function inner "method") (Function true)
      fun f f' => Stmt.functionUnnumbered f = Stmt.functionUnnumbered f' :=
    fun tokens f next rest hf hlength _ => accepts_function h hf (Nat.le_succ_of_le hlength)
  have hlist : (tokens ++ closing :: rest).length ≤ inner.limit := by
    simp only [List.length_cons, List.length_append]
    omega
  refine (accepts_untilRightBrace hmethod startsItem_function declarations closes hlist inner.limit
    hlist).bind fun fs hfs => ?_
  refine (accepts_expect closes).bindTo (.pure ?_)
  rw [Stmt.unnumbered, Stmt.unnumbered, hparent, Stmt.methodsUnnumbered_eq hfs]

omit h in
/-- The condition in parentheses and what stands behind it. -/
theorem accepts_condition {α : Type} {what what' : String} {opening closing : Token}
    {tokens rest after : List Token} {condition : Expr} (opens : opening.kind = .symbol .leftParen)
    (test : Expression .assignment tokens condition) (closes : closing.kind = .symbol .rightParen)
    (hlimit : (tokens ++ closing :: rest).length ≤ inner.limit + 1) {f : Expr → Parse α}
    {good : α → Prop}
    (hf : ∀ e, e.unnumbered = condition.unnumbered → Accepts (f e) rest after good) :
    Accepts (do
      let _ ← expect .leftParen what
      let condition ← inner.expression
      let _ ← expect .rightParen what'
      f condition) (opening :: (tokens ++ closing :: rest)) after good := by
  refine (accepts_expect opens).bindTo ?_
  refine (accepts_innerExpression test closes rfl hlimit).bind fun e he => ?_
  exact (accepts_expect closes).bindTo (hf e he)

theorem accepts_ifThen {opening closing next : Token} {tokens thens rest : List Token}
    {condition : Expr} {thenBranch : Stmt} {isOpen : Bool}
    (opens : opening.kind = .symbol .leftParen) (test : Expression .assignment tokens condition)
    (closes : closing.kind = .symbol .rightParen) (branch : Statement true isOpen thens thenBranch)
    (hnext : next.kind ≠ .symbol .kwElse)
    (hlimit : (tokens ++ closing :: (thens ++ next :: rest)).length ≤ inner.limit) :
    Accepts (ifStatement inner) (opening :: (tokens ++ closing :: (thens ++ next :: rest)))
      (next :: rest) (·.unnumbered = (Stmt.ifElse condition thenBranch none).unnumbered) := by
  refine accepts_condition opens test closes (Nat.le_succ_of_le hlimit) fun e he => ?_
  simp only [List.length_cons, List.length_append] at hlimit
  refine (h.statements _ _ _ _ _ branch ?_ fun _ => hnext).bind fun s hs => ?_
  · simp only [List.length_cons, List.length_append]
    omega
  refine (accepts_accept_ne hnext).bindTo ?_
  refine Accepts.bindTo (.pure rfl) (.pure ?_)
  simp only [Stmt.unnumbered, he, hs]

theorem accepts_ifElse {opening closing otherwise next : Token}
    {tokens thens elses rest : List Token} {condition : Expr} {thenBranch elseBranch : Stmt}
    {thenOpen isOpen : Bool} (opens : opening.kind = .symbol .leftParen)
    (test : Expression .assignment tokens condition) (closes : closing.kind = .symbol .rightParen)
    (branch : Statement true thenOpen thens thenBranch) (isClosed : thenOpen = false)
    (isElse : otherwise.kind = .symbol .kwElse) (other : Statement true isOpen elses elseBranch)
    (hnext : isOpen = true → next.kind ≠ .symbol .kwElse)
    (hlimit : (tokens ++ closing :: (thens ++ otherwise :: (elses ++ next :: rest))).length ≤
      inner.limit) :
    Accepts (ifStatement inner)
      (opening :: (tokens ++ closing :: (thens ++ otherwise :: (elses ++ next :: rest))))
      (next :: rest)
      (·.unnumbered = (Stmt.ifElse condition thenBranch (some elseBranch)).unnumbered) := by
  refine accepts_condition opens test closes (Nat.le_succ_of_le hlimit) fun e he => ?_
  simp only [List.length_cons, List.length_append] at hlimit
  refine (h.statements _ _ _ _ _ branch ?_ fun ho => absurd (isClosed.symm.trans ho) (by simp)).bind
    fun s hs => ?_
  · simp only [List.length_cons, List.length_append]
    omega
  refine (accepts_accept isElse).bindTo ?_
  have helse : Accepts (some <$> inner.statement) (elses ++ next :: rest) (next :: rest)
      (SameStmt · elseBranch) := by
    refine (h.statements _ _ _ _ _ other ?_ hnext).map fun s hs => ⟨s, rfl, hs⟩
    simp only [List.length_cons, List.length_append]
    omega
  refine helse.bind fun o ho => .pure ?_
  obtain ⟨s', rfl, hs'⟩ := ho
  simp only [Stmt.unnumbered, he, hs, hs']

theorem accepts_whileStatement {opening closing next : Token} {tokens repeats rest : List Token}
    {condition : Expr} {body : Stmt} {isOpen : Bool} (opens : opening.kind = .symbol .leftParen)
    (test : Expression .assignment tokens condition) (closes : closing.kind = .symbol .rightParen)
    (hbody : Statement true isOpen repeats body) (hnext : isOpen = true → next.kind ≠ .symbol .kwElse)
    (hlimit : (tokens ++ closing :: (repeats ++ next :: rest)).length ≤ inner.limit) :
    Accepts (whileStatement inner) (opening :: (tokens ++ closing :: (repeats ++ next :: rest)))
      (next :: rest) (·.unnumbered = (Stmt.whileLoop condition body).unnumbered) := by
  refine accepts_condition opens test closes (Nat.le_succ_of_le hlimit) fun e he => ?_
  simp only [List.length_cons, List.length_append] at hlimit
  refine (h.statements _ _ _ _ _ hbody ?_ hnext).bind fun s hs => .pure ?_
  · simp only [List.length_cons, List.length_append]
    omega
  · simp only [Stmt.unnumbered, he, hs]

omit h in
/-- The tree of a `for` statement is settled by its parts. -/
theorem unnumbered_whileForm {condition condition' increment increment' : Option Expr}
    {body body' : Stmt} {initializer initializer' : Option Stmt}
    (hcondition : condition.map Expr.unnumbered = condition'.map Expr.unnumbered)
    (hincrement : increment.map Expr.unnumbered = increment'.map Expr.unnumbered)
    (hbody : body.unnumbered = body'.unnumbered)
    (hinitializer : initializer.map Stmt.unnumbered = initializer'.map Stmt.unnumbered) :
    (whileForm condition increment body initializer).unnumbered =
      (whileForm condition' increment' body' initializer').unnumbered := by
  have hrepeated : (repeated body increment).unnumbered = (repeated body' increment').unnumbered := by
    cases increment with
    | none =>
      cases increment' with
      | none => exact hbody
      | some _ => cases hincrement
    | some e =>
      cases increment' with
      | none => cases hincrement
      | some e' =>
        simp only [Option.map_some, Option.some.injEq] at hincrement
        simp only [repeated, Stmt.unnumbered, Stmt.listUnnumbered, hbody, hincrement]
  have htest : (condition.getD (.literal (.bool true))).unnumbered =
      (condition'.getD (.literal (.bool true))).unnumbered := by
    cases condition with
    | none =>
      cases condition' with
      | none => rfl
      | some _ => cases hcondition
    | some e =>
      cases condition' with
      | none => cases hcondition
      | some e' => exact Option.some.inj hcondition
  cases initializer with
  | none =>
    cases initializer' with
    | none => simp only [whileForm, Stmt.unnumbered, hrepeated, htest]
    | some _ => cases hinitializer
  | some s =>
    cases initializer' with
    | none => cases hinitializer
    | some s' =>
      simp only [Option.map_some, Option.some.injEq] at hinitializer
      simp only [whileForm, Stmt.unnumbered, Stmt.listUnnumbered, hrepeated, htest, hinitializer]

theorem accepts_forStatement {opening semicolon closing next : Token}
    {starts tests steps repeats rest : List Token} {initializer : Option Stmt}
    {condition increment : Option Expr} {body : Stmt} {isOpen : Bool}
    (opens : opening.kind = .symbol .leftParen) (start : Initializer starts initializer)
    (test : OptionalExpression tests condition) (ends : semicolon.kind = .symbol .semicolon)
    (step : OptionalExpression steps increment) (closes : closing.kind = .symbol .rightParen)
    (hbody : Statement true isOpen repeats body) (hnext : isOpen = true → next.kind ≠ .symbol .kwElse)
    (hlimit : (starts ++ (tests ++ semicolon :: (steps ++ closing :: (repeats ++ next :: rest)))).length
      ≤ inner.limit) :
    Accepts (forStatement inner)
      (opening :: (starts ++ (tests ++ semicolon :: (steps ++ closing :: (repeats ++ next :: rest)))))
      (next :: rest) (·.unnumbered = (whileForm condition increment body initializer).unnumbered) := by
  refine (accepts_expect opens).bindTo ?_
  refine (accepts_forInitializer start (Nat.le_succ_of_le hlimit)).bind fun i hi => ?_
  simp only [List.length_cons, List.length_append] at hlimit
  refine (accepts_unlessNext test ends rfl rfl ?_).bind fun c hc => ?_
  · simp only [List.length_cons, List.length_append]
    omega
  refine (accepts_expect ends).bindTo ?_
  refine (accepts_unlessNext step closes rfl rfl ?_).bind fun e he => ?_
  · simp only [List.length_cons, List.length_append]
    omega
  refine (accepts_expect closes).bindTo ?_
  refine (h.statements _ _ _ _ _ hbody ?_ hnext).bind fun s hs => .pure ?_
  · simp only [List.length_cons, List.length_append]
    omega
  rw [forLoop_eq]
  exact unnumbered_whileForm hc he hs hi

theorem accepts_anyStatement : TakesStatement (inner.limit + 1) (anyStatement inner) := by
  intro isOpen tokens stmt next rest hstmt hlimit hnext
  cases hstmt with
  | evaluated statement =>
    obtain ⟨token, tail, rfl, hstarts⟩ := statement.starts
    refine (accepts_accept_ne (ne_of_apply hstarts rfl)).bindTo ?_
    refine (accepts_accept_ne (ne_of_apply hstarts rfl)).bindTo ?_
    refine (accepts_accept_ne (ne_of_apply hstarts rfl)).bindTo ?_
    refine (accepts_accept?_none (only_eq_none.mpr (ne_of_apply hstarts rfl))).bindTo ?_
    refine (accepts_accept_ne (ne_of_apply hstarts rfl)).bindTo ?_
    refine (accepts_accept_ne (ne_of_apply hstarts rfl)).bindTo ?_
    exact accepts_expressionStatement statement hlimit
  | @print keyword semicolon tokens e isPrint value ends =>
    have htokens : keyword :: (tokens ++ [semicolon]) ++ next :: rest =
        keyword :: (tokens ++ semicolon :: next :: rest) := by simp
    rw [htokens] at hlimit ⊢
    refine (accepts_accept_ne (by rw [isPrint]; simp)).bindTo ?_
    refine (accepts_accept_ne (by rw [isPrint]; simp)).bindTo ?_
    refine (accepts_accept isPrint).bindTo ?_
    refine (accepts_innerExpression value ends rfl (Nat.le_of_succ_le hlimit)).bind fun e he => ?_
    refine (accepts_expect ends).bindTo (.pure ?_)
    rw [Stmt.unnumbered, Stmt.unnumbered, he]
  | @returnWith keyword semicolon tokens value isReturn result ends =>
    have htokens : keyword :: (tokens ++ [semicolon]) ++ next :: rest =
        keyword :: (tokens ++ semicolon :: next :: rest) := by simp
    rw [htokens] at hlimit ⊢
    refine (accepts_accept_ne (by rw [isReturn]; simp)).bindTo ?_
    refine (accepts_accept_ne (by rw [isReturn]; simp)).bindTo ?_
    refine (accepts_accept_ne (by rw [isReturn]; simp)).bindTo ?_
    refine (accepts_accept? (only_eq_some.mpr ⟨isReturn, rfl⟩)).bindTo ?_
    refine (accepts_unlessNext result ends rfl rfl (Nat.le_of_succ_le hlimit)).bind fun o ho => ?_
    refine (accepts_expect ends).bindTo (.pure ?_)
    rw [Stmt.unnumbered, Stmt.unnumbered, ho]
  | @block opening closing tokens body opens declarations closes =>
    have htokens : opening :: (tokens ++ [closing]) ++ next :: rest =
        opening :: (tokens ++ closing :: next :: rest) := by simp
    rw [htokens] at hlimit ⊢
    refine (accepts_accept_ne (by rw [opens]; simp)).bindTo ?_
    refine (accepts_accept_ne (by rw [opens]; simp)).bindTo ?_
    refine (accepts_accept_ne (by rw [opens]; simp)).bindTo ?_
    refine (accepts_accept?_none (only_eq_none.mpr (by rw [opens]; simp))).bindTo ?_
    refine (accepts_accept_ne (by rw [opens]; simp)).bindTo ?_
    refine (accepts_accept opens).bindTo ?_
    refine (accepts_block h declarations closes (Nat.le_of_succ_le_succ hlimit)).bind
      fun body hbody => .pure ?_
    rw [Stmt.unnumbered, Stmt.unnumbered, hbody]
  | @ifThen keyword opening closing tokens thens condition thenBranch _ isIf opens test closes
      branch =>
    have htokens : keyword :: opening :: (tokens ++ closing :: thens) ++ next :: rest =
        keyword :: opening :: (tokens ++ closing :: (thens ++ next :: rest)) := by simp
    rw [htokens] at hlimit ⊢
    refine (accepts_accept_ne (by rw [isIf]; simp)).bindTo ((accepts_accept isIf).bindTo ?_)
    exact accepts_ifThen h opens test closes branch (hnext rfl)
      (Nat.le_of_succ_le (Nat.le_of_succ_le_succ hlimit))
  | @ifElse keyword opening closing otherwise tokens thens elses condition thenBranch elseBranch _ _
      isIf opens test closes branch isNearest isElse other =>
    have htokens :
        keyword :: opening :: (tokens ++ closing :: (thens ++ otherwise :: elses)) ++ next :: rest =
          keyword :: opening ::
            (tokens ++ closing :: (thens ++ otherwise :: (elses ++ next :: rest))) := by simp
    rw [htokens] at hlimit ⊢
    refine (accepts_accept_ne (by rw [isIf]; simp)).bindTo ((accepts_accept isIf).bindTo ?_)
    exact accepts_ifElse h opens test closes branch (isNearest rfl) isElse other hnext
      (Nat.le_of_succ_le (Nat.le_of_succ_le_succ hlimit))
  | @whileLoop keyword opening closing tokens repeats condition body _ isWhile opens test closes
      hbody =>
    have htokens : keyword :: opening :: (tokens ++ closing :: repeats) ++ next :: rest =
        keyword :: opening :: (tokens ++ closing :: (repeats ++ next :: rest)) := by simp
    rw [htokens] at hlimit ⊢
    refine (accepts_accept_ne (by rw [isWhile]; simp)).bindTo ?_
    refine (accepts_accept_ne (by rw [isWhile]; simp)).bindTo ?_
    refine (accepts_accept_ne (by rw [isWhile]; simp)).bindTo ?_
    refine (accepts_accept?_none (only_eq_none.mpr (by rw [isWhile]; simp))).bindTo ?_
    refine (accepts_accept isWhile).bindTo ?_
    exact accepts_whileStatement h opens test closes hbody hnext
      (Nat.le_of_succ_le (Nat.le_of_succ_le_succ hlimit))
  | @forLoop keyword opening semicolon closing starts tests steps repeats initializer condition
      increment body _ isFor opens start test ends step closes hbody =>
    have htokens : keyword :: opening :: (starts ++ (tests ++ semicolon :: (steps ++ closing :: repeats)))
        ++ next :: rest = keyword :: opening :: (starts ++ (tests ++ semicolon ::
          (steps ++ closing :: (repeats ++ next :: rest)))) := by simp
    rw [htokens] at hlimit ⊢
    refine (accepts_accept isFor).bindTo ?_
    exact accepts_forStatement h opens start test ends step closes hbody hnext
      (Nat.le_of_succ_le (Nat.le_of_succ_le_succ hlimit))

omit h in
theorem accepts_recovering {step : Parse Stmt} {before after : List Token} {stmt : Stmt}
    (hstep : Accepts step before after (·.unnumbered = stmt.unnumbered)) :
    Accepts (recovering step) before after (SameStmt · stmt) := by
  intro s hs
  obtain ⟨result, s', hrun, hrest, herrors, hresult⟩ := hstep s hs
  refine ⟨some result, s', ?_, hrest, herrors, result, rfl, hresult⟩
  unfold recovering
  rw [hrun]

theorem takes_anyDeclaration :
    TakesItem (inner.limit + 1) (anyDeclaration inner) (Declaration true) SameStmt := by
  intro tokens stmt next rest hstmt hlimit hnext
  refine accepts_recovering ?_
  cases hstmt with
  | varDecl declaration =>
    obtain ⟨keyword, tail, rfl, hk⟩ := declaration.starts
    refine (accepts_accept_ne (by rw [hk]; simp)).bindTo ?_
    refine (accepts_accept_ne (by rw [hk]; simp)).bindTo ((accepts_accept hk).bindTo ?_)
    exact accepts_varDeclaration declaration (Nat.le_of_succ_le hlimit)
  | funDecl isFun declaration =>
    refine (accepts_accept_ne (by rw [isFun]; simp)).bindTo ((accepts_accept isFun).bindTo ?_)
    refine (accepts_function h declaration (Nat.le_of_succ_le hlimit)).bind fun f hf => .pure ?_
    rw [Stmt.unnumbered, Stmt.unnumbered, hf]
  | @classDecl keyword name opening closing clause tokens superclass methods isClass isName inherits
      opens declarations closes =>
    have htokens : keyword :: name :: (clause ++ opening :: (tokens ++ [closing])) ++ next :: rest =
        keyword :: name :: (clause ++ opening :: (tokens ++ closing :: next :: rest)) := by simp
    rw [htokens] at hlimit ⊢
    refine (accepts_accept isClass).bindTo ?_
    exact accepts_classDeclaration h isName inherits opens declarations closes
      (Nat.le_of_succ_le hlimit)
  | statement statement =>
    obtain ⟨token, tail, rfl, hstarts⟩ := statement.starts
    refine (accepts_accept_ne (ne_of_apply hstarts rfl)).bindTo ?_
    refine (accepts_accept_ne (ne_of_apply hstarts rfl)).bindTo ?_
    refine (accepts_accept_ne (ne_of_apply hstarts rfl)).bindTo ?_
    exact accepts_anyStatement h _ _ _ _ _ statement hlimit fun _ => hnext

end

theorem takes_innerAt (depth : Nat) : (innerAt depth).Takes := by
  induction depth with
  | zero =>
    refine ⟨fun isOpen tokens stmt next rest _ hlimit => ?_, fun tokens stmt next rest _ hlimit => ?_⟩
    · exact absurd hlimit (by simp [innerAt])
    · exact absurd hlimit (by simp [innerAt])
  | succ depth ih => exact ⟨accepts_anyStatement ih, takes_anyDeclaration ih⟩

/-- The declarations of a program are read up to the end of the input. -/
theorem accepts_declarations {tokens : List Token} {statements : List Stmt}
    (h : Grammar.Program true tokens statements) {last : Token} (hlast : last.kind.isEnd = true)
    {rest : List Token} {depth : Nat} (hdepth : (tokens ++ last :: rest).length ≤ depth) (limit : Nat)
    (hlimit : (tokens ++ last :: rest).length ≤ limit) :
    Accepts (declarations depth limit) (tokens ++ last :: rest) (last :: rest)
      (Stmt.listUnnumbered · = Stmt.listUnnumbered statements) := by
  unfold Grammar.Program at h
  induction h generalizing limit with
  | nil =>
    cases limit with
    | zero => simp at hlimit
    | succ limit => exact (accepts_atEnd hlast).bindTo (.pure rfl)
  | @cons tokens others first statements hfirst hothers ih =>
    obtain ⟨token, tail, rfl, hgoes⟩ := startsItem_declaration _ _ hfirst
    cases limit with
    | zero => simp at hlimit
    | succ limit =>
      rw [List.append_assoc] at hdepth hlimit ⊢
      refine (accepts_atEnd (isEnd_of_goesOn hgoes)).bindTo ?_
      have helse : last.kind ≠ .symbol .kwElse := by
        intro hk
        rw [hk] at hlast
        exact nomatch hlast
      obtain ⟨next, rest', hnext, helse⟩ := many_next startsItem_declaration hothers last rest helse
      have hread := (takes_innerAt depth).declarations (token :: tail) first next rest' hfirst
        (by rw [← hnext]; exact hdepth) helse
      rw [← hnext] at hread
      refine hread.bind fun o ho => ?_
      obtain ⟨result, rfl, hresult⟩ := ho
      simp only [List.length_append, List.length_cons] at hdepth hlimit
      refine (ih ?_ limit ?_).bind fun as has => .pure ?_
      · simp only [List.length_append, List.length_cons]
        omega
      · simp only [List.length_append, List.length_cons]
        omega
      · rw [Option.toList_some, List.singleton_append, Stmt.listUnnumbered, Stmt.listUnnumbered,
          hresult, has]

end Lox.Parser
