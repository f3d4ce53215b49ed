import Lox.Proofs.Grammar.Soundness

/-!
# Parsing statements follows the grammar

The tokens of a statement or declaration that is read without errors are derivable. If a statement
ends in an `if` without `else`, then no `else` comes next; so each `else` is that of the nearest
`if` that has none.
-/
namespace Lox.Parser
open Grammar

/-- The next token is not `else`. -/
def NoElse (tokens : List Token) : Prop :=
  ∀ token rest, tokens = token :: rest → token.kind ≠ .symbol .kwElse

/-- The tokens that the step reads are a statement, with those that were read `before`. If it is
open, no `else` comes next. -/
def ReadsStatement (bound : Nat) (before : List Token) (step : Parse Stmt) : Prop :=
  ∀ s stmt s', s.rest.length ≤ bound → step s = .ok stmt s' → s'.errors = #[] →
    ∃ used isOpen, s.rest = used ++ s'.rest ∧ Statement true isOpen (before ++ used) stmt ∧
      (isOpen = true → NoElse s'.rest)

/-- The result is there, and it is a declaration. -/
def Declared (tokens : List Token) (o : Option Stmt) : Prop :=
  ∃ stmt, o = some stmt ∧ Declaration true tokens stmt

structure Inner.Reads (inner : Inner) : Prop extends inner.Safe where
  statements : ReadsStatement inner.limit [] inner.statement
  declarations : Parser.Reads inner.limit inner.declaration Declared

/-- A statement with these tokens, behind which an `else` cannot be part of it. -/
theorem Reads.toStatement {bound : Nat} {before : List Token} {step : Parse Stmt}
    (h : Reads bound step fun used => Statement true false (before ++ used)) :
    ReadsStatement bound before step := by
  intro s stmt s' hlength hrun hclean
  obtain ⟨used, hused, hgood⟩ := h s stmt s' hlength hrun hclean
  exact ⟨used, false, hused, hgood, by simp⟩

theorem many_reduceOption {tokens : List Token} {os : List (Option Stmt)}
    (h : Many Declared tokens os) : Many (Declaration true) tokens os.reduceOption := by
  induction h with
  | nil => exact .nil
  | cons first others ih =>
    obtain ⟨stmt, rfl, hstmt⟩ := first
    exact .cons hstmt ih

variable {α : Type} {inner : Inner}

theorem reads_innerExpression :
    Reads (inner.limit + 1) inner.expression (Expression .assignment) := reads_expression _

theorem reads_unlessNext (closing : Symbol) :
    Reads (inner.limit + 1) (unlessNext inner closing) OptionalExpression := by
  intro s value s' hlength hrun hclean
  obtain ⟨closed, t, hclosed, hrun⟩ := bind_eq_ok.mp hrun
  obtain ⟨rfl, -⟩ := check_eq_ok hclosed
  split at hrun
  · obtain ⟨rfl, rfl⟩ := pure_eq_ok.mp hrun
    exact ⟨[], rfl, .absent⟩
  · exact reads_innerExpression.map some (fun _ _ => .present) s value s' hlength hrun hclean

theorem reads_expressionStatement :
    Reads (inner.limit + 1) (expressionStatement inner) Evaluated := by
  refine (reads_innerExpression.closed .semicolon _ Stmt.expression).mono (Nat.le_refl _) ?_
  rintro used stmt ⟨tokens, semicolon, value, rfl, hgood, hk, rfl⟩
  exact .mk hgood hk

/-- A variable declaration is read from behind its keyword. -/
theorem reads_varDeclaration {keyword : Token} (hkeyword : keyword.kind = .symbol .kwVar) :
    Reads (inner.limit + 1) (varDeclaration inner) fun used => Variable (keyword :: used) := by
  intro s stmt s' hlength hrun hclean
  obtain ⟨name, t, hname, hrun⟩ := bind_eq_ok.mp hrun
  obtain ⟨token, rest, hrest, hkname, rfl, rfl⟩ := expectName_eq_ok hname
  rw [hrest, List.length_cons] at hlength
  obtain ⟨equals, rest', hrest', hkequals, hrun⟩ | ⟨-, hrun⟩ := accept_ite_eq_ok hrun
  · obtain ⟨initializer, t, hinitializer, hrun⟩ := bind_eq_ok.mp hrun
    obtain ⟨value, hvalue, rfl⟩ := map_eq_ok.mp hinitializer
    obtain ⟨semicolon, u, hsemicolon, hrun⟩ := bind_eq_ok.mp hrun
    obtain ⟨rest'', hrest'', hk, rfl⟩ := expect_eq_ok hsemicolon
    obtain ⟨rfl, rfl⟩ := pure_eq_ok.mp hrun
    rw [State.rest_read] at hrest'
    rw [hrest', List.length_cons] at hlength
    obtain ⟨used, hused, hgood⟩ := reads_innerExpression ((s.read token rest).read equals rest')
      value t (by rw [State.rest_read]; omega) hvalue hclean
    rw [State.rest_read] at hused
    exact ⟨token :: equals :: (used ++ [semicolon]), by simp [hrest, hrest', hused, hrest''],
      .initialized hkeyword hkname hkequals hgood hk⟩
  · obtain ⟨initializer, t, hinitializer, hrun⟩ := bind_eq_ok.mp hrun
    obtain ⟨rfl, rfl⟩ := pure_eq_ok.mp hinitializer
    obtain ⟨semicolon, u, hsemicolon, hrun⟩ := bind_eq_ok.mp hrun
    obtain ⟨rest', hrest', hk, rfl⟩ := expect_eq_ok hsemicolon
    obtain ⟨rfl, rfl⟩ := pure_eq_ok.mp hrun
    rw [State.rest_read] at hrest'
    exact ⟨[token, semicolon], by simp [hrest, hrest'], .bare hkeyword hkname hk⟩

theorem reads_forInitializer :
    Reads (inner.limit + 1) (forInitializer inner) Initializer := by
  intro s o s' hlength hrun hclean
  obtain ⟨semicolon, rest, hrest, hk, hrun⟩ | ⟨-, hrun⟩ := accept_ite_eq_ok hrun
  · obtain ⟨rfl, rfl⟩ := pure_eq_ok.mp hrun
    exact ⟨[semicolon], hrest, .absent hk⟩
  obtain ⟨keyword, rest, hrest, hk, hrun⟩ | ⟨-, hrun⟩ := accept_ite_eq_ok hrun
  · have hdeclared : Reads (inner.limit + 1) (do return some (← varDeclaration inner))
        fun used => Initializer (keyword :: used) :=
      (reads_varDeclaration hk).map some fun _ _ => .varDecl
    exact hdeclared.behind hrest (Nat.le_succ_of_le hlength) hrun hclean
  · exact reads_expressionStatement.map some (fun _ _ => .evaluated) s o s' hlength hrun hclean

/-- The loop of the parser is the tree of the grammar. -/
theorem forLoop_eq (initializer : Option Stmt) (condition increment : Option Expr) (body : Stmt) :
    forLoop initializer condition increment body =
      whileForm condition increment body initializer := by
  cases initializer <;> cases increment <;> rfl

theorem reads_superclass? (bound : Nat) : Reads bound superclass? Inherits := by
  intro s superclass s' hlength hrun hclean
  obtain ⟨less, rest, hrest, hk, hrun⟩ | ⟨-, hrun⟩ := accept_ite_eq_ok hrun
  · obtain ⟨name, t, hname, hrun⟩ := bind_eq_ok.mp hrun
    obtain ⟨token, rest', hrest', hkname, rfl, rfl⟩ := expectName_eq_ok hname
    obtain ⟨id, u, hid, hrun⟩ := bind_eq_ok.mp hrun
    obtain ⟨rfl, rfl⟩ := freshId_eq_ok.mp hid
    obtain ⟨rfl, rfl⟩ := pure_eq_ok.mp hrun
    rw [State.rest_read] at hrest'
    exact ⟨[less, token], by simp [hrest, hrest'], .present hk hkname⟩
  · obtain ⟨rfl, rfl⟩ := pure_eq_ok.mp hrun
    exact ⟨[], rfl, .absent⟩

theorem reads_parameter (bound : Nat) (what : String) :
    Reads bound (expectName what) Parameter := by
  intro s name s' hlength hrun hclean
  obtain ⟨token, rest, hrest, hk, rfl, rfl⟩ := expectName_eq_ok hrun
  exact ⟨[token], hrest, .mk hk⟩

/-- The statement is read from its keyword on if it is read from behind that. -/
theorem ReadsStatement.of_keyword {step : Parse Stmt} {s : State} {keyword : Token}
    {rest : List Token} (hrest : s.rest = keyword :: rest)
    (hstep : ReadsStatement inner.limit [keyword] step) (hlength : s.rest.length ≤ inner.limit + 1)
    {stmt : Stmt} {s' : State} (hrun : step (s.read keyword rest) = .ok stmt s')
    (hclean : s'.errors = #[]) :
    ∃ used isOpen, s.rest = used ++ s'.rest ∧ Statement true isOpen used stmt ∧
      (isOpen = true → NoElse s'.rest) := by
  rw [hrest, List.length_cons] at hlength
  obtain ⟨used, isOpen, hused, hgood, helse⟩ :=
    hstep (s.read keyword rest) stmt s' (Nat.le_of_succ_le_succ hlength) hrun hclean
  rw [State.rest_read] at hused
  exact ⟨keyword :: used, isOpen, by rw [hrest, hused]; rfl, hgood, helse⟩

theorem reads_printStatement {keyword : Token} (hkeyword : keyword.kind = .symbol .kwPrint) :
    ReadsStatement inner.limit [keyword] (printStatement inner) := by
  refine Reads.toStatement
    ((reads_innerExpression.closed .semicolon _ Stmt.print).mono (Nat.le_succ _) ?_)
  rintro used stmt ⟨tokens, semicolon, value, rfl, hgood, hk, rfl⟩
  exact .print hkeyword hgood hk

theorem reads_returnStatement {keyword : Token} (hkeyword : keyword.kind = .symbol .kwReturn) :
    ReadsStatement inner.limit [keyword] (returnStatement inner keyword) := by
  refine Reads.toStatement (((reads_unlessNext .semicolon).closed .semicolon _
    (Stmt.returnWith keyword.line)).mono (Nat.le_succ _) ?_)
  rintro used stmt ⟨tokens, semicolon, value, rfl, hgood, hk, rfl⟩
  exact .returnWith hkeyword hgood hk

/-- The condition in parentheses, and what is done behind it. -/
theorem reads_condition {what what' : String} {f : Expr → Parse α} {s s' : State} {a : α}
    (hlength : s.rest.length ≤ inner.limit + 1)
    (hrun : (do
      let _ ← expect .leftParen what
      let condition ← inner.expression
      let _ ← expect .rightParen what'
      f condition) s = .ok a s') :
    ∃ condition t, f condition t = .ok a s' ∧ t.rest.length < s.rest.length ∧
      (t.errors = #[] → ∃ opening tokens closing,
        s.rest = opening :: (tokens ++ closing :: t.rest) ∧
        opening.kind = .symbol .leftParen ∧ Expression .assignment tokens condition ∧
        closing.kind = .symbol .rightParen) := by
  obtain ⟨opening, t, hopening, hrun⟩ := bind_eq_ok.mp hrun
  obtain ⟨rest, hrest, hkopening, rfl⟩ := expect_eq_ok hopening
  obtain ⟨condition, t, hcondition, hrun⟩ := bind_eq_ok.mp hrun
  obtain ⟨closing, u, hclosing, hrun⟩ := bind_eq_ok.mp hrun
  obtain ⟨rest', hrest', hkclosing, rfl⟩ := expect_eq_ok hclosing
  have hst := (safe_innerExpression.ok hcondition).length_le
  rw [State.rest_read, hrest', List.length_cons] at hst
  rw [hrest, List.length_cons] at hlength ⊢
  refine ⟨condition, _, hrun, by rw [State.rest_read]; omega, fun hclean => ?_⟩
  obtain ⟨tokens, htokens, htest⟩ := reads_innerExpression (s.read opening rest) condition t
    (by rw [State.rest_read]; omega) hcondition hclean
  rw [State.rest_read] at htokens
  exact ⟨opening, tokens, closing, by simp [htokens, hrest'], hkopening, htest, hkclosing⟩

/-- A declaration that leaves no errors behind is not left out. -/
theorem reads_recovering {bound : Nat} {step : Parse Stmt} (hstep : Reads bound step (Declaration true)) :
    Reads bound (recovering step) Declared := by
  intro s o s' hlength hrun hclean
  have hrecord (error : SyntaxError) : Safe (do
      record error
      synchronize
      return none : Parse (Option Stmt)) :=
    (safe_record error).bind fun _ => safe_synchronize.bind fun _ => .pure _
  unfold recovering at hrun
  split at hrun
  · next stmt t hstmt =>
    cases hrun
    obtain ⟨used, hused, hgood⟩ := hstep s stmt s' hlength hstmt hclean
    exact ⟨used, hused, stmt, rfl, hgood⟩
  · next error t _ =>
    obtain ⟨_, u, hu, hrun⟩ := bind_eq_ok.mp hrun
    obtain rfl := record_eq_ok hu
    have hrest : Safe (do synchronize; return none : Parse (Option Stmt)) :=
      safe_synchronize.bind fun _ => .pure _
    exact absurd ((hrest.ok hrun).clean hclean) (by simp)
  · exact absurd hrun (by simp)

section
variable (h : inner.Reads)
include h

/-- A block is read from behind its opening brace. -/
theorem reads_block : Reads inner.limit (block inner) fun used body =>
    ∃ tokens closing, used = tokens ++ [closing] ∧ Many (Declaration true) tokens body ∧
      closing.kind = .symbol .rightBrace := by
  have hmany := reads_untilRightBrace h.declaration h.declarations inner.limit
  refine (hmany.closed .rightBrace _ List.reduceOption).mono (Nat.le_refl _) ?_
  rintro used body ⟨tokens, closing, stmts, rfl, hgood, hk, rfl⟩
  exact ⟨tokens, closing, rfl, many_reduceOption hgood, hk⟩

theorem reads_function (kind : String) :
    Reads (inner.limit + 1) (function inner kind) (Function true) := by
  intro s f s' hlength hrun hclean
  obtain ⟨name, t, hname, hrun⟩ := bind_eq_ok.mp hrun
  obtain ⟨token, rest, hrest, hkname, rfl, rfl⟩ := expectName_eq_ok hname
  obtain ⟨opening, t, hopening, hrun⟩ := bind_eq_ok.mp hrun
  obtain ⟨rest', hrest', hkopening, rfl⟩ := expect_eq_ok hopening
  obtain ⟨parameters, t, hparameters, hrun⟩ := bind_eq_ok.mp hrun
  obtain ⟨closing, u, hclosing, hrun⟩ := bind_eq_ok.mp hrun
  obtain ⟨rest'', hrest'', hkclosing, rfl⟩ := expect_eq_ok hclosing
  obtain ⟨left, u, hleft, hrun⟩ := bind_eq_ok.mp hrun
  obtain ⟨rest₃, hrest₃, hkleft, rfl⟩ := expect_eq_ok hleft
  obtain ⟨body, u, hbody, hrun⟩ := bind_eq_ok.mp hrun
  obtain ⟨rfl, rfl⟩ := pure_eq_ok.mp hrun
  rw [State.rest_read] at hrest' hrest₃
  rw [hrest, hrest', List.length_cons, List.length_cons] at hlength
  have hclean' := ((safe_block h.toSafe).ok hbody).clean hclean
  rw [State.errors_read, State.errors_read] at hclean'
  have ht := ((safe_listItems _ (safe_expectName _) _).ok hparameters).length_le
  rw [State.rest_read] at ht
  rw [hrest'', hrest₃, List.length_cons, List.length_cons] at ht
  obtain ⟨list, hlist, hitems⟩ := reads_listItems (safe_expectName _)
    (reads_parameter inner.limit _) _ (by rw [State.rest_read]; omega) hparameters hclean'
  rw [State.rest_read] at hlist
  obtain ⟨_, hused, tokens, right, rfl, hgood, hkright⟩ :=
    reads_block h _ body u (by rw [State.rest_read]; omega) hbody hclean
  rw [State.rest_read] at hused
  refine ⟨token :: opening :: (list ++ closing :: left :: (tokens ++ [right])), ?_,
    .mk hkname hkopening hitems hkclosing hkleft hgood hkright⟩
  simp [hrest, hrest', hlist, hrest'', hrest₃, hused]

/-- A class declaration is read from behind its keyword. -/
theorem reads_classDeclaration {keyword : Token} (hkeyword : keyword.kind = .symbol .kwClass) :
    Reads (inner.limit + 1) (classDeclaration inner) fun used =>
      Declaration true (keyword :: used) := by
  intro s stmt s' hlength hrun hclean
  obtain ⟨name, t, hname, hrun⟩ := bind_eq_ok.mp hrun
  obtain ⟨token, rest, hrest, hkname, rfl, rfl⟩ := expectName_eq_ok hname
  obtain ⟨superclass, t, hsuperclass, hrun⟩ := bind_eq_ok.mp hrun
  obtain ⟨opening, u, hopening, hrun⟩ := bind_eq_ok.mp hrun
  obtain ⟨rest', hrest', hkopening, rfl⟩ := expect_eq_ok hopening
  obtain ⟨methods, u, hmethods, hrun⟩ := bind_eq_ok.mp hrun
  obtain ⟨closing, v, hclosing, hrun⟩ := bind_eq_ok.mp hrun
  obtain ⟨rest'', hrest'', hkclosing, rfl⟩ := expect_eq_ok hclosing
  obtain ⟨rfl, rfl⟩ := pure_eq_ok.mp hrun
  have hfunctions := safe_untilRightBrace (safe_function h.toSafe "method") inner.limit
  have hclean' : t.errors = #[] := (hfunctions.ok hmethods).clean hclean
  have ht := (safe_superclass?.ok hsuperclass).length_le
  rw [State.rest_read] at ht
  rw [hrest, List.length_cons] at hlength
  obtain ⟨clause, hclause, hinherits⟩ :=
    reads_superclass? inner.limit _ superclass t (by rw [State.rest_read]; omega) hsuperclass hclean'
  rw [State.rest_read] at hclause
  rw [hrest', List.length_cons] at ht
  obtain ⟨tokens, hused, hgood⟩ := reads_untilRightBrace (safe_function h.toSafe "method")
    (reads_function h "method") inner.limit (t.read opening rest') methods u
    (by rw [State.rest_read]; omega) hmethods hclean
  rw [State.rest_read] at hused
  refine ⟨token :: (clause ++ opening :: (tokens ++ [closing])), ?_,
    .classDecl hkeyword hkname hinherits hkopening hgood hkclosing⟩
  simp [hrest, hclause, hrest', hused, hrest'']

theorem reads_forStatement {keyword : Token} (hkeyword : keyword.kind = .symbol .kwFor) :
    ReadsStatement inner.limit [keyword] (forStatement inner) := by
  intro s stmt s' hlength hrun hclean
  obtain ⟨opening, t, hopening, hrun⟩ := bind_eq_ok.mp hrun
  obtain ⟨rest, hrest, hkopening, rfl⟩ := expect_eq_ok hopening
  obtain ⟨initializer, t, hinitializer, hrun⟩ := bind_eq_ok.mp hrun
  obtain ⟨condition, u, hcondition, hrun⟩ := bind_eq_ok.mp hrun
  obtain ⟨semicolon, v, hsemicolon, hrun⟩ := bind_eq_ok.mp hrun
  obtain ⟨rest', hrest', hksemicolon, rfl⟩ := expect_eq_ok hsemicolon
  obtain ⟨increment, v, hincrement, hrun⟩ := bind_eq_ok.mp hrun
  obtain ⟨closing, w, hclosing, hrun⟩ := bind_eq_ok.mp hrun
  obtain ⟨rest'', hrest'', hkclosing, rfl⟩ := expect_eq_ok hclosing
  obtain ⟨body, w, hbody, hrun⟩ := bind_eq_ok.mp hrun
  obtain ⟨rfl, rfl⟩ := pure_eq_ok.mp hrun
  have hv : v.errors = #[] := (h.statement.ok hbody).clean hclean
  have hu : u.errors = #[] := ((safe_unlessNext _).ok hincrement).clean hv
  have ht : t.errors = #[] := ((safe_unlessNext _).ok hcondition).clean hu
  have hst := (safe_forInitializer.ok hinitializer).length_le
  have htu := ((safe_unlessNext _).ok hcondition).length_le
  have huv := ((safe_unlessNext _).ok hincrement).length_le
  rw [State.rest_read] at hst huv
  rw [hrest, List.length_cons] at hlength
  rw [hrest', List.length_cons] at htu
  rw [hrest'', List.length_cons] at huv
  obtain ⟨starts, hstarts, hstart⟩ := reads_forInitializer (s.read opening rest) initializer t
    (by rw [State.rest_read]; omega) hinitializer ht
  obtain ⟨tests, htests, htest⟩ := reads_unlessNext .semicolon t condition u (by omega) hcondition hu
  obtain ⟨steps, hsteps, hstep⟩ := reads_unlessNext .rightParen (u.read semicolon rest') increment v
    (by rw [State.rest_read]; omega) hincrement hv
  obtain ⟨tokens, isOpen, hused, hgood, helse⟩ := h.statements (v.read closing rest'') body w
    (by rw [State.rest_read]; omega) hbody hclean
  rw [State.rest_read] at hstarts hsteps hused
  rw [forLoop_eq]
  refine ⟨opening :: (starts ++ (tests ++ semicolon :: (steps ++ closing :: tokens))), isOpen, ?_,
    .forLoop hkeyword hkopening hstart htest hksemicolon hstep hkclosing hgood, helse⟩
  simp [hrest, hstarts, htests, hrest', hsteps, hrest'', hused]

theorem reads_ifStatement {keyword : Token} (hkeyword : keyword.kind = .symbol .kwIf) :
    ReadsStatement inner.limit [keyword] (ifStatement inner) := by
  intro s stmt s' hlength hrun hclean
  obtain ⟨condition, t, hrun, hst, hcondition⟩ := reads_condition (Nat.le_succ_of_le hlength) hrun
  obtain ⟨thenBranch, u, hthen, hrun⟩ := bind_eq_ok.mp hrun
  have htu := (h.statement.ok hthen).length_le
  -- the condition and the first branch are read in both cases
  have hparts (hu : u.errors = #[]) : ∃ opening tokens closing thens isOpen,
      s.rest = opening :: (tokens ++ closing :: (thens ++ u.rest)) ∧
      opening.kind = .symbol .leftParen ∧ Expression .assignment tokens condition ∧
      closing.kind = .symbol .rightParen ∧ Statement true isOpen thens thenBranch ∧
      (isOpen = true → NoElse u.rest) := by
    obtain ⟨opening, tokens, closing, hrest, hkopening, htest, hkclosing⟩ :=
      hcondition ((h.statement.ok hthen).clean hu)
    obtain ⟨thens, isOpen, hused, hgood, helse⟩ := h.statements t thenBranch u (by omega) hthen hu
    exact ⟨opening, tokens, closing, thens, isOpen, by rw [hrest, hused], hkopening, htest,
      hkclosing, hgood, helse⟩
  obtain ⟨otherwise, rest, hrest, hkelse, hrun⟩ | ⟨⟨token, rest, hrest, hkelse⟩, hrun⟩ :=
    accept_ite_eq_ok hrun
  · obtain ⟨other, w, hother, hrun⟩ := bind_eq_ok.mp hrun
    obtain ⟨elseBranch, helse, rfl⟩ := map_eq_ok.mp hother
    obtain ⟨rfl, rfl⟩ := pure_eq_ok.mp hrun
    rw [hrest, List.length_cons] at htu
    obtain ⟨opening, tokens, closing, thens, thenOpen, hparts, hkopening, htest, hkclosing, hthen,
      hclosed⟩ := hparts ((h.statement.ok helse).clean hclean)
    obtain ⟨elses, isOpen, hused, hgood, hnoElse⟩ := h.statements (u.read otherwise rest)
      elseBranch w (by rw [State.rest_read]; omega) helse hclean
    rw [State.rest_read] at hused
    have hnearest : true = true → thenOpen = false := by
      intro _
      rw [← Bool.not_eq_true]
      exact fun hopen => hclosed hopen otherwise rest hrest hkelse
    refine ⟨opening :: (tokens ++ closing :: (thens ++ otherwise :: elses)), isOpen, ?_,
      .ifElse hkeyword hkopening htest hkclosing hthen hnearest hkelse hgood, hnoElse⟩
    simp [hparts, hrest, hused]
  · obtain ⟨other, w, hother, hrun⟩ := bind_eq_ok.mp hrun
    obtain ⟨rfl, rfl⟩ := pure_eq_ok.mp hother
    obtain ⟨rfl, rfl⟩ := pure_eq_ok.mp hrun
    obtain ⟨opening, tokens, closing, thens, thenOpen, hparts, hkopening, htest, hkclosing, hthen,
      hclosed⟩ := hparts hclean
    refine ⟨opening :: (tokens ++ closing :: thens), true, by simp [hparts],
      .ifThen hkeyword hkopening htest hkclosing hthen, fun _ next others hnext => ?_⟩
    rw [hrest] at hnext
    cases hnext
    exact hkelse

theorem reads_whileStatement {keyword : Token} (hkeyword : keyword.kind = .symbol .kwWhile) :
    ReadsStatement inner.limit [keyword] (whileStatement inner) := by
  intro s stmt s' hlength hrun hclean
  obtain ⟨condition, t, hrun, hst, hcondition⟩ := reads_condition (Nat.le_succ_of_le hlength) hrun
  obtain ⟨body, u, hbody, hrun⟩ := bind_eq_ok.mp hrun
  obtain ⟨rfl, rfl⟩ := pure_eq_ok.mp hrun
  obtain ⟨opening, tokens, closing, hrest, hkopening, htest, hkclosing⟩ :=
    hcondition ((h.statement.ok hbody).clean hclean)
  obtain ⟨used, isOpen, hused, hgood, helse⟩ := h.statements t body u (by omega) hbody hclean
  exact ⟨opening :: (tokens ++ closing :: used), isOpen, by simp [hrest, hused],
    .whileLoop hkeyword hkopening htest hkclosing hgood, helse⟩

theorem reads_blockStatement {opening : Token} (hopening : opening.kind = .symbol .leftBrace) :
    ReadsStatement inner.limit [opening] (Stmt.block <$> block inner) := by
  refine Reads.toStatement fun s stmt s' hlength hrun hclean => ?_
  obtain ⟨body, hbody, rfl⟩ := map_eq_ok.mp hrun
  obtain ⟨_, hused, tokens, closing, rfl, hgood, hk⟩ := reads_block h s body s' hlength hbody hclean
  exact ⟨tokens ++ [closing], hused, .block hopening hgood hk⟩

theorem reads_anyStatement : ReadsStatement (inner.limit + 1) [] (anyStatement inner) := by
  intro s stmt s' hlength hrun hclean
  obtain ⟨keyword, rest, hrest, hk, hrun⟩ | ⟨-, hrun⟩ := accept_ite_eq_ok hrun
  · exact (reads_forStatement h hk).of_keyword hrest hlength hrun hclean
  obtain ⟨keyword, rest, hrest, hk, hrun⟩ | ⟨-, hrun⟩ := accept_ite_eq_ok hrun
  · exact (reads_ifStatement h hk).of_keyword hrest hlength hrun hclean
  obtain ⟨keyword, rest, hrest, hk, hrun⟩ | ⟨-, hrun⟩ := accept_ite_eq_ok hrun
  · exact (reads_printStatement hk).of_keyword hrest hlength hrun hclean
  obtain ⟨found, t, hfound, hrun⟩ := bind_eq_ok.mp hrun
  cases found with
  | some keyword =>
    obtain ⟨token, rest, hrest, hk, rfl⟩ := accept?_some hfound
    obtain ⟨hk, rfl⟩ := only_eq_some.mp hk
    exact (reads_returnStatement hk).of_keyword hrest hlength hrun hclean
  | none =>
  obtain ⟨rfl, -⟩ := accept?_none hfound
  obtain ⟨keyword, rest, hrest, hk, hrun⟩ | ⟨-, hrun⟩ := accept_ite_eq_ok hrun
  · exact (reads_whileStatement h hk).of_keyword hrest hlength hrun hclean
  obtain ⟨opening, rest, hrest, hk, hrun⟩ | ⟨-, hrun⟩ := accept_ite_eq_ok hrun
  · exact (reads_blockStatement h hk).of_keyword hrest hlength hrun hclean
  obtain ⟨used, hused, hgood⟩ := reads_expressionStatement s stmt s' hlength hrun hclean
  exact ⟨used, false, hused, .evaluated hgood, by simp⟩

theorem reads_anyDeclaration : Reads (inner.limit + 1) (anyDeclaration inner) Declared := by
  refine reads_recovering fun s stmt s' hlength hrun hclean => ?_
  have hlength' := Nat.le_succ_of_le hlength
  obtain ⟨keyword, rest, hrest, hk, hrun⟩ | ⟨-, hrun⟩ := accept_ite_eq_ok hrun
  · exact (reads_classDeclaration h hk).behind hrest hlength' hrun hclean
  obtain ⟨keyword, rest, hrest, hk, hrun⟩ | ⟨-, hrun⟩ := accept_ite_eq_ok hrun
  · have hdeclared := (reads_function h "function").map Stmt.funDecl
      fun _ _ => Declaration.funDecl hk
    exact hdeclared.behind hrest hlength' hrun hclean
  obtain ⟨keyword, rest, hrest, hk, hrun⟩ | ⟨-, hrun⟩ := accept_ite_eq_ok hrun
  · obtain ⟨used, hused, hgood⟩ := (reads_varDeclaration hk).behind hrest hlength' hrun hclean
    exact ⟨used, hused, .varDecl hgood⟩
  obtain ⟨used, isOpen, hused, hgood, -⟩ := reads_anyStatement h s stmt s' hlength hrun hclean
  exact ⟨used, hused, .statement hgood⟩

end

theorem reads_innerAt (depth : Nat) : (innerAt depth).Reads := by
  induction depth with
  | zero =>
    refine ⟨safe_innerAt 0, fun s stmt s' _ hrun => absurd hrun fail_ne_ok, ?_⟩
    have hfail : Reads 0 (fail (.missing "expression")) (Declaration true) :=
      fun s stmt s' _ hrun => absurd hrun fail_ne_ok
    exact reads_recovering hfail
  | succ depth ih => exact ⟨safe_innerAt (depth + 1), reads_anyStatement ih, reads_anyDeclaration ih⟩

/-- The declarations of a program are read up to the end of the input. -/
theorem reads_declarations (depth limit : Nat) {s : State} {statements : List Stmt} {s' : State}
    (hdepth : s.rest.length ≤ depth) (hlimit : s.rest.length < limit)
    (hrun : declarations depth limit s = .ok statements s') (hclean : s'.errors = #[]) :
    ∃ used last rest, s.rest = used ++ last :: rest ∧ last.kind.isEnd = true ∧
      Grammar.Program true used statements := by
  induction limit generalizing s statements with
  | zero => omega
  | succ limit ih =>
    obtain ⟨ended, t, hended, hrun⟩ := bind_eq_ok.mp hrun
    obtain ⟨rfl, token, rest, hrest, hend⟩ := atEnd_eq_ok hended
    split at hrun
    · next hyes =>
      obtain ⟨rfl, rfl⟩ := pure_eq_ok.mp hrun
      exact ⟨[], token, rest, hrest, hend.trans hyes, .nil⟩
    · obtain ⟨first, t, hfirst, hrun⟩ := bind_eq_ok.mp hrun
      obtain ⟨others, u, hothers, hrun⟩ := bind_eq_ok.mp hrun
      obtain ⟨rfl, rfl⟩ := pure_eq_ok.mp hrun
      have hclean' := ((safe_declarations depth limit).ok hothers).clean hclean
      obtain ⟨used, hused, stmt, rfl, hstmt⟩ :=
        (reads_innerAt depth).declarations s first t hdepth hfirst hclean'
      obtain ⟨head, tail, rfl, -⟩ := hstmt.starts
      rw [hused, List.length_append, List.length_cons] at hdepth hlimit
      obtain ⟨used', last, rest', hused', hlast, hgood⟩ := ih (by omega) (by omega) hothers
      exact ⟨head :: tail ++ used', last, rest', by rw [hused, hused', List.append_assoc], hlast,
        .cons hstmt hgood⟩

end Lox.Parser
