import Lox.Proofs.Parser.Steps

/-!
# Every parsing step is safe

The steps for single tokens are safe, and so is everything that is put together from them. The one
step that looks back is the one that goes on after an error; it stands behind a token unless there
is one left to skip. So parsing tokens that end with the end of the input is no fault.
-/
namespace Lox
namespace Parser
variable {α : Type}

theorem EndsInput.ne_nil {tokens : List Token} (h : EndsInput tokens) : tokens ≠ [] := by
  obtain ⟨front, last, rfl, -, -⟩ := h
  simp

theorem EndsInput.tail {token : Token} {rest : List Token} (h : EndsInput (token :: rest))
    (hend : token.kind.isEnd = false) : EndsInput rest := by
  obtain ⟨front, last, heq, hlast, hfront⟩ := h
  cases front with
  | nil =>
    simp only [List.nil_append, List.cons.injEq] at heq
    rw [heq.1, hlast] at hend
    exact absurd hend (by decide)
  | cons first front =>
    simp only [List.cons_append, List.cons.injEq] at heq
    exact ⟨front, last, heq.2, hlast, fun t ht => hfront t (List.mem_cons_of_mem _ ht)⟩

/-- The end of the input is never read, by any step. -/
def Skips (f : Token → Option α) : Prop := ∀ token a, f token = some a → token.kind.isEnd = false

theorem skips_only (symbol : Symbol) : Skips (only symbol) := by
  intro token a h
  unfold only at h
  split at h
  · next hk => rw [hk]; rfl
  · exact absurd h (by simp)

theorem skips_name? : Skips name? := by
  intro token a h
  unfold name? at h
  split at h
  · next hk => rw [hk]; rfl
  · exact absurd h (by simp)

theorem skips_literal? : Skips literal? := by
  intro token a h
  unfold literal? at h
  split at h
  case h_6 => exact absurd h (by simp)
  all_goals next hk => rw [hk]; rfl

theorem skips_symbol (f : Token → Symbol → Option α) :
    Skips fun token => (symbol? token).bind (f token) := by
  intro token a h
  simp only [symbol?] at h
  split at h
  · next hk => rw [hk]; rfl
  · exact absurd h (by simp)

theorem skips_unary? : Skips unary? := skips_symbol _

theorem skips_binary? (ops : Symbol → Option BinaryOp) : Skips (binary? ops) := skips_symbol _

theorem skips_logical? (symbol : Symbol) (op : LogicalOp) : Skips (logical? symbol op) := by
  intro token a h
  unfold logical? at h
  obtain ⟨t, ht, -⟩ := Option.map_eq_some_iff.mp h
  exact skips_only symbol token t ht

theorem safe_peek : Safe peek := by
  intro s
  unfold peek
  cases h : s.rest with
  | nil => exact fun hr => hr.ends.ne_nil h
  | cons token rest => exact Follows.refl s

/-- Reading one token. -/
theorem follows_read {s : State} {token : Token} {rest : List Token} (h : s.rest = token :: rest)
    (hend : token.kind.isEnd = false) :
    Follows s { s with rest, previous? := some token } := by
  refine ⟨⟨[token], h⟩, ⟨[], by simp⟩, Nat.le_refl _, ?_⟩
  intro hr
  exact ⟨EndsInput.tail (h ▸ hr.ends) hend, .inl rfl⟩

theorem safe_accept? {f : Token → Option α} (hf : Skips f) : Safe (accept? f) := by
  intro s
  unfold accept?
  cases h : s.rest with
  | nil => exact fun hr => hr.ends.ne_nil h
  | cons token rest =>
    cases ha : f token with
    | some a =>
      simp only [ha]
      exact follows_read h (hf token a ha)
    | none =>
      simp only [ha]
      exact Follows.refl s

theorem safe_accept (symbol : Symbol) : Safe (accept symbol) :=
  (safe_accept? (skips_only symbol)).bind fun _ => .pure _

theorem safe_check (symbol : Symbol) : Safe (check symbol) := safe_peek.bind fun _ => .pure _

theorem safe_atEnd : Safe atEnd := safe_peek.bind fun _ => .pure _

theorem fail_eq {s : State} {token : Token} {rest : List Token} (h : s.rest = token :: rest)
    (cause : SyntaxError.Cause) :
    (fail cause : Parse α) s = .error (.error ⟨cause, token⟩) s := by
  have hpeek : peek s = .ok token s := peek_eq_ok.mpr ⟨rfl, rest, h⟩
  rw [fail, bind_of_ok hpeek]
  rfl

theorem safe_fail (cause : SyntaxError.Cause) : Safe (fail cause : Parse α) := by
  intro s
  cases h : s.rest with
  | nil =>
    have hfault : (fail cause : Parse α) s = .error (.fault .pastLastToken) s := by
      simp only [fail, peek, bind, EStateM.bind, h]
    rw [hfault]
    exact fun hr => hr.ends.ne_nil h
  | cons token rest =>
    rw [fail_eq h]
    exact ⟨Follows.refl s, by rw [h]; rfl⟩

theorem safe_record (error : SyntaxError) : Safe (record error) := fun s =>
  ⟨⟨[], rfl⟩, ⟨[error], by simp⟩, Nat.le_refl _, fun h => ⟨h.ends, h.behind⟩⟩

theorem safe_require {f : Token → Option α} (hf : Skips f) (what : String) :
    Safe (require f what) := by
  refine (safe_accept? hf).bind fun a => ?_
  cases a with
  | some a => exact .pure a
  | none => exact safe_fail _

theorem safe_expect (symbol : Symbol) (what : String) : Safe (expect symbol what) :=
  safe_require (skips_only symbol) what

theorem safe_expectName (what : String) : Safe (expectName what) := safe_require skips_name? what

theorem safe_freshId : Safe freshId := fun s =>
  ⟨⟨[], rfl⟩, ⟨[], by simp⟩, Nat.le_succ _, fun h => ⟨h.ends, h.behind⟩⟩

theorem safe_commaSeparated {item : Parse α} (tooMany : SyntaxError.Cause) (hitem : Safe item)
    (limit count : Nat) : Safe (commaSeparated tooMany item limit count) := by
  induction limit generalizing count with
  | zero => exact .pure _
  | succ limit ih =>
    unfold commaSeparated
    have hrest : Safe (do
        let first ← item
        if ← accept .comma then
          return first :: (← commaSeparated tooMany item limit (count + 1))
        else
          return [first]) := by
      refine hitem.bind fun first => (safe_accept .comma).bind fun more => .ite _ ?_ (.pure _)
      exact (ih (count + 1)).bind fun _ => .pure _
    refine .ite _ ?_ hrest
    exact safe_peek.bind fun token => (safe_record _).bind fun _ => hrest

theorem safe_listItems {item : Parse α} (tooMany : SyntaxError.Cause) (hitem : Safe item)
    (limit : Nat) : Safe (listItems tooMany item limit) :=
  (safe_check .rightParen).bind fun _ => .ite _ (.pure _) (safe_commaSeparated tooMany hitem limit 0)

theorem safe_untilRightBrace {item : Parse α} (hitem : Safe item) (limit : Nat) :
    Safe (untilRightBrace item limit) := by
  induction limit with
  | zero => exact .pure _
  | succ limit ih =>
    refine (safe_check .rightBrace).bind fun _ => safe_atEnd.bind fun _ => .ite _ (.pure _) ?_
    exact hitem.bind fun _ => ih.bind fun _ => .pure _

theorem safe_superclassMethod (keyword : Token) : Safe (superclassMethod keyword) :=
  (safe_expect .dot _).bind fun _ => (safe_expectName _).bind fun _ => safe_freshId.bind fun _ =>
    .pure _

section
variable {nested : Parse Expr} (hnested : Safe nested)
include hnested

theorem safe_primary : Safe (primary nested) := by
  unfold primary
  refine (safe_accept? skips_literal?).bind fun value => ?_
  cases value with
  | some value => exact .pure _
  | none =>
  refine (safe_accept? (skips_only _)).bind fun keyword => ?_
  cases keyword with
  | some keyword => exact safe_superclassMethod keyword
  | none =>
  refine (safe_accept? (skips_only _)).bind fun keyword => ?_
  cases keyword with
  | some keyword => exact safe_freshId.bind fun _ => .pure _
  | none =>
  refine (safe_accept? skips_name?).bind fun name => ?_
  cases name with
  | some name => exact safe_freshId.bind fun _ => .pure _
  | none =>
  refine (safe_accept _).bind fun paren => .ite _ ?_ (safe_fail _)
  exact hnested.bind fun _ => (safe_expect _ _).bind fun _ => .pure _

theorem safe_finishCall (limit : Nat) (callee : Expr) : Safe (finishCall limit nested callee) :=
  (safe_listItems _ hnested limit).bind fun _ => (safe_expect _ _).bind fun _ => .pure _

theorem safe_callSuffixes (bound limit : Nat) (callee : Expr) :
    Safe (callSuffixes bound nested limit callee) := by
  induction limit generalizing callee with
  | zero => exact .pure _
  | succ limit ih =>
    refine (safe_accept _).bind fun paren => .ite _ ?_ ?_
    · exact (safe_finishCall hnested bound callee).bind fun _ => ih _
    · refine (safe_accept _).bind fun dot => .ite _ ?_ (.pure _)
      exact (safe_expectName _).bind fun name => ih _

theorem safe_call (limit : Nat) : Safe (call limit nested) :=
  (safe_primary hnested).bind fun callee => safe_callSuffixes hnested limit limit callee

end

theorem safe_unary {operand : Parse Expr} (hoperand : Safe operand) (limit : Nat) :
    Safe (unary operand limit) := by
  induction limit with
  | zero => exact hoperand
  | succ limit ih =>
    refine (safe_accept? skips_unary?).bind fun build => ?_
    cases build with
    | some build => exact ih.bind fun _ => .pure _
    | none => exact hoperand

section
variable {operator? : Token → Option Combine} {operand : Parse Expr}
variable (hoperator : Skips operator?) (hoperand : Safe operand)
include hoperator hoperand

theorem safe_operations (limit : Nat) (left : Expr) :
    Safe (operations operator? operand limit left) := by
  induction limit generalizing left with
  | zero => exact .pure _
  | succ limit ih =>
    refine (safe_accept? hoperator).bind fun combine => ?_
    cases combine with
    | some combine => exact hoperand.bind fun right => ih _
    | none => exact .pure _

theorem safe_leftAssociative (limit : Nat) : Safe (leftAssociative operator? operand limit) :=
  hoperand.bind fun left => safe_operations hoperator hoperand limit left

end

section
variable {nested : Parse Expr} (hnested : Safe nested) (limit : Nat)
include hnested

theorem safe_factor : Safe (factor limit nested) :=
  safe_leftAssociative (skips_binary? _) (safe_unary (safe_call hnested limit) limit) limit

theorem safe_term : Safe (term limit nested) :=
  safe_leftAssociative (skips_binary? _) (safe_factor hnested limit) limit

theorem safe_comparison : Safe (comparison limit nested) :=
  safe_leftAssociative (skips_binary? _) (safe_term hnested limit) limit

theorem safe_equality : Safe (equality limit nested) :=
  safe_leftAssociative (skips_binary? _) (safe_comparison hnested limit) limit

theorem safe_conjunction : Safe (conjunction limit nested) :=
  safe_leftAssociative (skips_logical? _ _) (safe_equality hnested limit) limit

theorem safe_disjunction : Safe (disjunction limit nested) :=
  safe_leftAssociative (skips_logical? _ _) (safe_conjunction hnested limit) limit

end

theorem safe_assignTo (target : Expr) (equals : Token) (value : Expr) :
    Safe (assignTo target equals value) := by
  unfold assignTo
  split
  · exact safe_freshId.bind fun _ => .pure _
  · exact .pure _
  · exact (safe_record _).bind fun _ => .pure _

theorem safe_assignment {nested : Parse Expr} (hnested : Safe nested) (limit : Nat) :
    Safe (assignment limit nested) := by
  refine (safe_disjunction hnested limit).bind fun target => ?_
  refine (safe_accept? (skips_only _)).bind fun equals => ?_
  cases equals with
  | some equals => exact hnested.bind fun value => safe_assignTo target equals value
  | none => exact .pure _

theorem safe_expression (depth : Nat) : Safe (expression depth) := by
  induction depth with
  | zero => exact safe_fail _
  | succ depth ih => exact safe_assignment ih depth

theorem resume_eq {previous token : Token} {tokens rest : List Token}
    (h : resume previous tokens = some (token, rest)) :
    (∃ used, tokens = used ++ rest) ∧ (EndsInput tokens → EndsInput rest) := by
  induction tokens generalizing previous with
  | nil => exact absurd h (by simp [resume])
  | cons first tokens ih =>
    simp only [resume] at h
    split at h
    · simp only [Option.some.injEq, Prod.mk.injEq] at h
      obtain ⟨-, rfl⟩ := h
      exact ⟨⟨[], rfl⟩, id⟩
    · next hstop =>
      obtain ⟨⟨used, hused⟩, hends⟩ := ih h
      simp only [Bool.or_eq_true, not_or, Bool.not_eq_true] at hstop
      exact ⟨⟨first :: used, by rw [hused]; rfl⟩, fun he => hends (he.tail hstop.1.1)⟩

/-- There is a place to go on as long as the end of the input is still to come. -/
theorem resume_isSome {previous : Token} {tokens : List Token} (h : EndsInput tokens) :
    (resume previous tokens).isSome = true := by
  induction tokens generalizing previous with
  | nil => exact absurd rfl h.ne_nil
  | cons first tokens ih =>
    simp only [resume]
    split
    · rfl
    · next hstop =>
      simp only [Bool.or_eq_true, not_or, Bool.not_eq_true] at hstop
      exact ih (h.tail hstop.1.1)

theorem safe_synchronize : Safe synchronize := by
  intro s
  unfold synchronize
  cases h : s.rest with
  | nil => exact fun hr => hr.ends.ne_nil h
  | cons token rest =>
    by_cases hend : token.kind.isEnd = true
    · simp only [hend, ↓reduceIte]
      cases hp : s.previous? with
      | some previous => exact Follows.refl s
      | none =>
        intro hr
        obtain hbehind | ⟨first, tail, hrest, hfirst⟩ := hr.behind
        · rw [hp] at hbehind
          exact absurd hbehind (by decide)
        · rw [h, List.cons.injEq] at hrest
          rw [hrest.1, hfirst] at hend
          exact absurd hend (by decide)
    · simp only [hend, Bool.false_eq_true, ↓reduceIte]
      simp only [Bool.not_eq_true] at hend
      cases hresume : resume token rest with
      | some result =>
        obtain ⟨previous, tail⟩ := result
        obtain ⟨⟨used, hused⟩, hends⟩ := resume_eq hresume
        refine ⟨⟨token :: used, by rw [h, hused]; rfl⟩, ⟨[], by simp⟩, Nat.le_refl _, ?_⟩
        intro hr
        exact ⟨hends (EndsInput.tail (h ▸ hr.ends) hend), .inl rfl⟩
      | none =>
        intro hr
        have hsome := @resume_isSome token rest (EndsInput.tail (h ▸ hr.ends) hend)
        rw [hresume] at hsome
        exact absurd hsome (by decide)

theorem safe_recovering {step : Parse α} (h : Safe step) : Safe (recovering step) := by
  intro s
  unfold recovering
  cases hs : step s with
  | ok a t => exact h.ok hs
  | error stop t =>
    cases stop with
    | error error =>
      have hst := h.error hs
      have hgo := ((safe_record error).bind fun _ => safe_synchronize.bind fun _ =>
        Safe.pure (none : Option α)) t
      simp only
      split
      · next b u hu =>
        rw [hu] at hgo
        exact hst.trans hgo
      · next e u hu =>
        rw [hu] at hgo
        exact ⟨hst.trans hgo.1, hgo.2⟩
      · next f u hu =>
        rw [hu] at hgo
        exact fun hr => hgo (hst.ready hr)
    | fault fault => exact h.fault hs

/-- The parts of a statement are read by safe steps. -/
structure Inner.Safe (inner : Inner) : Prop where
  statement : Parser.Safe inner.statement
  declaration : Parser.Safe inner.declaration

section
variable {inner : Inner} (h : inner.Safe)

theorem safe_innerExpression : Safe inner.expression := safe_expression _

include h

theorem safe_block : Safe (block inner) :=
  (safe_untilRightBrace h.declaration _).bind fun _ => (safe_expect _ _).bind fun _ => .pure _

theorem safe_function (kind : String) : Safe (function inner kind) :=
  (safe_expectName _).bind fun _ => (safe_expect _ _).bind fun _ =>
    (safe_listItems _ (safe_expectName _) _).bind fun _ => (safe_expect _ _).bind fun _ =>
      (safe_expect _ _).bind fun _ => (safe_block h).bind fun _ => .pure _

end

theorem safe_superclass? : Safe superclass? :=
  (safe_accept _).bind fun _ =>
    .ite _ ((safe_expectName _).bind fun _ => safe_freshId.bind fun _ => .pure _) (.pure _)

section
variable {inner : Inner} (h : inner.Safe)
include h

theorem safe_classDeclaration : Safe (classDeclaration inner) :=
  (safe_expectName _).bind fun _ => safe_superclass?.bind fun _ => (safe_expect _ _).bind fun _ =>
    (safe_untilRightBrace (safe_function h _) _).bind fun _ => (safe_expect _ _).bind fun _ =>
      .pure _

omit h in
theorem safe_varDeclaration : Safe (varDeclaration inner) := by
  refine (safe_expectName _).bind fun name => (safe_accept _).bind fun equal => ?_
  have hrest (initializer : Option Expr) : Safe (do
      let _ ← expect .semicolon "';' after variable declaration"
      return Stmt.varDecl name initializer) := (safe_expect _ _).bind fun _ => .pure _
  exact .ite _ ((safe_innerExpression.map some).bind hrest) ((Safe.pure none).bind hrest)

omit h in
theorem safe_expressionStatement : Safe (expressionStatement inner) :=
  safe_innerExpression.bind fun _ => (safe_expect _ _).bind fun _ => .pure _

omit h in
theorem safe_forInitializer : Safe (forInitializer inner) :=
  (safe_accept _).bind fun _ => .ite _ (.pure _) <| (safe_accept _).bind fun _ =>
    .ite _ (safe_varDeclaration.bind fun _ => .pure _)
      (safe_expressionStatement.bind fun _ => .pure _)

omit h in
theorem safe_unlessNext (closing : Symbol) : Safe (unlessNext inner closing) :=
  (safe_check _).bind fun _ => .ite _ (.pure _) (safe_innerExpression.bind fun _ => .pure _)

theorem safe_forStatement : Safe (forStatement inner) :=
  (safe_expect _ _).bind fun _ => safe_forInitializer.bind fun _ =>
    (safe_unlessNext _).bind fun _ => (safe_expect _ _).bind fun _ =>
      (safe_unlessNext _).bind fun _ => (safe_expect _ _).bind fun _ =>
        h.statement.bind fun _ => .pure _

theorem safe_ifStatement : Safe (ifStatement inner) := by
  refine (safe_expect _ _).bind fun _ => safe_innerExpression.bind fun condition =>
    (safe_expect _ _).bind fun _ => h.statement.bind fun thenBranch => (safe_accept _).bind fun _ => ?_
  exact .ite _ ((h.statement.map some).bind fun _ => .pure _) ((Safe.pure none).bind fun _ => .pure _)

omit h in
theorem safe_printStatement : Safe (printStatement inner) :=
  safe_innerExpression.bind fun _ => (safe_expect _ _).bind fun _ => .pure _

omit h in
theorem safe_returnStatement (keyword : Token) : Safe (returnStatement inner keyword) :=
  (safe_unlessNext _).bind fun _ => (safe_expect _ _).bind fun _ => .pure _

theorem safe_whileStatement : Safe (whileStatement inner) :=
  (safe_expect _ _).bind fun _ => safe_innerExpression.bind fun _ => (safe_expect _ _).bind fun _ =>
    h.statement.bind fun _ => .pure _

theorem safe_anyStatement : Safe (anyStatement inner) := by
  refine (safe_accept _).bind fun _ => .ite _ (safe_forStatement h) ?_
  refine (safe_accept _).bind fun _ => .ite _ (safe_ifStatement h) ?_
  refine (safe_accept _).bind fun _ => .ite _ safe_printStatement ?_
  refine (safe_accept? (skips_only _)).bind fun keyword => ?_
  cases keyword with
  | some keyword => exact safe_returnStatement keyword
  | none =>
  refine (safe_accept _).bind fun _ => .ite _ (safe_whileStatement h) ?_
  refine (safe_accept _).bind fun _ => .ite _ ?_ safe_expressionStatement
  exact (safe_block h).bind fun _ => .pure _

theorem safe_anyDeclaration : Safe (anyDeclaration inner) := by
  refine safe_recovering ?_
  refine (safe_accept _).bind fun _ => .ite _ (safe_classDeclaration h) ?_
  refine (safe_accept _).bind fun _ => .ite _ ((safe_function h _).bind fun _ => .pure _) ?_
  exact (safe_accept _).bind fun _ => .ite _ safe_varDeclaration (safe_anyStatement h)

end

/-- The steps for statements and declarations up to a depth. -/
def innerAt (depth : Nat) : Inner := ⟨depth, statement depth, declaration depth⟩

theorem safe_innerAt (depth : Nat) : (innerAt depth).Safe := by
  induction depth with
  | zero => exact ⟨safe_fail _, safe_recovering (safe_fail _)⟩
  | succ depth ih => exact ⟨safe_anyStatement ih, safe_anyDeclaration ih⟩

theorem safe_declarations (depth limit : Nat) : Safe (declarations depth limit) := by
  induction limit with
  | zero => exact .pure _
  | succ limit ih =>
    refine safe_atEnd.bind fun _ => .ite _ (.pure _) ?_
    exact (safe_innerAt depth).declaration.bind fun _ => ih.bind fun _ => .pure _

/-- The step has a result or is a fault. -/
def Total (step : Parse α) : Prop := ∀ s error s', step s ≠ .error (.error error) s'

theorem Total.bind {β : Type} {x : Parse α} {f : α → Parse β} (hx : Total x)
    (hf : ∀ a, Total (f a)) : Total (x >>= f) := by
  intro s error s'
  simp only [Bind.bind, EStateM.bind]
  cases h : x s with
  | ok a t => exact hf a t error s'
  | error stop t =>
    intro heq
    simp only [EStateM.Result.error.injEq] at heq
    exact hx s error t (heq.1 ▸ h)

theorem Total.pure (a : α) : Total (pure a) := by
  intro s error s' h
  cases h

theorem total_record (error : SyntaxError) : Total (record error) := by
  intro s error s' h
  cases h

theorem total_peek : Total peek := by
  intro s error s'
  unfold peek
  split <;> simp

theorem total_synchronize : Total synchronize := by
  intro s error s'
  unfold synchronize
  split
  · simp
  · split
    · split <;> simp
    · split <;> simp

theorem total_recovering (step : Parse α) : Total (recovering step) := by
  intro s error s'
  unfold recovering
  split
  · simp
  · exact (total_record _).bind (fun _ => total_synchronize.bind fun _ => .pure _) _ _ _
  · simp

theorem total_declaration (depth : Nat) : Total (declaration depth) := by
  cases depth with
  | zero => exact total_recovering _
  | succ depth => exact total_recovering _

theorem total_declarations (depth limit : Nat) : Total (declarations depth limit) := by
  induction limit with
  | zero => exact .pure _
  | succ limit ih =>
    refine (total_peek.bind fun _ => .pure _).bind fun ended => ?_
    split
    · exact .pure _
    · exact (total_declaration depth).bind fun _ => ih.bind fun _ => .pure _

/-- At the end of the input there are no declarations. -/
theorem declarations_of_isEnd {s : State} {token : Token} {rest : List Token}
    (h : s.rest = token :: rest) (hend : token.kind.isEnd = true) (depth limit : Nat) :
    declarations depth (limit + 1) s = .ok [] s := by
  rw [declarations, bind_of_ok (atEnd_of_rest h), hend]
  rfl

/-- Tokens that end with the end of the input are parsed to the end. -/
theorem exists_declarations {tokens : List Token} (h : EndsInput tokens) (first : NodeId)
    (depth limit : Nat) :
    ∃ statements s, declarations depth (limit + 1) { rest := tokens, next := first } =
      .ok statements s ∧ Follows { rest := tokens, next := first } s := by
  obtain ⟨token, rest, htokens⟩ := List.exists_cons_of_ne_nil h.ne_nil
  by_cases hend : token.kind.isEnd = true
  · exact ⟨[], _, declarations_of_isEnd htokens hend depth limit, Follows.refl _⟩
  · simp only [Bool.not_eq_true] at hend
    have hready : Ready { rest := tokens, next := first } := ⟨h, .inr ⟨token, rest, htokens, hend⟩⟩
    have hsafe := safe_declarations depth (limit + 1)
    cases hrun : declarations depth (limit + 1) { rest := tokens, next := first } with
    | ok statements s => exact ⟨statements, s, rfl, hsafe.ok hrun⟩
    | error stop s =>
      cases stop with
      | error error => exact absurd hrun (total_declarations depth (limit + 1) _ error s)
      | fault fault => exact absurd hready (hsafe.fault hrun)

end Parser

/-- Parsing never looks past the last token nor before the first. -/
theorem Program.fault?_ofTokens {tokens : List Token} (h : Parser.EndsInput tokens)
    (first : NodeId) : (Program.ofTokens tokens first).fault? = none := by
  obtain ⟨statements, s, hrun, -⟩ :=
    Parser.exists_declarations h first tokens.length tokens.length
  simp only [ofTokens, hrun]

end Lox
