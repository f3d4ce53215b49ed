import Lox.Proofs.Parser.Progress

/-!
# Bounds that do not matter

Steps are given bounds on the depth of nesting and on the length of every loop. A bound that the
number of tokens left does not exceed is never reached: the inner steps stand behind a token, and
every round of a loop reads one. So two steps that differ in their bounds alone do the same where
few enough tokens are left.
-/
namespace Lox
namespace Parser
variable {α β : Type} {m n : Nat}

/-- The steps do the same where at most `n` tokens are left. -/
def Agree (n : Nat) (x y : Parse α) : Prop :=
  ∀ s, Ready s → s.rest.length ≤ n → x s = y s

namespace Agree

theorem refl (x : Parse α) : Agree n x x := fun _ _ _ => rfl

theorem mono {x y : Parse α} (h : Agree n x y) (hle : m ≤ n) : Agree m x y :=
  fun s hready hlength => h s hready (Nat.le_trans hlength hle)

/-- The end of the input is always left. -/
theorem zero (x y : Parse α) : Agree 0 x y := fun _ hready hlength =>
  absurd (List.length_eq_zero_iff.mp (Nat.le_zero.mp hlength)) hready.ends.ne_nil

/-- What follows a step is run where that ends. -/
theorem bind_at {x y : Parse α} {f g : α → Parse β} {s : State} (h : x s = y s)
    (hf : ∀ a t, x s = .ok a t → f a t = g a t) : (x >>= f) s = (y >>= g) s := by
  simp only [Bind.bind, EStateM.bind]
  rw [← h]
  cases hrun : x s with
  | ok a t => exact hf a t hrun
  | error stop t => rfl

theorem bind_of {x y : Parse α} {f g : α → Parse β} (hsafe : Safe x) (h : Agree n x y)
    (hf : ∀ s a t, x s = .ok a t → Ready t → s.rest.length ≤ n → f a t = g a t) :
    Agree n (x >>= f) (y >>= g) := by
  intro s hready hlength
  refine bind_at (h s hready hlength) fun a t hrun => ?_
  exact hf s a t hrun ((hsafe.ok hrun).ready hready) hlength

theorem bind {x y : Parse α} {f g : α → Parse β} (hsafe : Safe x) (h : Agree n x y)
    (hf : ∀ a, Agree n (f a) (g a)) : Agree n (x >>= f) (y >>= g) :=
  bind_of hsafe h fun _ a t hrun hready hlength =>
    hf a t hready (Nat.le_trans (hsafe.ok hrun).length_le hlength)

theorem bind_left {x y : Parse α} (h : Agree n x y) (f : α → Parse β) :
    Agree n (x >>= f) (y >>= f) :=
  fun s hready hlength => bind_at (h s hready hlength) fun _ _ _ => rfl

theorem bind_right {x : Parse α} {f g : α → Parse β} (hsafe : Safe x)
    (hf : ∀ a, Agree n (f a) (g a)) : Agree n (x >>= f) (x >>= g) :=
  bind hsafe (.refl x) hf

/-- A step that reads a token leaves less to those that follow. -/
theorem after {x y : Parse α} {f g : α → Parse β} (hsafe : Safe x) (hspends : Spends x)
    (h : Agree n x y) (hf : ∀ a, Agree (n - 1) (f a) (g a)) : Agree n (x >>= f) (y >>= g) := by
  refine bind_of hsafe h fun s a t hrun hready hlength => hf a t hready ?_
  have hshorter := hsafe.shorter hspends hrun
  omega

theorem accept? {f : Token → Option α} (hf : Skips f) {x y : Option α → Parse β}
    (hsome : ∀ a, Agree (n - 1) (x (some a)) (y (some a))) (hnone : Agree n (x none) (y none)) :
    Agree n (accept? f >>= x) (accept? f >>= y) := by
  refine bind_of (safe_accept? hf) (.refl _) fun s a t hrun hready hlength => ?_
  cases a with
  | some a =>
    obtain ⟨token, rest, hrest, -, rfl⟩ := accept?_some hrun
    refine hsome a _ hready ?_
    rw [hrest, List.length_cons] at hlength
    simp only [State.read]
    omega
  | none =>
    obtain ⟨rfl, -⟩ := accept?_none hrun
    exact hnone s hready hlength

theorem accept {symbol : Symbol} {x y x' y' : Parse β} (h : Agree (n - 1) x y)
    (h' : Agree n x' y') :
    Agree n (accept symbol >>= fun found => if found = true then x else x')
      (accept symbol >>= fun found => if found = true then y else y') := by
  simp only [Parser.accept, bind_assoc, pure_bind]
  exact accept? (skips_only symbol) (fun _ => h) h'

theorem ite (c : Prop) [Decidable c] {x y x' y' : Parse α} (h : Agree n x y) (h' : Agree n x' y') :
    Agree n (if c then x else x') (if c then y else y') := by
  split
  · exact h
  · exact h'

theorem map {x y : Parse α} (f : α → β) (h : Agree n x y) : Agree n (f <$> x) (f <$> y) := by
  intro s hready hlength
  simp only [Functor.map, EStateM.map]
  rw [h s hready hlength]

end Agree

theorem agree_commaSeparated {x y : Parse α} (hsafe : Safe x) (hspends : Spends x)
    (h : Agree n x y) (tooMany : SyntaxError.Cause) {limit limit' : Nat} (hlimit : n ≤ limit)
    (hlimit' : n ≤ limit') (count : Nat) :
    Agree n (commaSeparated tooMany x limit count) (commaSeparated tooMany y limit' count) := by
  induction n generalizing limit limit' count with
  | zero => exact .zero _ _
  | succ n ih =>
    obtain ⟨limit, rfl⟩ := Nat.exists_eq_succ_of_ne_zero (Nat.ne_zero_of_lt hlimit)
    obtain ⟨limit', rfl⟩ := Nat.exists_eq_succ_of_ne_zero (Nat.ne_zero_of_lt hlimit')
    have hothers := ih (h.mono (Nat.le_succ n)) (Nat.le_of_succ_le_succ hlimit)
      (Nat.le_of_succ_le_succ hlimit') (count + 1)
    unfold commaSeparated
    have hrest : Agree (n + 1)
        (do
          let first ← x
          if ← accept .comma then
            return first :: (← commaSeparated tooMany x limit (count + 1))
          else
            return [first])
        (do
          let first ← y
          if ← accept .comma then
            return first :: (← commaSeparated tooMany y limit' (count + 1))
          else
            return [first]) := by
      refine .after hsafe hspends h fun first => .accept ?_ (.refl _)
      exact (hothers.mono (Nat.sub_le _ _)).bind_left _
    refine .ite _ ?_ hrest
    exact .bind_right safe_peek fun token => .bind_right (safe_record _) fun _ => hrest

theorem agree_listItems {x y : Parse α} (hsafe : Safe x) (hspends : Spends x) (h : Agree n x y)
    (tooMany : SyntaxError.Cause) {limit limit' : Nat} (hlimit : n ≤ limit) (hlimit' : n ≤ limit') :
    Agree n (listItems tooMany x limit) (listItems tooMany y limit') :=
  .bind_right (safe_check _) fun _ =>
    .ite _ (.refl _) (agree_commaSeparated hsafe hspends h tooMany hlimit hlimit' 0)

theorem agree_untilRightBrace {x y : Parse α} (hsafe : Safe x) (hadvances : Advances x)
    (h : Agree n x y) {limit limit' : Nat} (hlimit : n ≤ limit) (hlimit' : n ≤ limit') :
    Agree n (untilRightBrace x limit) (untilRightBrace y limit') := by
  induction n generalizing limit limit' with
  | zero => exact .zero _ _
  | succ n ih =>
    obtain ⟨limit, rfl⟩ := Nat.exists_eq_succ_of_ne_zero (Nat.ne_zero_of_lt hlimit)
    obtain ⟨limit', rfl⟩ := Nat.exists_eq_succ_of_ne_zero (Nat.ne_zero_of_lt hlimit')
    have hothers := ih (h.mono (Nat.le_succ n)) (Nat.le_of_succ_le_succ hlimit)
      (Nat.le_of_succ_le_succ hlimit')
    refine .bind_right (safe_check _) fun closed => ?_
    refine .bind_of safe_atEnd (.refl _) fun s ended t hatEnd hready hlength => ?_
    obtain ⟨rfl, token, rest, hrest, rfl⟩ := atEnd_eq_ok hatEnd
    split
    · rfl
    · next hgo =>
      rw [Bool.or_eq_true, not_or, Bool.not_eq_true token.kind.isEnd] at hgo
      refine Agree.bind_at (h s hready hlength) fun first t hrun => ?_
      have hshorter := hadvances ⟨token, rest, hrest, hgo.2⟩ hrun
      have hothers := hothers t ((hsafe.ok hrun).ready hready) (by omega)
      exact Agree.bind_at hothers fun _ _ _ => rfl

section
variable {x y : Parse Expr} (hsafe : Safe x) (hspends : Spends x)

/-- An inner expression stands behind a parenthesis. -/
theorem agree_primary (h : Agree (n - 1) x y) : Agree n (primary x) (primary y) := by
  unfold primary
  refine .accept? skips_literal? (fun _ => .refl _) ?_
  refine .accept? (skips_only _) (fun _ => .refl _) ?_
  refine .accept? (skips_only _) (fun _ => .refl _) ?_
  refine .accept? skips_name? (fun _ => .refl _) ?_
  exact .accept (h.bind_left _) (.refl _)

include hsafe hspends

theorem agree_callSuffixes (h : Agree n x y) {bound bound' limit limit' : Nat} (hbound : n ≤ bound)
    (hbound' : n ≤ bound') (hlimit : n ≤ limit) (hlimit' : n ≤ limit') (callee : Expr) :
    Agree n (callSuffixes bound x limit callee) (callSuffixes bound' y limit' callee) := by
  induction n generalizing limit limit' callee with
  | zero => exact .zero _ _
  | succ n ih =>
    obtain ⟨limit, rfl⟩ := Nat.exists_eq_succ_of_ne_zero (Nat.ne_zero_of_lt hlimit)
    obtain ⟨limit', rfl⟩ := Nat.exists_eq_succ_of_ne_zero (Nat.ne_zero_of_lt hlimit')
    have h := h.mono (Nat.le_succ n)
    have hothers := ih h (Nat.le_of_succ_le hbound) (Nat.le_of_succ_le hbound')
      (Nat.le_of_succ_le_succ hlimit) (Nat.le_of_succ_le_succ hlimit')
    refine .accept (.bind (safe_finishCall hsafe _ _) ?_ hothers) (.accept ?_ (.refl _))
    · have harguments := agree_listItems hsafe hspends h .tooManyArguments
        (Nat.le_of_succ_le hbound) (Nat.le_of_succ_le hbound')
      exact harguments.bind_left _
    · exact .bind_right (safe_expectName _) fun name => hothers _

theorem agree_call (hbounded : Bounded x) (h : Agree (n - 1) x y) {limit limit' : Nat}
    (hlimit : n ≤ limit + 1) (hlimit' : n ≤ limit' + 1) :
    Agree n (call limit x) (call limit' y) :=
  .after (safe_primary hsafe) (spends_primary hbounded) (agree_primary h) fun callee =>
    agree_callSuffixes hsafe hspends h (by omega) (by omega) (by omega) (by omega) callee

end

/-- There is no operator in front of the end of the input. -/
theorem unary_of_isEnd {operand : Parse Expr} {s : State} {token : Token} {rest : List Token}
    (h : s.rest = token :: rest) (hend : token.kind.isEnd = true) (limit : Nat) :
    unary operand limit s = operand s := by
  cases limit with
  | zero => rfl
  | succ limit =>
    have hnone : unary? token = none := by
      rw [Option.eq_none_iff_forall_ne_some]
      intro build hbuild
      rw [skips_unary? token build hbuild] at hend
      exact absurd hend (by decide)
    have haccept : accept? unary? s = .ok none s := by
      simp only [accept?, h, hnone]
    rw [unary, bind_of_ok haccept]

theorem agree_unary {x y : Parse Expr} (h : Agree n x y) {limit limit' : Nat}
    (hlimit : n ≤ limit + 1) (hlimit' : n ≤ limit' + 1) :
    Agree n (unary x limit) (unary y limit') := by
  induction n generalizing limit limit' with
  | zero => exact .zero _ _
  | succ n ih =>
    intro s hready hlength
    obtain ⟨token, rest, hrest⟩ := List.exists_cons_of_ne_nil hready.ends.ne_nil
    by_cases hend : token.kind.isEnd = true
    · rw [unary_of_isEnd hrest hend, unary_of_isEnd hrest hend]
      exact h s hready hlength
    · have hmore : rest ≠ [] := by
        have hends := hready.ends
        rw [hrest] at hends
        exact (hends.tail (by simpa using hend)).ne_nil
      have hpos := List.length_pos_iff.mpr hmore
      rw [hrest, List.length_cons] at hlength
      obtain ⟨limit, rfl⟩ := Nat.exists_eq_succ_of_ne_zero (show limit ≠ 0 by omega)
      obtain ⟨limit', rfl⟩ := Nat.exists_eq_succ_of_ne_zero (show limit' ≠ 0 by omega)
      have hothers := ih (h.mono (Nat.le_succ n)) (Nat.le_of_succ_le_succ hlimit)
        (Nat.le_of_succ_le_succ hlimit')
      have hround : Agree (n + 1) (unary x (limit + 1)) (unary y (limit' + 1)) :=
        .accept? skips_unary? (fun _ => hothers.bind_left _) h
      exact hround s hready (by rw [hrest, List.length_cons]; exact hlength)

section
variable {operator? : Token → Option Combine} {x y : Parse Expr}
variable (hoperator : Skips operator?) (hsafe : Safe x) (hspends : Spends x)
include hoperator hsafe

theorem agree_operations (h : Agree n x y) {limit limit' : Nat} (hlimit : n ≤ limit)
    (hlimit' : n ≤ limit') (left : Expr) :
    Agree n (operations operator? x limit left) (operations operator? y limit' left) := by
  induction n generalizing limit limit' left with
  | zero => exact .zero _ _
  | succ n ih =>
    obtain ⟨limit, rfl⟩ := Nat.exists_eq_succ_of_ne_zero (Nat.ne_zero_of_lt hlimit)
    obtain ⟨limit', rfl⟩ := Nat.exists_eq_succ_of_ne_zero (Nat.ne_zero_of_lt hlimit')
    have h := h.mono (Nat.le_succ n)
    have hothers := ih h (Nat.le_of_succ_le_succ hlimit) (Nat.le_of_succ_le_succ hlimit')
    exact .accept? hoperator (fun combine => .bind hsafe h fun right => hothers _) (.refl _)

include hspends

theorem agree_leftAssociative (h : Agree n x y) {limit limit' : Nat} (hlimit : n ≤ limit + 1)
    (hlimit' : n ≤ limit' + 1) :
    Agree n (leftAssociative operator? x limit) (leftAssociative operator? y limit') :=
  .after hsafe hspends h fun left =>
    agree_operations hoperator hsafe (h.mono (Nat.sub_le n 1)) (by omega) (by omega) left

end

section
variable {x y : Parse Expr} (hsafe : Safe x) (hspends : Spends x) (h : Agree (n - 1) x y)
variable {limit limit' : Nat} (hlimit : n ≤ limit + 1) (hlimit' : n ≤ limit' + 1)
include hsafe hspends h hlimit hlimit'

theorem agree_disjunction : Agree n (disjunction limit x) (disjunction limit' y) := by
  have hbounded := Bounded.of_spends hspends
  have hcall := agree_call hsafe hspends hbounded h hlimit hlimit'
  have hunary := agree_unary hcall hlimit hlimit'
  have hfactor := agree_leftAssociative (skips_binary? factorOp)
    (safe_unary (safe_call hsafe limit) limit) (spends_unary (spends_call hbounded limit) limit)
    hunary hlimit hlimit'
  have hterm := agree_leftAssociative (skips_binary? termOp) (safe_factor hsafe limit)
    (spends_factor hbounded limit) hfactor hlimit hlimit'
  have hcomparison := agree_leftAssociative (skips_binary? comparisonOp) (safe_term hsafe limit)
    (spends_term hbounded limit) hterm hlimit hlimit'
  have hequality := agree_leftAssociative (skips_binary? equalityOp) (safe_comparison hsafe limit)
    (spends_comparison hbounded limit) hcomparison hlimit hlimit'
  have hconjunction := agree_leftAssociative (skips_logical? .kwAnd .and)
    (safe_equality hsafe limit) (spends_equality hbounded limit) hequality hlimit hlimit'
  exact agree_leftAssociative (skips_logical? .kwOr .or) (safe_conjunction hsafe limit)
    (spends_conjunction hbounded limit) hconjunction hlimit hlimit'

theorem agree_assignment : Agree n (assignment limit x) (assignment limit' y) := by
  rw [assignment_eq, assignment_eq]
  refine .bind (safe_disjunction hsafe limit) ?_ fun target => ?_
  · exact agree_disjunction hsafe hspends h hlimit hlimit'
  · exact .accept? (skips_only _) (fun equals => h.bind_left _) (.refl _)

end

/-- A bound on the depth that is at least the number of tokens left may be any. -/
theorem agree_expression {depth depth' : Nat} (hdepth : n ≤ depth) (hdepth' : n ≤ depth') :
    Agree n (expression depth) (expression depth') := by
  induction n generalizing depth depth' with
  | zero => exact .zero _ _
  | succ n ih =>
    obtain ⟨depth, rfl⟩ := Nat.exists_eq_succ_of_ne_zero (Nat.ne_zero_of_lt hdepth)
    obtain ⟨depth', rfl⟩ := Nat.exists_eq_succ_of_ne_zero (Nat.ne_zero_of_lt hdepth')
    have h := ih (Nat.le_of_succ_le_succ hdepth) (Nat.le_of_succ_le_succ hdepth')
    exact agree_assignment (n := n + 1) (safe_expression depth) (spends_expression depth) h hdepth
      hdepth'

/-- The parts of a statement are read by steps that do the same, and the bounds are not reached. -/
structure Inner.Agree (n : Nat) (a b : Inner) : Prop where
  limit : n ≤ a.limit
  limit' : n ≤ b.limit
  statement : Parser.Agree n a.statement b.statement
  declaration : Parser.Agree n a.declaration b.declaration

section
variable {a b : Inner}

theorem agree_innerExpression (hlimit : n ≤ a.limit + 1) (hlimit' : n ≤ b.limit + 1) :
    Agree n a.expression b.expression :=
  agree_expression hlimit hlimit'

theorem agree_expressionStatement (hlimit : n ≤ a.limit + 1) (hlimit' : n ≤ b.limit + 1) :
    Agree n (expressionStatement a) (expressionStatement b) :=
  (agree_innerExpression hlimit hlimit').bind_left _

variable (h : a.Agree n b)
include h

theorem Inner.Agree.expression : Parser.Agree n a.expression b.expression :=
  agree_innerExpression (Nat.le_succ_of_le h.limit) (Nat.le_succ_of_le h.limit')

theorem agree_varDeclaration : Agree n (varDeclaration a) (varDeclaration b) := by
  refine .bind_right (safe_expectName _) fun name => .accept ?_ (.refl _)
  exact ((h.expression.mono (Nat.sub_le n 1)).map some).bind_left _

theorem agree_unlessNext (closing : Symbol) : Agree n (unlessNext a closing) (unlessNext b closing) :=
  .bind_right (safe_check _) fun _ => .ite _ (.refl _) (h.expression.bind_left _)

theorem agree_forInitializer : Agree n (forInitializer a) (forInitializer b) := by
  have hvar := (agree_varDeclaration h).mono (Nat.sub_le n 1)
  have hexpression : Agree n (expressionStatement a) (expressionStatement b) :=
    agree_expressionStatement (Nat.le_succ_of_le h.limit) (Nat.le_succ_of_le h.limit')
  exact .accept (.refl _) (.accept (hvar.bind_left _) (hexpression.bind_left _))

theorem agree_forStatement : Agree n (forStatement a) (forStatement b) :=
  .bind_right (safe_expect _ _) fun _ =>
    .bind safe_forInitializer (agree_forInitializer h) fun _ =>
      .bind (safe_unlessNext _) (agree_unlessNext h _) fun _ => .bind_right (safe_expect _ _) fun _ =>
        .bind (safe_unlessNext _) (agree_unlessNext h _) fun _ =>
          .bind_right (safe_expect _ _) fun _ => h.statement.bind_left _

theorem agree_ifStatement (hsafe : Safe a.statement) :
    Agree n (ifStatement a) (ifStatement b) :=
  .bind_right (safe_expect _ _) fun _ => .bind safe_innerExpression h.expression fun _ =>
    .bind_right (safe_expect _ _) fun _ => .bind hsafe h.statement fun _ => 
      .accept (((h.statement.mono (Nat.sub_le n 1)).map some).bind_left _) (.refl _)

theorem agree_whileStatement : Agree n (whileStatement a) (whileStatement b) :=
  .bind_right (safe_expect _ _) fun _ => .bind safe_innerExpression h.expression fun _ =>
    .bind_right (safe_expect _ _) fun _ => h.statement.bind_left _

end

section
variable {depth depth' : Nat} (h : (innerAt depth).Agree n (innerAt depth'))
include h

theorem agree_block : Agree n (block (innerAt depth)) (block (innerAt depth')) :=
  (agree_untilRightBrace (safe_innerAt depth).declaration (advances_declaration depth)
    h.declaration h.limit h.limit').bind_left _

theorem agree_function (kind : String) :
    Agree n (function (innerAt depth) kind) (function (innerAt depth') kind) := by
  have hparameters : Agree n
      (listItems .tooManyParameters (expectName "parameter name") (innerAt depth).limit)
      (listItems .tooManyParameters (expectName "parameter name") (innerAt depth').limit) :=
    agree_listItems (safe_expectName _) (.require _ _) (.refl _) _ h.limit h.limit'
  exact .bind_right (safe_expectName _) fun _ => .bind_right (safe_expect _ _) fun _ =>
    .bind (safe_listItems _ (safe_expectName _) _) hparameters fun _ =>
      .bind_right (safe_expect _ _) fun _ => .bind_right (safe_expect _ _) fun _ =>
        (agree_block h).bind_left _

theorem agree_classDeclaration :
    Agree n (classDeclaration (innerAt depth)) (classDeclaration (innerAt depth')) := by
  have hmethods := agree_untilRightBrace (safe_function (safe_innerAt depth) "method")
    (advances_method depth "method") (agree_function h "method") h.limit h.limit'
  exact .bind_right (safe_expectName _) fun _ => .bind_right safe_superclass? fun _ =>
    .bind_right (safe_expect _ _) fun _ => hmethods.bind_left _

end

/-- Each branch but the last stands behind a keyword or a brace. -/
theorem agree_anyStatement {depth depth' : Nat}
    (h : (innerAt depth).Agree (n - 1) (innerAt depth')) :
    Agree n (anyStatement (innerAt depth)) (anyStatement (innerAt depth')) := by
  have hlimit : n ≤ (innerAt depth).limit + 1 := by have := h.limit; omega
  have hlimit' : n ≤ (innerAt depth').limit + 1 := by have := h.limit'; omega
  refine .accept (agree_forStatement h) ?_
  refine .accept (agree_ifStatement h (safe_innerAt depth).statement) ?_
  refine .accept (h.expression.bind_left _) ?_
  refine .accept? (skips_only _) (fun keyword => (agree_unlessNext h _).bind_left _) ?_
  refine .accept (agree_whileStatement h) ?_
  exact .accept ((agree_block h).bind_left _) (agree_expressionStatement hlimit hlimit')

theorem Agree.recovering {x y : Parse α} (h : Agree n x y) :
    Agree n (recovering x) (recovering y) := by
  intro s hready hlength
  simp only [Parser.recovering, h s hready hlength]

theorem agree_attempt {depth depth' : Nat} (h : (innerAt depth).Agree (n - 1) (innerAt depth')) :
    Agree n (attempt (depth + 1)) (attempt (depth' + 1)) :=
  .accept (agree_classDeclaration h) <| .accept ((agree_function h _).bind_left _) <|
    .accept (agree_varDeclaration h) (agree_anyStatement h)

theorem agree_innerAt {depth depth' : Nat} (hdepth : n ≤ depth) (hdepth' : n ≤ depth') :
    (innerAt depth).Agree n (innerAt depth') := by
  induction n generalizing depth depth' with
  | zero => exact ⟨hdepth, hdepth', .zero _ _, .zero _ _⟩
  | succ n ih =>
    obtain ⟨depth, rfl⟩ := Nat.exists_eq_succ_of_ne_zero (Nat.ne_zero_of_lt hdepth)
    obtain ⟨depth', rfl⟩ := Nat.exists_eq_succ_of_ne_zero (Nat.ne_zero_of_lt hdepth')
    have h := ih (Nat.le_of_succ_le_succ hdepth) (Nat.le_of_succ_le_succ hdepth')
    exact ⟨hdepth, hdepth', agree_anyStatement (n := n + 1) h,
      (agree_attempt (n := n + 1) h).recovering⟩

theorem agree_declarations {depth depth' limit limit' : Nat}
    (h : Agree n (declaration depth) (declaration depth')) (hlimit : n ≤ limit)
    (hlimit' : n ≤ limit') :
    Agree n (declarations depth limit) (declarations depth' limit') := by
  induction n generalizing limit limit' with
  | zero => exact .zero _ _
  | succ n ih =>
    obtain ⟨limit, rfl⟩ := Nat.exists_eq_succ_of_ne_zero (Nat.ne_zero_of_lt hlimit)
    obtain ⟨limit', rfl⟩ := Nat.exists_eq_succ_of_ne_zero (Nat.ne_zero_of_lt hlimit')
    have hothers := ih (h.mono (Nat.le_succ n)) (Nat.le_of_succ_le_succ hlimit)
      (Nat.le_of_succ_le_succ hlimit')
    refine .bind_of safe_atEnd (.refl _) fun s ended t hatEnd hready hlength => ?_
    obtain ⟨rfl, token, rest, hrest, rfl⟩ := atEnd_eq_ok hatEnd
    split
    · rfl
    · next hgo =>
      have hmore : s.More := ⟨token, rest, hrest, Bool.not_eq_true _ ▸ hgo⟩
      refine Agree.bind_at (h s hready hlength) fun first t hrun => ?_
      have hshorter := advances_declaration depth hmore hrun
      have hready := ((safe_innerAt depth).declaration.ok hrun).ready hready
      exact Agree.bind_at (hothers t hready (by omega)) fun _ _ _ => rfl

/-- The bounds for all declarations may be any that are at least the number of tokens. -/
theorem declarations_eq {tokens : List Token} (hends : EndsInput tokens) (first : NodeId)
    {depth depth' limit limit' : Nat} (hdepth : tokens.length ≤ depth)
    (hdepth' : tokens.length ≤ depth') (hlimit : tokens.length ≤ limit)
    (hlimit' : tokens.length ≤ limit') :
    declarations depth limit { rest := tokens, next := first } =
      declarations depth' limit' { rest := tokens, next := first } := by
  obtain ⟨token, rest, rfl⟩ := List.exists_cons_of_ne_nil hends.ne_nil
  cases hend : token.kind.isEnd with
  | false =>
    have hfirst := (agree_innerAt hdepth hdepth').declaration
    exact agree_declarations hfirst hlimit hlimit' _ (ready_of_more hends ⟨token, rest, rfl, hend⟩)
      (Nat.le_refl _)
  | true =>
    -- the first token is not read, so no token stands before it
    obtain ⟨limit, rfl⟩ := Nat.exists_eq_succ_of_ne_zero (Nat.ne_zero_of_lt hlimit)
    obtain ⟨limit', rfl⟩ := Nat.exists_eq_succ_of_ne_zero (Nat.ne_zero_of_lt hlimit')
    rw [declarations_of_isEnd rfl hend, declarations_of_isEnd rfl hend]

end Parser
open Lox.Parser

/-- The program can be read off a run with other bounds. -/
theorem Program.ofTokens_of_run {tokens : List Token} (hends : EndsInput tokens) {first : NodeId}
    {depth limit : Nat} (hdepth : tokens.length ≤ depth) (hlimit : tokens.length ≤ limit)
    {statements : List Stmt} {s : State}
    (hrun : declarations depth limit { rest := tokens, next := first } = .ok statements s) :
    ofTokens tokens first = ⟨statements, s.errors.toList, s.next, none⟩ := by
  rw [declarations_eq hends first hdepth (Nat.le_refl _) hlimit (Nat.le_succ _)] at hrun
  simp only [ofTokens, hrun]

end Lox
