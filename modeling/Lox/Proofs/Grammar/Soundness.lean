import Lox.Proofs.Grammar.Targets
import Lox.Proofs.Parser.Safety

/-!
# Parsing follows the grammar

If no error is recorded up to the end of a step, the tokens that the step has read are derivable,
with the tree that the step results in. The steps have a bound on the tokens that are left; it
keeps lists from being cut off.
-/
namespace Lox.Parser
open Grammar
variable {α β : Type}

/-- If the step is given at most `bound` tokens and leaves no errors behind, then `good` holds of
the tokens it reads and of its result. -/
def Reads (bound : Nat) (step : Parse α) (good : List Token → α → Prop) : Prop :=
  ∀ s a s', s.rest.length ≤ bound → step s = .ok a s' → s'.errors = #[] →
    ∃ used, s.rest = used ++ s'.rest ∧ good used a

theorem Reads.mono {bound bound' : Nat} {step : Parse α} {good good' : List Token → α → Prop}
    (h : Reads bound step good) (hbound : bound' ≤ bound)
    (hgood : ∀ used a, good used a → good' used a) : Reads bound' step good' := by
  intro s a s' hlength hrun hclean
  obtain ⟨used, hused, ha⟩ := h s a s' (Nat.le_trans hlength hbound) hrun hclean
  exact ⟨used, hused, hgood used a ha⟩

theorem Follows.clean {s s' : State} (h : Follows s s') (hs : s'.errors = #[]) : s.errors = #[] := by
  have hsize := h.size_le
  rw [hs] at hsize
  exact Array.eq_empty_of_size_eq_zero (Nat.le_zero.mp hsize)

@[simp] theorem State.errors_read (s : State) (token : Token) (rest : List Token) :
    (s.read token rest).errors = s.errors := rfl

@[simp] theorem State.rest_read (s : State) (token : Token) (rest : List Token) :
    (s.read token rest).rest = rest := rfl

section
variable {bound : Nat} {step : Parse α} {good : List Token → α → Prop}

theorem Reads.map {good' : List Token → β → Prop} (h : Reads bound step good) (f : α → β)
    (hgood : ∀ used a, good used a → good' used (f a)) :
    Reads bound (do return f (← step)) good' := by
  intro s b s' hlength hrun hclean
  obtain ⟨a, t, ha, hrun⟩ := bind_eq_ok.mp hrun
  obtain ⟨rfl, rfl⟩ := pure_eq_ok.mp hrun
  obtain ⟨used, hused, hused'⟩ := h s a t hlength ha hclean
  exact ⟨used, hused, hgood used a hused'⟩

/-- What a step reads, and a symbol behind it. -/
theorem Reads.closed (h : Reads bound step good) (symbol : Symbol) (what : String) (f : α → β) :
    Reads bound (do
      let a ← step
      let _ ← expect symbol what
      return f a) fun used b => ∃ tokens closing a, used = tokens ++ [closing] ∧ good tokens a ∧
        closing.kind = .symbol symbol ∧ b = f a := by
  intro s b s' hlength hrun hclean
  obtain ⟨a, t, ha, hrun⟩ := bind_eq_ok.mp hrun
  obtain ⟨closing, u, hclosing, hrun⟩ := bind_eq_ok.mp hrun
  obtain ⟨rest, hrest, hk, rfl⟩ := expect_eq_ok hclosing
  obtain ⟨rfl, rfl⟩ := pure_eq_ok.mp hrun
  obtain ⟨used, hused, hgood⟩ := h s a t hlength ha hclean
  exact ⟨used ++ [closing], by simp [hused, hrest], used, closing, a, rfl, hgood, hk, rfl⟩

/-- What a step reads behind a token, and that token in front of it. -/
theorem Reads.behind {token : Token} {rest : List Token}
    (h : Reads bound step fun used => good (token :: used)) {s s' : State} {a : α}
    (hrest : s.rest = token :: rest) (hlength : s.rest.length ≤ bound + 1)
    (hrun : step (s.read token rest) = .ok a s') (hclean : s'.errors = #[]) :
    ∃ used, s.rest = used ++ s'.rest ∧ good used a := by
  rw [hrest, List.length_cons] at hlength
  obtain ⟨used, hused, hgood⟩ := h _ a s' (Nat.le_of_succ_le_succ hlength) hrun hclean
  rw [State.rest_read] at hused
  exact ⟨token :: used, by rw [hrest, hused]; rfl, hgood⟩

end

section
variable {item : Parse α} {good : List Token → α → Prop} {limit : Nat}
variable (hsafe : Safe item) (hitem : Reads limit item good)
include hsafe hitem

theorem reads_commaSeparated (tooMany : SyntaxError.Cause) (bound count : Nat)
    (hlimit : bound ≤ limit) (s : State) (items : List α) (s' : State)
    (hlength : s.rest.length < bound)
    (hrun : commaSeparated tooMany item bound count s = .ok items s') (hclean : s'.errors = #[]) :
    ∃ used, s.rest = used ++ s'.rest ∧ CommaSeparated good used items ∧
      count + items.length ≤ maxItems := by
  induction bound generalizing count s items with
  | zero => omega
  | succ bound ih =>
    unfold commaSeparated at hrun
    have hfollows := (safe_commaSeparated tooMany hsafe (bound + 1) count).ok
      (by unfold commaSeparated; exact hrun)
    split at hrun
    · obtain ⟨token, t, hpeek, hrun⟩ := bind_eq_ok.mp hrun
      obtain ⟨_, u, hrecord, hrun⟩ := bind_eq_ok.mp hrun
      obtain rfl := record_eq_ok hrecord
      have hrest : Safe (do
          let first ← item
          if ← accept .comma then
            return first :: (← commaSeparated tooMany item bound (count + 1))
          else
            return [first] : Parse (List α)) :=
        hsafe.bind fun _ => (safe_accept _).bind fun _ =>
          .ite _ ((safe_commaSeparated tooMany hsafe bound (count + 1)).bind fun _ => .pure _)
            (.pure _)
      exact absurd ((hrest.ok hrun).clean hclean) (by simp)
    · next hcount =>
      obtain ⟨first, t, hfirst, hrun⟩ := bind_eq_ok.mp hrun
      have hread (ht : t.errors = #[]) := hitem s first t (by omega) hfirst ht
      obtain ⟨comma, rest, hcomma, hk, hrun⟩ | ⟨-, hrun⟩ := accept_ite_eq_ok hrun
      · obtain ⟨others, v, hothers, hrun⟩ := bind_eq_ok.mp hrun
        obtain ⟨rfl, rfl⟩ := pure_eq_ok.mp hrun
        have hclean' := ((safe_commaSeparated tooMany hsafe bound (count + 1)).ok hothers).clean hclean
        obtain ⟨used, hused, hgood⟩ := hread hclean'
        have hlength' : rest.length < bound := by
          simp only [hused, hcomma, List.length_append, List.length_cons] at hlength
          omega
        obtain ⟨used', hused', hlist, hfew⟩ :=
          ih (count + 1) (by omega) (t.read comma rest) others hlength' hothers
        refine ⟨used ++ comma :: used', ?_, .cons hgood hk hlist, ?_⟩
        · rw [hused, hcomma]
          simpa using hused'
        · simp only [List.length_cons]
          omega
      · obtain ⟨rfl, rfl⟩ := pure_eq_ok.mp hrun
        obtain ⟨used, hused, hgood⟩ := hread hclean
        refine ⟨used, hused, .single hgood, ?_⟩
        simp only [List.length_singleton]
        omega

theorem reads_listItems (tooMany : SyntaxError.Cause) {s : State} {items : List α} {s' : State}
    (hlength : s.rest.length < limit) (hrun : listItems tooMany item limit s = .ok items s')
    (hclean : s'.errors = #[]) : ∃ used, s.rest = used ++ s'.rest ∧ Items good used items := by
  obtain ⟨closed, t, hcheck, hrun⟩ := bind_eq_ok.mp hrun
  obtain ⟨rfl, -⟩ := check_eq_ok hcheck
  split at hrun
  · obtain ⟨rfl, rfl⟩ := pure_eq_ok.mp hrun
    exact ⟨[], rfl, .none⟩
  · obtain ⟨used, hused, hlist, hfew⟩ := reads_commaSeparated hsafe hitem tooMany limit 0
      (Nat.le_refl _) s items s' hlength hrun hclean
    refine ⟨used, hused, .some hlist ?_⟩
    unfold maxItems at hfew
    omega

theorem reads_untilRightBrace (bound : Nat) : Reads limit (untilRightBrace item bound) (Many good) := by
  induction bound with
  | zero =>
    intro s items s' hlength hrun hclean
    obtain ⟨rfl, rfl⟩ := pure_eq_ok.mp hrun
    exact ⟨[], rfl, .nil⟩
  | succ bound ih =>
    intro s items s' hlength hrun hclean
    obtain ⟨closed, t, hcheck, hrun⟩ := bind_eq_ok.mp hrun
    obtain ⟨rfl, -⟩ := check_eq_ok hcheck
    obtain ⟨ended, t, hended, hrun⟩ := bind_eq_ok.mp hrun
    obtain ⟨rfl, -⟩ := atEnd_eq_ok hended
    split at hrun
    · obtain ⟨rfl, rfl⟩ := pure_eq_ok.mp hrun
      exact ⟨[], rfl, .nil⟩
    · obtain ⟨first, t, hfirst, hrun⟩ := bind_eq_ok.mp hrun
      obtain ⟨others, u, hothers, hrun⟩ := bind_eq_ok.mp hrun
      obtain ⟨rfl, rfl⟩ := pure_eq_ok.mp hrun
      have hclean' := ((safe_untilRightBrace hsafe bound).ok hothers).clean hclean
      obtain ⟨used, hused, hgood⟩ := hitem s first t hlength hfirst hclean'
      obtain ⟨used', hused', hlist⟩ :=
        ih t others u (Nat.le_trans (hsafe.ok hfirst).length_le hlength) hothers hclean
      exact ⟨used ++ used', by rw [hused, hused', List.append_assoc], .cons hgood hlist⟩

end

theorem symbol?_eq_some {token : Token} {symbol : Symbol} :
    symbol? token = some symbol ↔ token.kind = .symbol symbol := by
  unfold symbol?
  split
  · next other hk => simp [hk]
  · next hk => simpa using hk symbol

/-- What a step takes for an operator is an operator of the level. -/
def OperatorsOf (level : Level) (operator? : Token → Option Combine) : Prop :=
  ∀ token combine, operator? token = some combine ↔
    ∃ symbol build, token.kind = .symbol symbol ∧ level.operator? symbol = some build ∧
      combine = build token.line

theorem operatorsOf_binary? {level : Level} {ops : Symbol → Option BinaryOp}
    (h : ∀ symbol, level.operator? symbol = (ops symbol).map .binary) :
    OperatorsOf level (binary? ops) := by
  intro token combine
  unfold binary?
  simp only [Option.bind_eq_some_iff, symbol?_eq_some, h, Option.map_eq_some_iff]
  constructor
  · rintro ⟨symbol, hk, op, hop, rfl⟩
    exact ⟨symbol, .binary op, hk, ⟨op, hop, rfl⟩, rfl⟩
  · rintro ⟨symbol, _, hk, ⟨op, hop, rfl⟩, rfl⟩
    exact ⟨symbol, hk, op, hop, rfl⟩

theorem operatorsOf_logical? {level : Level} {keyword : Symbol} {op : LogicalOp}
    (h : ∀ symbol, level.operator? symbol =
      if symbol = keyword then some fun _ => .logical op else none) :
    OperatorsOf level (logical? keyword op) := by
  intro token combine
  unfold logical?
  simp only [Option.map_eq_some_iff, only_eq_some, h]
  constructor
  · rintro ⟨_, ⟨hk, rfl⟩, rfl⟩
    exact ⟨keyword, _, hk, if_pos rfl, rfl⟩
  · rintro ⟨symbol, build, hk, hbuild, rfl⟩
    split at hbuild
    · next heq =>
      subst heq
      cases hbuild
      exact ⟨token, ⟨hk, rfl⟩, rfl⟩
    · exact absurd hbuild (by simp)

theorem operatorsOf_factor : OperatorsOf .factor (binary? factorOp) := operatorsOf_binary? fun s => by cases s <;> rfl

theorem operatorsOf_term : OperatorsOf .term (binary? termOp) := operatorsOf_binary? fun s => by cases s <;> rfl

theorem operatorsOf_comparison : OperatorsOf .comparison (binary? comparisonOp) :=
  operatorsOf_binary? fun s => by cases s <;> rfl

theorem operatorsOf_equality : OperatorsOf .equality (binary? equalityOp) :=
  operatorsOf_binary? fun s => by cases s <;> rfl

theorem operatorsOf_conjunction : OperatorsOf .conjunction (logical? .kwAnd .and) :=
  operatorsOf_logical? fun s => by cases s <;> rfl

theorem operatorsOf_disjunction : OperatorsOf .disjunction (logical? .kwOr .or) :=
  operatorsOf_logical? fun s => by cases s <;> rfl

theorem unary?_eq_some {token : Token} {build : Expr → Expr} :
    unary? token = some build ↔
      (token.kind = .symbol .bang ∧ build = .unary .not token.line) ∨
      (token.kind = .symbol .minus ∧ build = .unary .negate token.line) := by
  unfold unary?
  simp only [Option.bind_eq_some_iff, symbol?_eq_some, Option.map_eq_some_iff]
  constructor
  · rintro ⟨symbol, hk, op, hop, rfl⟩
    unfold unaryOp at hop
    split at hop
    · cases hop
      exact .inl ⟨hk, rfl⟩
    · cases hop
      exact .inr ⟨hk, rfl⟩
    · exact absurd hop (by simp)
  · rintro (⟨hk, rfl⟩ | ⟨hk, rfl⟩)
    · exact ⟨.bang, hk, .not, rfl, rfl⟩
    · exact ⟨.minus, hk, .negate, rfl, rfl⟩

theorem constant_of_literal? {token : Token} {value : Literal} (h : literal? token = some value) :
    Constant token.kind value := by
  unfold literal? at h
  split at h
  · next hk => cases h; rw [hk]; exact .false
  · next hk => cases h; rw [hk]; exact .true
  · next hk => cases h; rw [hk]; exact .nil
  · next hk => cases h; rw [hk]; exact .number _
  · next hk => cases h; rw [hk]; exact .string _
  · exact absurd h (by simp)

section
variable {nested : Parse Expr} {limit : Nat}
variable (hsafe : Safe nested) (hnested : Reads limit nested (Expression .assignment))

include hnested in
theorem reads_primary : Reads (limit + 1) (primary nested) (Expression .primary) := by
  intro s e s' hlength hrun hclean
  obtain ⟨value, t, hvalue, hrun⟩ := bind_eq_ok.mp hrun
  cases value with
  | some value =>
    obtain ⟨token, rest, hrest, hk, rfl⟩ := accept?_some hvalue
    obtain ⟨rfl, rfl⟩ := pure_eq_ok.mp hrun
    exact ⟨[token], hrest, .literal (constant_of_literal? hk)⟩
  | none =>
  obtain ⟨rfl, -⟩ := accept?_none hvalue
  obtain ⟨keyword, t, hkeyword, hrun⟩ := bind_eq_ok.mp hrun
  cases keyword with
  | some keyword =>
    obtain ⟨token, rest, hrest, hk, rfl⟩ := accept?_some hkeyword
    obtain ⟨hk, rfl⟩ := only_eq_some.mp hk
    obtain ⟨dot, t, hdot, hrun⟩ := bind_eq_ok.mp hrun
    obtain ⟨method, u, hmethod, hrun⟩ := bind_eq_ok.mp hrun
    obtain ⟨id, v, hid, hrun⟩ := bind_eq_ok.mp hrun
    obtain ⟨rest', hrest', hkdot, rfl⟩ := expect_eq_ok hdot
    obtain ⟨name, rest'', hrest'', hkname, rfl, rfl⟩ := expectName_eq_ok hmethod
    obtain ⟨rfl, rfl⟩ := freshId_eq_ok.mp hid
    obtain ⟨rfl, rfl⟩ := pure_eq_ok.mp hrun
    rw [State.rest_read] at hrest' hrest''
    exact ⟨[keyword, dot, name], by simp [hrest, hrest', hrest''], .super hk hkdot hkname⟩
  | none =>
  obtain ⟨rfl, -⟩ := accept?_none hkeyword
  obtain ⟨keyword, t, hkeyword, hrun⟩ := bind_eq_ok.mp hrun
  cases keyword with
  | some keyword =>
    obtain ⟨token, rest, hrest, hk, rfl⟩ := accept?_some hkeyword
    obtain ⟨hk, rfl⟩ := only_eq_some.mp hk
    obtain ⟨id, v, hid, hrun⟩ := bind_eq_ok.mp hrun
    obtain ⟨rfl, rfl⟩ := freshId_eq_ok.mp hid
    obtain ⟨rfl, rfl⟩ := pure_eq_ok.mp hrun
    exact ⟨[keyword], hrest, .this hk⟩
  | none =>
  obtain ⟨rfl, -⟩ := accept?_none hkeyword
  obtain ⟨name, t, hname, hrun⟩ := bind_eq_ok.mp hrun
  cases name with
  | some name =>
    obtain ⟨token, rest, hrest, hk, rfl⟩ := accept?_some hname
    obtain ⟨hkind, rfl⟩ := name?_eq_some.mp hk
    obtain ⟨id, v, hid, hrun⟩ := bind_eq_ok.mp hrun
    obtain ⟨rfl, rfl⟩ := freshId_eq_ok.mp hid
    obtain ⟨rfl, rfl⟩ := pure_eq_ok.mp hrun
    exact ⟨[token], hrest, .reference hkind⟩
  | none =>
  obtain ⟨rfl, -⟩ := accept?_none hname
  obtain ⟨opening, rest, hrest, hk, hrun⟩ | ⟨-, hrun⟩ := accept_ite_eq_ok hrun
  · rw [hrest, List.length_cons] at hlength
    obtain ⟨_, hused, tokens, closing, inner, rfl, hgood, hkclosing, rfl⟩ :=
      hnested.closed .rightParen _ .grouping (s.read opening rest) e s'
        (Nat.le_of_succ_le_succ hlength) hrun hclean
    rw [State.rest_read] at hused
    exact ⟨opening :: (tokens ++ [closing]), by rw [hrest, hused]; rfl,
      .grouping hk hgood hkclosing⟩
  · exact absurd hrun fail_ne_ok

include hsafe hnested

theorem reads_finishCall {callee e : Expr} {s s' : State} (hlength : s.rest.length < limit)
    (hrun : finishCall limit nested callee s = .ok e s') (hclean : s'.errors = #[]) :
    ∃ used closing arguments, s.rest = used ++ closing :: s'.rest ∧
      Items (Expression .assignment) used arguments ∧ closing.kind = .symbol .rightParen ∧
      e = .call callee closing.line arguments := by
  obtain ⟨arguments, t, harguments, hrun⟩ := bind_eq_ok.mp hrun
  obtain ⟨closing, u, hclosing, hrun⟩ := bind_eq_ok.mp hrun
  obtain ⟨rest, hrest, hk, rfl⟩ := expect_eq_ok hclosing
  obtain ⟨rfl, rfl⟩ := pure_eq_ok.mp hrun
  obtain ⟨used, hused, hitems⟩ := reads_listItems hsafe hnested _ hlength harguments hclean
  exact ⟨used, closing, arguments, by rw [hused, hrest, State.rest_read], hitems, hk, rfl⟩

theorem reads_callSuffixes (bound : Nat) (callee : Expr) :
    Reads limit (callSuffixes limit nested bound callee) (Suffixes callee) := by
  induction bound generalizing callee with
  | zero =>
    intro s e s' hlength hrun hclean
    obtain ⟨rfl, rfl⟩ := pure_eq_ok.mp hrun
    exact ⟨[], rfl, .nil⟩
  | succ bound ih =>
    intro s e s' hlength hrun hclean
    obtain ⟨opening, rest, hrest, hk, hrun⟩ | ⟨-, hrun⟩ := accept_ite_eq_ok hrun
    · obtain ⟨called, t, hcalled, hrun⟩ := bind_eq_ok.mp hrun
      rw [hrest, List.length_cons] at hlength
      have hclean' := ((safe_callSuffixes hsafe limit bound called).ok hrun).clean hclean
      have ht := ((safe_finishCall hsafe limit callee).ok hcalled).length_le
      obtain ⟨used, closing, arguments, hused, hitems, hkclosing, rfl⟩ :=
        reads_finishCall hsafe hnested (by rw [State.rest_read]; omega) hcalled hclean'
      rw [State.rest_read] at hused ht
      obtain ⟨used', hused', hsuffixes⟩ := ih _ t e s' (by omega) hrun hclean
      exact ⟨opening :: (used ++ closing :: used'), by simp [hrest, hused, hused'],
        .call hk hitems hkclosing hsuffixes⟩
    obtain ⟨dot, rest, hrest, hk, hrun⟩ | ⟨-, hrun⟩ := accept_ite_eq_ok hrun
    · obtain ⟨property, t, hproperty, hrun⟩ := bind_eq_ok.mp hrun
      obtain ⟨name, rest', hrest', hkname, rfl, rfl⟩ := expectName_eq_ok hproperty
      rw [State.rest_read] at hrest'
      rw [hrest, hrest', List.length_cons, List.length_cons] at hlength
      obtain ⟨used, hused, hsuffixes⟩ :=
        ih _ ((s.read dot rest).read name rest') e s' (by rw [State.rest_read]; omega) hrun hclean
      rw [State.rest_read] at hused
      exact ⟨dot :: name :: used, by simp [hrest, hrest', hused], .property hk hkname hsuffixes⟩
    · obtain ⟨rfl, rfl⟩ := pure_eq_ok.mp hrun
      exact ⟨[], rfl, .nil⟩

theorem reads_call : Reads (limit + 1) (call limit nested) (Expression .call) := by
  intro s e s' hlength hrun hclean
  obtain ⟨callee, t, hcallee, hrun⟩ := bind_eq_ok.mp hrun
  have hclean' := ((safe_callSuffixes hsafe limit limit callee).ok hrun).clean hclean
  obtain ⟨used, hused, hprimary⟩ := reads_primary hnested s callee t hlength hcallee hclean'
  obtain ⟨token, rest, rfl, -⟩ := hprimary.starts
  have hlength' : t.rest.length ≤ limit := by
    rw [hused] at hlength
    simp only [List.length_append, List.length_cons] at hlength
    omega
  obtain ⟨used', hused', hsuffixes⟩ :=
    reads_callSuffixes hsafe hnested limit callee t e s' hlength' hrun hclean
  exact ⟨_ ++ used', by rw [hused, hused', List.append_assoc], .suffixed hprimary hsuffixes⟩

end

theorem reads_unary {operand : Parse Expr} {limit : Nat}
    (hoperand : Reads limit operand (Expression .call)) (bound : Nat) :
    Reads limit (unary operand bound) (Expression .unary) := by
  induction bound with
  | zero => exact hoperand.mono (Nat.le_refl _) fun _ _ => .bare
  | succ bound ih =>
    intro s e s' hlength hrun hclean
    obtain ⟨operator, t, hoperator, hrun⟩ := bind_eq_ok.mp hrun
    cases operator with
    | none =>
      obtain ⟨rfl, -⟩ := accept?_none hoperator
      obtain ⟨used, hused, hgood⟩ := hoperand s e s' hlength hrun hclean
      exact ⟨used, hused, .bare hgood⟩
    | some build =>
      obtain ⟨token, rest, hrest, hbuild, rfl⟩ := accept?_some hoperator
      obtain ⟨inner, u, hinner, hrun⟩ := bind_eq_ok.mp hrun
      obtain ⟨rfl, rfl⟩ := pure_eq_ok.mp hrun
      rw [hrest, List.length_cons] at hlength
      obtain ⟨used, hused, hgood⟩ :=
        ih (s.read token rest) inner u (Nat.le_of_succ_le hlength) hinner hclean
      refine ⟨token :: used, by rw [hrest, ← State.rest_read s token rest, hused]; rfl, ?_⟩
      rcases unary?_eq_some.mp hbuild with ⟨hk, rfl⟩ | ⟨hk, rfl⟩
      · exact .not hk hgood
      · exact .negate hk hgood

section
variable {level operands : Level} {operator? : Token → Option Combine} {operand : Parse Expr}
variable {limit : Nat} (hskips : Skips operator?) (hoperators : OperatorsOf level operator?)
variable (hsafe : Safe operand) (hoperand : Reads limit operand (Expression operands))
include hskips hoperators hsafe hoperand

theorem reads_operations (bound : Nat) (left : Expr) :
    Reads limit (operations operator? operand bound left) (Operations level operands left) := by
  induction bound generalizing left with
  | zero =>
    intro s e s' hlength hrun hclean
    obtain ⟨rfl, rfl⟩ := pure_eq_ok.mp hrun
    exact ⟨[], rfl, .nil⟩
  | succ bound ih =>
    intro s e s' hlength hrun hclean
    obtain ⟨operator, t, hoperator, hrun⟩ := bind_eq_ok.mp hrun
    cases operator with
    | none =>
      obtain ⟨rfl, -⟩ := accept?_none hoperator
      obtain ⟨rfl, rfl⟩ := pure_eq_ok.mp hrun
      exact ⟨[], rfl, .nil⟩
    | some combine =>
      obtain ⟨token, rest, hrest, hcombine, rfl⟩ := accept?_some hoperator
      obtain ⟨symbol, build, hk, hbuild, rfl⟩ := (hoperators token combine).mp hcombine
      obtain ⟨right, u, hright, hrun⟩ := bind_eq_ok.mp hrun
      rw [hrest, List.length_cons] at hlength
      have hclean' := ((safe_operations hskips hsafe bound _).ok hrun).clean hclean
      have hu := (hsafe.ok hright).length_le
      rw [State.rest_read] at hu
      obtain ⟨used, hused, hgood⟩ :=
        hoperand (s.read token rest) right u (Nat.le_of_succ_le hlength) hright hclean'
      rw [State.rest_read] at hused
      obtain ⟨used', hused', hothers⟩ := ih _ u e s' (by omega) hrun hclean
      exact ⟨token :: (used ++ used'), by simp [hrest, hused, hused'],
        .cons hk hbuild hgood hothers⟩

theorem reads_leftAssociative (hlevel : level.operand? = some operands) (bound : Nat) :
    Reads limit (leftAssociative operator? operand bound) (Expression level) := by
  intro s e s' hlength hrun hclean
  obtain ⟨first, t, hfirst, hrun⟩ := bind_eq_ok.mp hrun
  have hclean' := ((safe_operations hskips hsafe bound first).ok hrun).clean hclean
  obtain ⟨used, hused, hgood⟩ := hoperand s first t hlength hfirst hclean'
  have ht := (hsafe.ok hfirst).length_le
  obtain ⟨used', hused', hothers⟩ := reads_operations hskips hoperators hsafe hoperand bound first t e s'
    (Nat.le_trans ht hlength) hrun hclean
  exact ⟨used ++ used', by rw [hused, hused', List.append_assoc], .operations hlevel hgood hothers⟩

end

section
variable {nested : Parse Expr} {limit : Nat}
variable (hsafe : Safe nested) (hnested : Reads limit nested (Expression .assignment))
include hsafe hnested

theorem reads_factor : Reads (limit + 1) (factor limit nested) (Expression .factor) :=
  reads_leftAssociative (skips_binary? _) operatorsOf_factor (safe_unary (safe_call hsafe limit) limit)
    (reads_unary (reads_call hsafe hnested) limit) rfl limit

theorem reads_term : Reads (limit + 1) (term limit nested) (Expression .term) :=
  reads_leftAssociative (skips_binary? _) operatorsOf_term (safe_factor hsafe limit)
    (reads_factor hsafe hnested) rfl limit

theorem reads_comparison : Reads (limit + 1) (comparison limit nested) (Expression .comparison) :=
  reads_leftAssociative (skips_binary? _) operatorsOf_comparison (safe_term hsafe limit)
    (reads_term hsafe hnested) rfl limit

theorem reads_equality : Reads (limit + 1) (equality limit nested) (Expression .equality) :=
  reads_leftAssociative (skips_binary? _) operatorsOf_equality (safe_comparison hsafe limit)
    (reads_comparison hsafe hnested) rfl limit

theorem reads_conjunction : Reads (limit + 1) (conjunction limit nested) (Expression .conjunction) :=
  reads_leftAssociative (skips_logical? _ _) operatorsOf_conjunction (safe_equality hsafe limit)
    (reads_equality hsafe hnested) rfl limit

theorem reads_disjunction : Reads (limit + 1) (disjunction limit nested) (Expression .disjunction) :=
  reads_leftAssociative (skips_logical? _ _) operatorsOf_disjunction (safe_conjunction hsafe limit)
    (reads_conjunction hsafe hnested) rfl limit

/-- A target, an equals sign and a value are derived from the tree of the target alone. -/
theorem reads_assignment : Reads (limit + 1) (assignment limit nested) (Expression .assignment) := by
  intro s e s' hlength hrun hclean
  obtain ⟨target, t, htarget, hrun⟩ := bind_eq_ok.mp hrun
  obtain ⟨equals, u, hequals, hrun⟩ := bind_eq_ok.mp hrun
  have hread := reads_disjunction hsafe hnested s target t hlength htarget
  cases equals with
  | none =>
    obtain ⟨rfl, -⟩ := accept?_none hequals
    obtain ⟨rfl, rfl⟩ := pure_eq_ok.mp hrun
    obtain ⟨used, hused, hgood⟩ := hread hclean
    exact ⟨used, hused, .value hgood⟩
  | some equals =>
    obtain ⟨token, rest, hrest, hk, rfl⟩ := accept?_some hequals
    obtain ⟨hk, rfl⟩ := only_eq_some.mp hk
    obtain ⟨value, u, hvalue, hrun⟩ := bind_eq_ok.mp hrun
    have hsuffix := (safe_disjunction hsafe limit).ok htarget
    have hclean' := ((safe_assignTo _ _ _).ok hrun).clean hclean
    obtain ⟨used, hused, hgood⟩ := hread ((hsafe.ok hvalue).clean hclean')
    have hlength' : rest.length ≤ limit := by
      have ht := hsuffix.length_le
      rw [hrest, List.length_cons] at ht
      omega
    obtain ⟨used', hused', hgood'⟩ := hnested (t.read equals rest) value u hlength' hvalue hclean'
    rw [State.rest_read] at hused'
    unfold assignTo at hrun
    split at hrun
    · obtain ⟨id, v, hid, hrun⟩ := bind_eq_ok.mp hrun
      obtain ⟨rfl, rfl⟩ := freshId_eq_ok.mp hid
      obtain ⟨rfl, rfl⟩ := pure_eq_ok.mp hrun
      obtain ⟨name, rfl, hname, rfl⟩ := hgood.of_variable
      exact ⟨name :: equals :: used', by simp [hused, hrest, hused'], .assign hname hk hgood'⟩
    · obtain ⟨rfl, rfl⟩ := pure_eq_ok.mp hrun
      obtain ⟨object, dot, name, rfl, hobject, hdot, hname, rfl⟩ := hgood.of_get
      exact ⟨object ++ dot :: name :: equals :: used', by simp [hused, hrest, hused'],
        .set hobject hdot hname hk hgood'⟩
    · obtain ⟨_, v, hrecord, hrun⟩ := bind_eq_ok.mp hrun
      obtain rfl := record_eq_ok hrecord
      obtain ⟨rfl, rfl⟩ := pure_eq_ok.mp hrun
      exact absurd hclean (by simp)

end

theorem reads_expression (depth : Nat) : Reads depth (expression depth) (Expression .assignment) := by
  induction depth with
  | zero => exact fun s e s' _ hrun => absurd hrun fail_ne_ok
  | succ depth ih => exact reads_assignment (safe_expression depth) ih

end Lox.Parser
