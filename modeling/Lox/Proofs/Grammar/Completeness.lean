import Lox.Proofs.Grammar.Soundness
import Lox.Proofs.Syntax.Unnumbered

/-!
# Whatever is derivable is read

A derivable expression is read without errors, up to a token that cannot go on with it, and the
result is the tree of the derivation except for the numbers. Each level of precedence has its own
tokens that go on with an expression.
-/
namespace Lox.Parser
open Grammar
variable {α β : Type}

/-- If the tokens `before` are left, the step reads on until `after` is left. It records no errors,
and `good` holds of its result. -/
def Accepts (step : Parse α) (before after : List Token) (good : α → Prop) : Prop :=
  ∀ s, s.rest = before →
    ∃ a s', step s = .ok a s' ∧ s'.rest = after ∧ s'.errors = s.errors ∧ good a

namespace Accepts
variable {x : Parse α} {f : α → Parse β} {before middle after : List Token}
variable {good : α → Prop} {goal : β → Prop}

theorem bind (hx : Accepts x before middle good)
    (hf : ∀ a, good a → Accepts (f a) middle after goal) : Accepts (x >>= f) before after goal := by
  intro s hs
  obtain ⟨a, t, hrun, ht, herrors, ha⟩ := hx s hs
  obtain ⟨b, u, hrun', hu, herrors', hb⟩ := hf a ha t ht
  exact ⟨b, u, by rw [bind_of_ok hrun, hrun'], hu, herrors'.trans herrors, hb⟩

/-- The rest of a sequence whose first step has one possible result. -/
theorem bindTo {a : α} (hx : Accepts x before middle (· = a))
    (hf : Accepts (f a) middle after goal) : Accepts (x >>= f) before after goal :=
  hx.bind fun _ ha => ha ▸ hf

theorem pure {a : α} (h : good a) : Accepts (pure a) before before good :=
  fun s hs => ⟨a, s, rfl, hs, rfl, h⟩

theorem map {g : α → β} (hx : Accepts x before after good) (h : ∀ a, good a → goal (g a)) :
    Accepts (g <$> x) before after goal := by
  intro s hs
  obtain ⟨a, s', hrun, hrest, herrors, ha⟩ := hx s hs
  exact ⟨g a, s', map_of_ok hrun, hrest, herrors, h a ha⟩

end Accepts

section
variable {f : Token → Option α} {a : α} {token : Token} {after : List Token} {symbol : Symbol}
variable {what : String}

theorem accepts_accept? (h : f token = some a) :
    Accepts (accept? f) (token :: after) after (· = some a) := by
  intro s hs
  refine ⟨some a, s.read token after, ?_, rfl, rfl, rfl⟩
  unfold accept?
  rw [hs]
  simp only [h]
  rfl

theorem accepts_accept?_none (h : f token = none) :
    Accepts (accept? f) (token :: after) (token :: after) (· = none) := by
  intro s hs
  refine ⟨none, s, ?_, hs, rfl, rfl⟩
  unfold accept?
  rw [hs]
  simp only [h]

theorem accepts_accept (h : token.kind = .symbol symbol) :
    Accepts (accept symbol) (token :: after) after (· = true) :=
  (accepts_accept? (only_eq_some.mpr ⟨h, rfl⟩)).bindTo (.pure rfl)

theorem accepts_accept_ne (h : token.kind ≠ .symbol symbol) :
    Accepts (accept symbol) (token :: after) (token :: after) (· = false) :=
  (accepts_accept?_none (only_eq_none.mpr h)).bindTo (.pure rfl)

theorem accepts_peek : Accepts peek (token :: after) (token :: after) (· = token) :=
  fun s hs => ⟨token, s, peek_eq_ok.mpr ⟨rfl, after, hs⟩, hs, rfl, rfl⟩

theorem accepts_check (h : token.kind = .symbol symbol) :
    Accepts (check symbol) (token :: after) (token :: after) (· = true) := by
  refine accepts_peek.bindTo (.pure ?_)
  rw [only_eq_some.mpr ⟨h, rfl⟩]
  rfl

theorem accepts_check_ne (h : token.kind ≠ .symbol symbol) :
    Accepts (check symbol) (token :: after) (token :: after) (· = false) := by
  refine accepts_peek.bindTo (.pure ?_)
  rw [only_eq_none.mpr h]
  rfl

theorem accepts_atEnd {ended : Bool} (h : token.kind.isEnd = ended) :
    Accepts atEnd (token :: after) (token :: after) (· = ended) := accepts_peek.bindTo (.pure h)

theorem accepts_require (h : f token = some a) :
    Accepts (require f what) (token :: after) after (· = a) :=
  (accepts_accept? h).bindTo (.pure rfl)

theorem accepts_expect (h : token.kind = .symbol symbol) :
    Accepts (expect symbol what) (token :: after) after (· = token) :=
  accepts_require (only_eq_some.mpr ⟨h, rfl⟩)

theorem accepts_expectName (h : token.kind = .identifier) :
    Accepts (expectName what) (token :: after) after (· = token.toName) :=
  accepts_require (name?_eq_some.mpr ⟨h, rfl⟩)

theorem accepts_freshId : Accepts freshId after after fun _ => True :=
  fun s hs => ⟨s.next, { s with next := s.next + 1 }, rfl, hs, rfl, trivial⟩

end

section
variable {item : Parse α} {good : List Token → α → Prop} {same : α → α → Prop} {limit : Nat}

/-- Items are read up to a comma or a closing parenthesis. -/
def ListItem (limit : Nat) (item : Parse α) (good : List Token → α → Prop)
    (same : α → α → Prop) : Prop :=
  ∀ tokens a next rest, good tokens a → (tokens ++ next :: rest).length ≤ limit →
    next.kind = .symbol .comma ∨ next.kind = .symbol .rightParen →
      Accepts item (tokens ++ next :: rest) (next :: rest) (same · a)

theorem accepts_commaSeparated (hitem : ListItem limit item good same) (tooMany : SyntaxError.Cause)
    {tokens : List Token} {items : List α} (h : CommaSeparated good tokens items) (bound count : Nat)
    {closing : Token} {rest : List Token} (hclosing : closing.kind = .symbol .rightParen)
    (hlimit : (tokens ++ closing :: rest).length ≤ limit)
    (hbound : (tokens ++ closing :: rest).length ≤ bound) (hcount : count + items.length ≤ maxItems) :
    Accepts (commaSeparated tooMany item bound count) (tokens ++ closing :: rest) (closing :: rest)
      (List.Forall₂ same · items) := by
  induction h generalizing bound count with
  | single only =>
    cases bound with
    | zero => simp at hbound
    | succ bound =>
      have hfew : ¬ maxItems ≤ count := by
        rw [List.length_singleton] at hcount
        omega
      unfold commaSeparated
      rw [if_neg hfew]
      refine (hitem _ _ _ _ only hlimit (.inr hclosing)).bind fun a ha => ?_
      refine (accepts_accept_ne (by rw [hclosing]; simp)).bindTo (.pure ?_)
      exact .cons ha .nil
  | @cons tokens others comma first as hfirst hcomma _ ih =>
    cases bound with
    | zero => simp at hbound
    | succ bound =>
      simp only [List.length_append, List.length_cons] at hlimit hbound hcount
      have hfew : ¬ maxItems ≤ count := by omega
      unfold commaSeparated
      rw [if_neg hfew, List.append_assoc, List.cons_append]
      refine (hitem _ _ _ _ hfirst ?_ (.inl hcomma)).bind fun a ha => ?_
      · simp only [List.length_append, List.length_cons]
        omega
      refine (accepts_accept hcomma).bindTo ?_
      refine (ih bound (count + 1) ?_ ?_ (by omega)).bind fun as has => .pure (.cons ha has)
      · simp only [List.length_append, List.length_cons]
        omega
      · simp only [List.length_append, List.length_cons]
        omega

theorem accepts_listItems (hitem : ListItem limit item good same)
    (hstarts : ∀ tokens a, good tokens a →
      ∃ token rest, tokens = token :: rest ∧ token.kind ≠ .symbol .rightParen)
    (tooMany : SyntaxError.Cause) {tokens : List Token} {items : List α} (h : Items good tokens items)
    {closing : Token} {rest : List Token} (hclosing : closing.kind = .symbol .rightParen)
    (hlimit : (tokens ++ closing :: rest).length ≤ limit) :
    Accepts (listItems tooMany item limit) (tokens ++ closing :: rest) (closing :: rest)
      (List.Forall₂ same · items) := by
  cases h with
  | none => exact (accepts_check hclosing).bindTo (.pure .nil)
  | some hlist few =>
    have hfirst : ∃ token others, tokens = token :: others ∧ token.kind ≠ .symbol .rightParen := by
      cases hlist with
      | single only => exact hstarts _ _ only
      | cons first _ _ =>
        obtain ⟨token, others, rfl, hk⟩ := hstarts _ _ first
        exact ⟨token, _, rfl, hk⟩
    obtain ⟨token, others, rfl, hk⟩ := hfirst
    refine Accepts.bindTo (accepts_check_ne hk) ?_
    refine accepts_commaSeparated hitem tooMany hlist limit 0 hclosing hlimit hlimit ?_
    unfold maxItems
    omega

end

/-- How tight a level binds. -/
def rank : Level → Nat
  | .assignment => 0
  | .disjunction => 1
  | .conjunction => 2
  | .equality => 3
  | .comparison => 4
  | .term => 5
  | .factor => 6
  | .unary => 7
  | .call => 8
  | .primary => 9

/-- The level at which the symbol goes on with an expression that stands before it. -/
def continuation? : Symbol → Option Level
  | .leftParen | .dot => some .call
  | .slash | .star => some .factor
  | .minus | .plus => some .term
  | .greater | .greaterEqual | .less | .lessEqual => some .comparison
  | .bangEqual | .equalEqual => some .equality
  | .kwAnd => some .conjunction
  | .kwOr => some .disjunction
  | .equal => some .assignment
  | _ => none

/-- The next token does not go on with an expression of the level. -/
def Ends (level : Level) (after : List Token) : Prop :=
  ∃ next rest, after = next :: rest ∧ ∀ symbol other, next.kind = .symbol symbol →
    continuation? symbol = some other → rank other < rank level

theorem Ends.mono {level level' : Level} {after : List Token} (h : Ends level after)
    (hrank : rank level ≤ rank level') : Ends level' after := by
  obtain ⟨next, rest, rfl, hnext⟩ := h
  exact ⟨next, rest, rfl, fun symbol other hk ho => Nat.lt_of_lt_of_le (hnext symbol other hk ho) hrank⟩

theorem ends_of_continuation? {level : Level} {next : Token} {rest : List Token} {symbol : Symbol}
    (hk : next.kind = .symbol symbol)
    (h : ∀ other, continuation? symbol = some other → rank other < rank level) :
    Ends level (next :: rest) := by
  refine ⟨next, rest, rfl, fun symbol' other hk' ho => ?_⟩
  rw [hk, Kind.symbol.injEq] at hk'
  subst hk'
  exact h other ho

/-- A symbol that does not go on with any expression ends one of every level. -/
theorem ends_of_none {level : Level} {next : Token} {rest : List Token} {symbol : Symbol}
    (hk : next.kind = .symbol symbol) (h : continuation? symbol = none) :
    Ends level (next :: rest) :=
  ends_of_continuation? hk fun other ho => by rw [h] at ho; exact nomatch ho

theorem ne_symbol_of_ends {level : Level} {next : Token} {rest : List Token} {symbol : Symbol}
    (h : Ends level (next :: rest)) {other : Level} (hsymbol : continuation? symbol = some other)
    (hrank : rank level ≤ rank other) : next.kind ≠ .symbol symbol := by
  intro hk
  obtain ⟨_, _, heq, hnext⟩ := h
  cases heq
  have hlt := hnext symbol other hk hsymbol
  omega

theorem continuation?_of_operator? {level : Level} {symbol : Symbol}
    {build : Nat → Expr → Expr → Expr} (h : level.operator? symbol = some build) :
    continuation? symbol = some level := by
  unfold Level.operator? at h
  split at h <;> first | rfl | exact nomatch h

theorem rank_of_operand? {level operands : Level} (h : level.operand? = some operands) :
    rank operands = rank level + 1 := by
  cases level <;> cases h <;> rfl

/-- The step reads every expression of the level, if at most `bound` tokens are left. -/
def Takes (bound : Nat) (step : Parse Expr) (level : Level) : Prop :=
  ∀ tokens e after, Expression level tokens e → (tokens ++ after).length ≤ bound →
    Ends level after → Accepts step (tokens ++ after) after (·.unnumbered = e.unnumbered)

theorem eq_variable_of_unnumbered {e : Expr} {id : NodeId} {name : Name}
    (h : e.unnumbered = (Expr.variable id name).unnumbered) : ∃ id', e = .variable id' name := by
  cases e <;> simp only [Expr.unnumbered, reduceCtorEq] at h
  cases h
  exact ⟨_, rfl⟩

theorem eq_get_of_unnumbered {e object : Expr} {name : Name}
    (h : e.unnumbered = (Expr.get object name).unnumbered) :
    ∃ o, e = .get o name ∧ o.unnumbered = object.unnumbered := by
  cases e <;> simp only [Expr.unnumbered, reduceCtorEq] at h
  obtain ⟨hobject, rfl⟩ := Expr.get.inj h
  exact ⟨_, rfl, hobject⟩

theorem literal?_of_constant {token : Token} {value : Literal} (h : Constant token.kind value) :
    literal? token = some value := by
  obtain ⟨kind, lexeme, line⟩ := token
  cases h <;> rfl

theorem listItem_of_takes {limit : Nat} {nested : Parse Expr}
    (hnested : Takes limit nested .assignment) :
    ListItem limit nested (Expression .assignment) fun e e' => e.unnumbered = e'.unnumbered := by
  intro tokens e next rest h hlength hnext
  refine hnested tokens e (next :: rest) h hlength ?_
  rcases hnext with hk | hk
  · exact ends_of_none hk rfl
  · exact ends_of_none hk rfl

theorem starts_ne {level : Level} {tokens : List Token} {e : Expr} (h : Expression level tokens e)
    {symbol : Symbol} (hsymbol : startsExpression (.symbol symbol) = false) :
    ∃ token rest, tokens = token :: rest ∧ token.kind ≠ .symbol symbol := by
  obtain ⟨token, rest, rfl, hstarts⟩ := h.starts
  refine ⟨token, rest, rfl, fun hk => ?_⟩
  rw [hk, hsymbol] at hstarts
  exact nomatch hstarts

theorem unary?_of_constant {token : Token} {value : Literal} (h : Constant token.kind value) :
    unary? token = none := by
  obtain ⟨kind, lexeme, line⟩ := token
  cases h <;> rfl

/-- No operator stands at the start of a primary expression. -/
theorem primary_starts {tokens : List Token} {e : Expr} (h : Expression .primary tokens e) :
    ∃ token rest, tokens = token :: rest ∧ unary? token = none := by
  cases h with
  | operations tighter _ _ => exact nomatch tighter
  | literal constant => exact ⟨_, _, rfl, unary?_of_constant constant⟩
  | this isThis => exact ⟨_, _, rfl, by simp [unary?, symbol?, isThis, unaryOp]⟩
  | reference isName => exact ⟨_, _, rfl, by simp [unary?, symbol?, isName]⟩
  | grouping opens _ _ => exact ⟨_, _, rfl, by simp [unary?, symbol?, opens, unaryOp]⟩
  | super isSuper _ _ => exact ⟨_, _, rfl, by simp [unary?, symbol?, isSuper, unaryOp]⟩

section
variable {nested : Parse Expr} {limit : Nat} (hnested : Takes limit nested .assignment)
include hnested

theorem takes_primary : Takes (limit + 1) (primary nested) .primary := by
  intro tokens e after h hlength _
  cases h with
  | operations tighter _ _ => exact nomatch tighter
  | literal constant => exact (accepts_accept? (literal?_of_constant constant)).bindTo (.pure rfl)
  | super isSuper isDot isName =>
    refine (accepts_accept?_none (by simp [literal?, isSuper])).bindTo ?_
    refine (accepts_accept? (only_eq_some.mpr ⟨isSuper, rfl⟩)).bindTo ?_
    refine (accepts_expect isDot).bindTo ((accepts_expectName isName).bindTo ?_)
    exact accepts_freshId.bind fun id _ => .pure rfl
  | this isThis =>
    refine (accepts_accept?_none (by simp [literal?, isThis])).bindTo ?_
    refine (accepts_accept?_none (only_eq_none.mpr (by simp [isThis]))).bindTo ?_
    refine (accepts_accept? (only_eq_some.mpr ⟨isThis, rfl⟩)).bindTo ?_
    exact accepts_freshId.bind fun id _ => .pure rfl
  | reference isName =>
    refine (accepts_accept?_none (by simp [literal?, isName])).bindTo ?_
    refine (accepts_accept?_none (only_eq_none.mpr (by simp [isName]))).bindTo ?_
    refine (accepts_accept?_none (only_eq_none.mpr (by simp [isName]))).bindTo ?_
    refine (accepts_accept? (name?_eq_some.mpr ⟨isName, rfl⟩)).bindTo ?_
    exact accepts_freshId.bind fun id _ => .pure rfl
  | @grouping opening closing tokens inner opens hinner closes =>
    simp only [List.cons_append, List.append_assoc, List.nil_append] at hlength ⊢
    refine (accepts_accept?_none (by simp [literal?, opens])).bindTo ?_
    refine (accepts_accept?_none (only_eq_none.mpr (by simp [opens]))).bindTo ?_
    refine (accepts_accept?_none (only_eq_none.mpr (by simp [opens]))).bindTo ?_
    refine (accepts_accept?_none (by simp [name?, opens])).bindTo ?_
    refine (accepts_accept opens).bindTo ?_
    refine (hnested tokens inner (closing :: after) hinner ?_ (ends_of_none closes rfl)).bind
      fun e he => ?_
    · exact Nat.le_of_succ_le_succ hlength
    refine (accepts_expect closes).bindTo (.pure ?_)
    simp only [Expr.unnumbered, he]

theorem accepts_finishCall {tokens rest : List Token} {arguments : List Expr} {closing : Token}
    (items : Items (Expression .assignment) tokens arguments)
    (closes : closing.kind = .symbol .rightParen)
    (hlimit : (tokens ++ closing :: rest).length ≤ limit) {first callee : Expr}
    (hfirst : first.unnumbered = callee.unnumbered) :
    Accepts (finishCall limit nested first) (tokens ++ closing :: rest) rest
      (·.unnumbered = (Expr.call callee closing.line arguments).unnumbered) := by
  have hlist := accepts_listItems (listItem_of_takes hnested) (fun _ _ he => starts_ne he rfl)
    .tooManyArguments items closes hlimit
  refine hlist.bind fun as has => (accepts_expect closes).bindTo (.pure ?_)
  simp only [Expr.unnumbered, hfirst, Expr.listUnnumbered_eq has]

/-- Calls and properties are read one after another, whatever the numbers of the tree are from which
they start. -/
theorem accepts_callSuffixes {callee e : Expr} {tokens : List Token} (h : Suffixes callee tokens e)
    {after : List Token} (hends : Ends .call after) (bound : Nat) {first : Expr}
    (hlimit : (tokens ++ after).length ≤ limit) (hbound : (tokens ++ after).length ≤ bound)
    (hfirst : first.unnumbered = callee.unnumbered) :
    Accepts (callSuffixes limit nested bound first) (tokens ++ after) after
      (·.unnumbered = e.unnumbered) := by
  obtain ⟨next, others, rfl, hnext⟩ := id hends
  cases bound with
  | zero => simp at hbound
  | succ bound =>
  match h with
  | .nil =>
    refine (accepts_accept_ne (ne_symbol_of_ends hends rfl (Nat.le_refl _))).bindTo ?_
    refine (accepts_accept_ne (ne_symbol_of_ends hends rfl (Nat.le_refl _))).bindTo ?_
    exact .pure hfirst
  | @Suffixes.call _ _ opening closing tokens rest arguments opens items closes suffixes =>
    have htokens : opening :: (tokens ++ closing :: rest) ++ next :: others =
        opening :: (tokens ++ closing :: (rest ++ next :: others)) := by simp
    rw [htokens] at hlimit hbound ⊢
    simp only [List.length_cons, List.length_append] at hlimit hbound
    refine (accepts_accept opens).bindTo ?_
    refine (accepts_finishCall hnested items closes ?_ hfirst).bind fun called hcalled => ?_
    · simp only [List.length_cons, List.length_append]
      omega
    refine accepts_callSuffixes suffixes hends bound ?_ ?_ hcalled
    · simp only [List.length_cons, List.length_append]
      omega
    · simp only [List.length_cons, List.length_append]
      omega
  | @Suffixes.property _ _ dot name rest isDot isName suffixes =>
    simp only [List.cons_append, List.length_cons, List.length_append] at hlimit hbound
    refine (accepts_accept_ne (by rw [isDot]; simp)).bindTo ?_
    refine (accepts_accept isDot).bindTo ((accepts_expectName isName).bindTo ?_)
    refine accepts_callSuffixes suffixes hends bound ?_ ?_ ?_
    · simp only [List.length_cons, List.length_append]
      omega
    · simp only [List.length_cons, List.length_append]
      omega
    · simp only [Expr.unnumbered, hfirst]

theorem takes_call : Takes (limit + 1) (call limit nested) .call := by
  intro tokens e after h hlength hends
  cases h with
  | operations tighter _ _ => exact nomatch tighter
  | @suffixed first rest start _ hstart suffixes =>
    rw [List.append_assoc] at hlength ⊢
    have hprimary : Ends .primary (rest ++ after) := by
      match suffixes with
      | .nil => exact hends.mono (by decide)
      | .call opens _ _ _ => exact ends_of_continuation? opens fun _ ho => by cases ho; decide
      | .property isDot _ _ => exact ends_of_continuation? isDot fun _ ho => by cases ho; decide
    refine (takes_primary hnested _ _ _ hstart hlength hprimary).bind fun first hfirst => ?_
    obtain ⟨token, tail, rfl, -⟩ := hstart.starts
    simp only [List.length_cons, List.length_append] at hlength
    refine accepts_callSuffixes hnested suffixes hends limit ?_ ?_ hfirst
    · rw [List.length_append]
      omega
    · rw [List.length_append]
      omega

end

theorem takes_unary {operand : Parse Expr} {limit : Nat} (hoperand : Takes limit operand .call)
    {tokens : List Token} {e : Expr} (h : Expression .unary tokens e) {after : List Token}
    (hends : Ends .unary after) (bound : Nat) (hlimit : (tokens ++ after).length ≤ limit)
    (hbound : (tokens ++ after).length ≤ bound + 1) :
    Accepts (unary operand bound) (tokens ++ after) after (·.unnumbered = e.unnumbered) := by
  obtain ⟨next, others, rfl, hnext⟩ := id hends
  cases bound with
  | zero =>
    obtain ⟨token, tail, rfl, -⟩ := h.starts
    simp at hbound
  | succ bound =>
  match h with
  | .operations tighter _ _ => exact nomatch tighter
  | .not isOperator operand =>
    have hbuild := unary?_eq_some.mpr (.inl ⟨isOperator, rfl⟩)
    refine (accepts_accept? hbuild).bindTo ?_
    refine (takes_unary hoperand operand hends bound (Nat.le_of_succ_le hlimit)
      (Nat.le_of_succ_le_succ hbound)).bind fun e he => .pure ?_
    simp only [Expr.unnumbered, he]
  | .negate isOperator operand =>
    have hbuild := unary?_eq_some.mpr (.inr ⟨isOperator, rfl⟩)
    refine (accepts_accept? hbuild).bindTo ?_
    refine (takes_unary hoperand operand hends bound (Nat.le_of_succ_le hlimit)
      (Nat.le_of_succ_le_succ hbound)).bind fun e he => .pure ?_
    simp only [Expr.unnumbered, he]
  | .bare operand =>
    have hnone : ∃ token rest, tokens = token :: rest ∧ unary? token = none := by
      cases operand with
      | operations tighter _ _ => exact nomatch tighter
      | suffixed start _ =>
        obtain ⟨token, rest, rfl, hnone⟩ := primary_starts start
        exact ⟨token, _, rfl, hnone⟩
    obtain ⟨token, rest, rfl, hnone⟩ := hnone
    refine (accepts_accept?_none hnone).bindTo ?_
    exact hoperand _ _ _ operand hlimit (hends.mono (by decide))

section
variable {level operands : Level} {operator? : Token → Option Combine} {operand : Parse Expr}
variable {limit : Nat} (hoperators : OperatorsOf level operator?) (hlevel : level.operand? = some operands)
variable (hoperand : Takes (limit + 1) operand operands)
include hoperators hlevel

omit hlevel in
theorem operator?_of_ends {next : Token} {rest : List Token} (h : Ends level (next :: rest)) :
    operator? next = none := by
  rw [Option.eq_none_iff_forall_ne_some]
  intro combine hcombine
  obtain ⟨symbol, build, hk, hbuild, -⟩ := (hoperators next combine).mp hcombine
  exact ne_symbol_of_ends h (continuation?_of_operator? hbuild) (Nat.le_refl _) hk

omit hoperators in
/-- An operand ends before an operator of its level, and where the whole ends. -/
theorem ends_operations {left e : Expr} {tokens after : List Token}
    (h : Operations level operands left tokens e) (hends : Ends level after) :
    Ends operands (tokens ++ after) := by
  have hrank := rank_of_operand? hlevel
  match h with
  | .nil => exact hends.mono (by omega)
  | .cons written isOperator _ _ =>
    refine ends_of_continuation? written fun other ho => ?_
    rw [continuation?_of_operator? isOperator, Option.some.injEq] at ho
    subst ho
    omega

include hoperand

theorem accepts_operations {left e : Expr} {tokens : List Token}
    (h : Operations level operands left tokens e) {after : List Token} (hends : Ends level after)
    (bound : Nat) {first : Expr} (hlimit : (tokens ++ after).length ≤ limit)
    (hbound : (tokens ++ after).length ≤ bound) (hfirst : first.unnumbered = left.unnumbered) :
    Accepts (operations operator? operand bound first) (tokens ++ after) after
      (·.unnumbered = e.unnumbered) := by
  obtain ⟨next, others, rfl, hnext⟩ := id hends
  cases bound with
  | zero => simp at hbound
  | succ bound =>
  match h with
  | .nil =>
    exact (accepts_accept?_none (operator?_of_ends hoperators hends)).bindTo (.pure hfirst)
  | @Operations.cons _ _ operator symbol tokens rest build _ right _ written isOperator hright
      operations =>
    rw [List.cons_append, List.append_assoc] at hlimit hbound ⊢
    have hcombine := (hoperators operator (build operator.line)).mpr
      ⟨symbol, build, written, isOperator, rfl⟩
    refine (accepts_accept? hcombine).bindTo ?_
    have hrest := ends_operations hlevel operations hends
    refine (hoperand tokens right (rest ++ next :: others) hright ?_ hrest).bind fun r hr => ?_
    · rw [List.length_cons] at hlimit
      omega
    simp only [List.length_cons, List.length_append] at hlimit hbound
    refine accepts_operations operations hends bound ?_ ?_ ?_
    · simp only [List.length_cons, List.length_append]
      omega
    · simp only [List.length_cons, List.length_append]
      omega
    · rcases operates_of_operator? isOperator with ⟨op, rfl⟩ | ⟨op, rfl⟩
      · simp only [Expr.unnumbered, hfirst, hr]
      · simp only [Expr.unnumbered, hfirst, hr]

theorem takes_leftAssociative :
    Takes (limit + 1) (leftAssociative operator? operand limit) level := by
  intro tokens e after h hlength hends
  have hoperations : ∃ first rest left, tokens = first ++ rest ∧ Expression operands first left ∧
      Operations level operands left rest e := by
    cases h with
    | operations tighter start others =>
      rw [hlevel, Option.some.injEq] at tighter
      subst tighter
      exact ⟨_, _, _, rfl, start, others⟩
    | literal _ | this _ | reference _ | grouping _ _ _ | super _ _ _ | suffixed _ _ | not _ _
    | negate _ _ | bare _ | assign _ _ _ | set _ _ _ _ _ | value _ => exact nomatch hlevel
  obtain ⟨first, rest, left, rfl, hfirst, others⟩ := hoperations
  rw [List.append_assoc] at hlength ⊢
  have hrest := ends_operations hlevel others hends
  refine (hoperand first left (rest ++ after) hfirst hlength hrest).bind fun e he => ?_
  obtain ⟨token, tail, rfl, -⟩ := hfirst.starts
  simp only [List.length_cons, List.length_append] at hlength
  refine accepts_operations hoperators hlevel hoperand others hends limit ?_ ?_ he
  · rw [List.length_append]
    omega
  · rw [List.length_append]
    omega

end

section
variable {nested : Parse Expr} {limit : Nat} (hnested : Takes limit nested .assignment)
include hnested

theorem takes_factor : Takes (limit + 1) (factor limit nested) .factor :=
  takes_leftAssociative operatorsOf_factor rfl fun _ _ _ h hlength hends =>
    takes_unary (takes_call hnested) h hends limit hlength hlength

theorem takes_term : Takes (limit + 1) (term limit nested) .term :=
  takes_leftAssociative operatorsOf_term rfl (takes_factor hnested)

theorem takes_comparison : Takes (limit + 1) (comparison limit nested) .comparison :=
  takes_leftAssociative operatorsOf_comparison rfl (takes_term hnested)

theorem takes_equality : Takes (limit + 1) (equality limit nested) .equality :=
  takes_leftAssociative operatorsOf_equality rfl (takes_comparison hnested)

theorem takes_conjunction : Takes (limit + 1) (conjunction limit nested) .conjunction :=
  takes_leftAssociative operatorsOf_conjunction rfl (takes_equality hnested)

theorem takes_disjunction : Takes (limit + 1) (disjunction limit nested) .disjunction :=
  takes_leftAssociative operatorsOf_disjunction rfl (takes_conjunction hnested)

/-- A target is read as a disjunction, which ends before the equals sign. -/
theorem accepts_target {target tokens : List Token} {equals : Token} {object value : Expr}
    {after : List Token} (htarget : Expression .disjunction target object)
    (isEqual : equals.kind = .symbol .equal) (hvalue : Expression .assignment tokens value)
    (hlength : (target ++ equals :: (tokens ++ after)).length ≤ limit + 1)
    (hends : Ends .assignment after) {good : Expr → Prop}
    (hgood : ∀ object' value', object'.unnumbered = object.unnumbered →
      value'.unnumbered = value.unnumbered →
        Accepts (assignTo object' equals value') after after good) :
    Accepts (assignment limit nested) (target ++ equals :: (tokens ++ after)) after good := by
  have hequal : Ends .disjunction (equals :: (tokens ++ after)) :=
    ends_of_continuation? isEqual fun _ ho => by cases ho; decide
  refine (takes_disjunction hnested _ _ _ htarget hlength hequal).bind fun object' hobject => ?_
  refine (accepts_accept? (only_eq_some.mpr ⟨isEqual, rfl⟩)).bindTo ?_
  obtain ⟨token, tail, rfl, -⟩ := htarget.starts
  simp only [List.length_cons, List.length_append] at hlength
  refine (hnested tokens value after hvalue ?_ hends).bind fun value' hvalue' => ?_
  · rw [List.length_append]
    omega
  exact hgood object' value' hobject hvalue'

theorem takes_assignment : Takes (limit + 1) (assignment limit nested) .assignment := by
  intro tokens e after h hlength hends
  cases h with
  | operations tighter _ _ => exact nomatch tighter
  | @assign name equals tokens id value isName isEqual assigned =>
    have htarget : Expression .disjunction [name] (.variable id name.toName) := by
      rw [← List.append_nil [name]]
      exact (Expression.suffixed (.reference isName) .nil).disjunction_of_call
    refine accepts_target hnested htarget isEqual assigned hlength hends fun object' value' ho hv => ?_
    obtain ⟨id', rfl⟩ := eq_variable_of_unnumbered ho
    refine accepts_freshId.bind fun id'' _ => .pure ?_
    simp only [Expr.unnumbered, hv]
  | @set target tokens dot name equals object value holder isDot isName isEqual assigned =>
    have htarget := (holder.property isDot isName).disjunction_of_call
    have htokens : (target ++ dot :: name :: equals :: tokens) ++ after =
        (target ++ [dot, name]) ++ equals :: (tokens ++ after) := by simp
    rw [htokens] at hlength ⊢
    refine accepts_target hnested htarget isEqual assigned hlength hends fun object' value' ho hv => ?_
    obtain ⟨o, rfl, hobject⟩ := eq_get_of_unnumbered ho
    refine .pure ?_
    simp only [Expr.unnumbered, hobject, hv]
  | value operand =>
    refine (takes_disjunction hnested _ _ _ operand hlength (hends.mono (by decide))).bind
      fun e he => ?_
    obtain ⟨next, others, rfl, hnext⟩ := id hends
    have hne : next.kind ≠ .symbol .equal := ne_symbol_of_ends hends rfl (Nat.le_refl _)
    exact (accepts_accept?_none (only_eq_none.mpr hne)).bindTo (.pure he)

end

theorem takes_expression (depth : Nat) : Takes depth (expression depth) .assignment := by
  induction depth with
  | zero =>
    intro tokens e after h hlength _
    obtain ⟨token, rest, rfl, -⟩ := h.starts
    simp at hlength
  | succ depth ih => exact takes_assignment ih

end Lox.Parser
