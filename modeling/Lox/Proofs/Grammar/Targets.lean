import Lox.Proofs.Grammar.Rules

/-!
# Assignment targets

The grammar lets a name or a property stand before an equals sign. Both are calls; a disjunction
whose tree is a variable or a property is one of the two. So the target may as well be read as a
disjunction of which only the tree is looked at.
-/
namespace Lox.Grammar

theorem Suffixes.append {a b c : Expr} {first second : List Token} (h : Suffixes a first b)
    (h' : Suffixes b second c) : Suffixes a (first ++ second) c := by
  match h with
  | .nil => exact h'
  | .call opens items closes others =>
    simpa using Suffixes.call opens items closes (others.append h')
  | .property isDot isName others => exact .property isDot isName (others.append h')

/-- A property of a call is a call. -/
theorem Expression.property {target : List Token} {dot name : Token} {object : Expr}
    (holder : Expression .call target object) (isDot : dot.kind = .symbol .dot)
    (isName : name.kind = .identifier) :
    Expression .call (target ++ [dot, name]) (.get object name.toName) := by
  cases holder with
  | suffixed start suffixes =>
    rw [List.append_assoc]
    exact .suffixed start (suffixes.append (.property isDot isName .nil))
  | operations tighter _ _ => exact nomatch tighter

/-- An operand is an expression of its level without operators. -/
theorem Expression.lift {level operands : Level} {tokens : List Token} {e : Expr}
    (h : Expression operands tokens e) (tighter : level.operand? = some operands) :
    Expression level tokens e := by
  rw [← List.append_nil tokens]
  exact .operations tighter h .nil

theorem Expression.disjunction_of_call {tokens : List Token} {e : Expr}
    (h : Expression .call tokens e) : Expression .disjunction tokens e := by
  have hfactor := (Expression.bare h).lift (show Level.factor.operand? = _ from rfl)
  have hterm := hfactor.lift (show Level.term.operand? = _ from rfl)
  have hcomparison := hterm.lift (show Level.comparison.operand? = _ from rfl)
  have hequality := hcomparison.lift (show Level.equality.operand? = _ from rfl)
  have hconjunction := hequality.lift (show Level.conjunction.operand? = _ from rfl)
  exact hconjunction.lift rfl

/-- What an operator builds is neither a variable nor a property. -/
def Operates (build : Nat → Expr → Expr → Expr) : Prop :=
  (∃ op, build = .binary op) ∨ ∃ op, build = fun _ => .logical op

theorem operates_of_operator? {level : Level} {symbol : Symbol} {build : Nat → Expr → Expr → Expr}
    (h : level.operator? symbol = some build) : Operates build := by
  unfold Level.operator? at h
  split at h <;> cases h
  iterate 2 exact .inr ⟨_, rfl⟩
  all_goals exact .inl ⟨_, rfl⟩

theorem Operations.result {level operands : Level} {left e : Expr} {tokens : List Token}
    (h : Operations level operands left tokens e) :
    (tokens = [] ∧ e = left) ∨ ∃ build line l r, Operates build ∧ e = build line l r := by
  match h with
  | .nil => exact .inl ⟨rfl, rfl⟩
  | .cons _ isOperator _ others =>
    rcases others.result with ⟨-, rfl⟩ | h
    · exact .inr ⟨_, _, _, _, operates_of_operator? isOperator, rfl⟩
    · exact .inr h

/-- Trees that can be assigned to. -/
inductive Target : Expr → Prop
  | variable (id : NodeId) (name : Name) : Target (.variable id name)
  | get (object : Expr) (name : Name) : Target (.get object name)

theorem not_target_build {build : Nat → Expr → Expr → Expr} (h : Operates build) {line : Nat}
    {l r : Expr} : ¬ Target (build line l r) := by
  rcases h with ⟨op, rfl⟩ | ⟨op, rfl⟩
  · exact nofun
  · exact nofun

theorem ne_assignment_of_operand? {level operands : Level} (h : level.operand? = some operands) :
    operands ≠ .assignment := by
  rintro rfl
  cases level <;> exact nomatch h

/-- An expression that can be assigned to is a call, at whatever level it is found. -/
theorem Expression.call_of_target {level : Level} {tokens : List Token} {e : Expr}
    (h : Expression level tokens e) (hlevel : level ≠ .assignment) (he : Target e) :
    Expression .call tokens e := by
  match h with
  | .reference isName =>
    rw [← List.append_nil [_]]
    exact .suffixed (.reference isName) .nil
  | .suffixed start suffixes => exact .suffixed start suffixes
  | .bare operand => exact operand
  | .operations tighter start others =>
    have hstart := start.call_of_target (ne_assignment_of_operand? tighter)
    rcases others.result with ⟨rfl, rfl⟩ | ⟨build, line, l, r, hbuild, rfl⟩
    · rw [List.append_nil]
      exact hstart he
    · exact absurd he (not_target_build hbuild)
  | .literal _ | .this _ | .grouping _ _ _ | .super _ _ _ | .not _ _ | .negate _ _ => exact nomatch he
  | .assign _ _ _ | .set _ _ _ _ _ | .value _ => exact absurd rfl hlevel

theorem Suffixes.of_variable {e e' : Expr} {tokens : List Token} {id : NodeId} {name : Name}
    (h : Suffixes e tokens e') (he : e' = .variable id name) : tokens = [] ∧ e = e' := by
  match h with
  | .nil => exact ⟨rfl, rfl⟩
  | .call _ _ _ others => exact absurd ((others.of_variable he).2.trans he) (by simp)
  | .property _ _ others => exact absurd ((others.of_variable he).2.trans he) (by simp)

theorem Suffixes.of_get {e e' object : Expr} {tokens : List Token} {name : Name}
    (h : Suffixes e tokens e') (he : e' = .get object name) :
    (tokens = [] ∧ e = e') ∨
      ∃ front dot token, tokens = front ++ [dot, token] ∧ Suffixes e front object ∧
        dot.kind = .symbol .dot ∧ token.kind = .identifier ∧ name = token.toName := by
  match h with
  | .nil => exact .inl ⟨rfl, rfl⟩
  | .call opens items closes others =>
    rcases others.of_get he with ⟨-, heq⟩ | ⟨front, dot, token, rfl, hfront, hdot, htoken, hname⟩
    · exact absurd (heq.trans he) (by simp)
    · refine .inr ⟨_, dot, token, ?_, .call opens items closes hfront, hdot, htoken, hname⟩
      simp
  | .property isDot isName others =>
    rcases others.of_get he with ⟨rfl, heq⟩ | ⟨front, dot, token, rfl, hfront, hdot, htoken, hname⟩
    · cases heq.trans he
      exact .inr ⟨[], _, _, rfl, .nil, isDot, isName, rfl⟩
    · exact .inr ⟨_ :: _ :: front, dot, token, rfl, .property isDot isName hfront, hdot, htoken, hname⟩

/-- A disjunction with a variable for its tree is a name. -/
theorem Expression.of_variable {tokens : List Token} {id : NodeId} {name : Name}
    (h : Expression .disjunction tokens (.variable id name)) :
    ∃ token, tokens = [token] ∧ token.kind = .identifier ∧ name = token.toName := by
  cases h.call_of_target (by simp) (.variable id name) with
  | operations tighter _ _ => exact nomatch tighter
  | suffixed start suffixes =>
    obtain ⟨rfl, rfl⟩ := suffixes.of_variable rfl
    cases start with
    | reference isName => exact ⟨_, rfl, isName, rfl⟩
    | operations tighter _ _ => exact nomatch tighter

/-- A disjunction with a property for its tree is a call before a dot and a name. -/
theorem Expression.of_get {tokens : List Token} {object : Expr} {name : Name}
    (h : Expression .disjunction tokens (.get object name)) :
    ∃ target dot token, tokens = target ++ [dot, token] ∧ Expression .call target object ∧
      dot.kind = .symbol .dot ∧ token.kind = .identifier ∧ name = token.toName := by
  cases h.call_of_target (by simp) (.get object name) with
  | operations tighter _ _ => exact nomatch tighter
  | suffixed start suffixes =>
    rcases suffixes.of_get rfl with ⟨rfl, rfl⟩ | ⟨front, dot, token, rfl, hfront, hdot, htoken, hname⟩
    · cases start with
      | operations tighter _ _ => exact nomatch tighter
    · exact ⟨_, dot, token, (List.append_assoc _ _ _).symm, .suffixed start hfront, hdot, htoken, hname⟩

end Lox.Grammar
