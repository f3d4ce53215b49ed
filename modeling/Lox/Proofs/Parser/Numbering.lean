import Lox.Proofs.Parser.Safety
import Lox.Proofs.Syntax.WellFormed
import Lox.Proofs.Token.Lexemes

/-!
# The trees that parsing builds

Whatever errors are recorded, the trees that are read from proper tokens are well formed. A step
numbers the references of its result by numbers that no step before it gave out, so all references
of a program have different numbers. A number that is given out for a reference which is then
dropped stays unused.
-/
namespace Lox
namespace Parser
variable {α : Type}

/-- The result of the step fits the numbers given out, if the tokens are proper. -/
def Gives (step : Parse α) (fits : Nat → Nat → α → Prop) : Prop :=
  ∀ s a s', (∀ token ∈ s.rest, token.Proper) → step s = .ok a s' → fits s.next s'.next a

/-- The step is safe and reads an expression whose references it numbers. -/
structure GivesExpr (step : Parse Expr) : Prop where
  safe : Safe step
  numbered : Gives step fun lo hi e => Numbered lo hi e.references

theorem ordinary_of_proper {token : Token} (h : token.Proper) (hk : token.kind = .identifier) :
    Name.Ordinary ⟨token.lexeme, token.line⟩ :=
  ⟨h .kwThis (by decide) hk, h .kwSuper (by decide) hk⟩

theorem Follows.proper {s s' : State} (h : Follows s s') (hp : ∀ token ∈ s.rest, token.Proper) :
    ∀ token ∈ s'.rest, token.Proper := fun token ht => hp token (h.mem ht)

theorem next_accept? {f : Token → Option α} {s s' : State} {o : Option α}
    (h : accept? f s = .ok o s') : s'.next = s.next := by
  cases o with
  | some a =>
    obtain ⟨token, rest, -, -, rfl⟩ := accept?_some h
    rfl
  | none => rw [← (accept?_none h).1]

theorem next_accept {symbol : Symbol} {s s' : State} {b : Bool} (h : accept symbol s = .ok b s') :
    s'.next = s.next := by
  obtain ⟨o, t, ho, hpure⟩ := bind_eq_ok.mp h
  rw [pure_eq_ok] at hpure
  rw [← hpure.2, next_accept? ho]

theorem next_expect {symbol : Symbol} {what : String} {s s' : State} {token : Token}
    (h : expect symbol what s = .ok token s') : s'.next = s.next := by
  obtain ⟨rest, -, -, rfl⟩ := expect_eq_ok h
  rfl

theorem next_expectName {what : String} {s s' : State} {name : Name}
    (h : expectName what s = .ok name s') : s'.next = s.next := by
  obtain ⟨token, rest, -, -, -, rfl⟩ := expectName_eq_ok h
  rfl

/-- A name that is read from proper tokens is ordinary. -/
theorem ordinary_expectName {what : String} {s s' : State} {name : Name}
    (hp : ∀ token ∈ s.rest, token.Proper) (h : expectName what s = .ok name s') :
    name.Ordinary := by
  obtain ⟨token, rest, hrest, hk, rfl, -⟩ := expectName_eq_ok h
  exact ordinary_of_proper (hp token (by simp [hrest])) hk

/-- The items of a list, each with what it needs of the numbers, in order. -/
inductive InOrder (fits : Nat → Nat → α → Prop) : Nat → Nat → List α → Prop
  | nil (n : Nat) : InOrder fits n n []
  | cons {lo mid hi : Nat} {first : α} {rest : List α} (hlo : lo ≤ mid) (hhi : mid ≤ hi)
      (hfirst : fits lo mid first) (hrest : InOrder fits mid hi rest) :
      InOrder fits lo hi (first :: rest)

section
variable {item : Parse α} {fits : Nat → Nat → α → Prop}
variable (hsafe : Safe item) (hitem : Gives item fits)
include hsafe hitem

theorem gives_commaSeparated (tooMany : SyntaxError.Cause) (limit count : Nat) :
    Gives (commaSeparated tooMany item limit count) (InOrder fits) := by
  induction limit generalizing count with
  | zero =>
    intro s items s' hp h
    obtain ⟨rfl, rfl⟩ := pure_eq_ok.mp h
    exact .nil _
  | succ limit ih =>
    have hrest (s : State) (items : List α) (s' : State) (hp : ∀ token ∈ s.rest, token.Proper)
        (h : (do
          let first ← item
          if ← accept .comma then
            return first :: (← commaSeparated tooMany item limit (count + 1))
          else
            return [first] : Parse (List α)) s = .ok items s') :
        InOrder fits s.next s'.next items := by
      obtain ⟨first, t, hfirst, h⟩ := bind_eq_ok.mp h
      obtain ⟨more, u, hmore, h⟩ := bind_eq_ok.mp h
      have hst := hsafe.ok hfirst
      have htu := (safe_accept _).ok hmore
      have hnext := next_accept hmore
      split at h
      · obtain ⟨others, v, hothers, h⟩ := bind_eq_ok.mp h
        obtain ⟨rfl, rfl⟩ := pure_eq_ok.mp h
        have huv := (safe_commaSeparated tooMany hsafe limit (count + 1)).ok hothers
        have hothers := ih (count + 1) u others v (htu.proper (hst.proper hp)) hothers
        rw [hnext] at hothers
        exact .cons hst.next_le (hnext ▸ huv.next_le) (hitem s first t hp hfirst) hothers
      · obtain ⟨rfl, rfl⟩ := pure_eq_ok.mp h
        rw [hnext]
        exact .cons hst.next_le (Nat.le_refl _) (hitem s first t hp hfirst) (.nil _)
    intro s items s' hp h
    unfold commaSeparated at h
    split at h
    · obtain ⟨token, t, hpeek, h⟩ := bind_eq_ok.mp h
      obtain ⟨_, u, hrecord, h⟩ := bind_eq_ok.mp h
      obtain ⟨rfl, -⟩ := peek_eq_ok.mp hpeek
      obtain rfl := record_eq_ok hrecord
      exact hrest { s with errors := s.errors.push ⟨tooMany, token⟩ } items s' hp h
    · exact hrest s items s' hp h

theorem gives_listItems (tooMany : SyntaxError.Cause) (limit : Nat) :
    Gives (listItems tooMany item limit) (InOrder fits) := by
  intro s items s' hp h
  obtain ⟨closed, t, hcheck, h⟩ := bind_eq_ok.mp h
  obtain ⟨rfl, -⟩ := check_eq_ok hcheck
  split at h
  · obtain ⟨rfl, rfl⟩ := pure_eq_ok.mp h
    exact .nil _
  · exact gives_commaSeparated hsafe hitem tooMany limit 0 _ items s' hp h

theorem gives_untilRightBrace (limit : Nat) : Gives (untilRightBrace item limit) (InOrder fits) := by
  induction limit with
  | zero =>
    intro s items s' hp h
    obtain ⟨rfl, rfl⟩ := pure_eq_ok.mp h
    exact .nil _
  | succ limit ih =>
    intro s items s' hp h
    obtain ⟨closed, t, hcheck, h⟩ := bind_eq_ok.mp h
    obtain ⟨rfl, -⟩ := check_eq_ok hcheck
    obtain ⟨ended, u, hended, h⟩ := bind_eq_ok.mp h
    obtain ⟨rfl, -⟩ := atEnd_eq_ok hended
    split at h
    · obtain ⟨rfl, rfl⟩ := pure_eq_ok.mp h
      exact .nil _
    · obtain ⟨first, v, hfirst, h⟩ := bind_eq_ok.mp h
      obtain ⟨others, w, hothers, h⟩ := bind_eq_ok.mp h
      obtain ⟨rfl, rfl⟩ := pure_eq_ok.mp h
      have huv := hsafe.ok hfirst
      exact .cons huv.next_le ((safe_untilRightBrace hsafe limit).ok hothers).next_le
        (hitem _ first v hp hfirst) (ih v others w (huv.proper hp) hothers)

end

theorem InOrder.le {fits : Nat → Nat → α → Prop} {lo hi : Nat} {items : List α}
    (h : InOrder fits lo hi items) : lo ≤ hi := by
  induction h with
  | nil n => exact Nat.le_refl n
  | cons hlo hhi hfirst hrest ih => omega

theorem InOrder.mem {fits : Nat → Nat → α → Prop} {lo hi : Nat} {items : List α}
    (h : InOrder fits lo hi items) {a : α} (ha : a ∈ items) : ∃ lo' hi', fits lo' hi' a := by
  induction h with
  | nil n => exact absurd ha (by simp)
  | cons hlo hhi hfirst hrest ih =>
    obtain rfl | ha := List.mem_cons.mp ha
    · exact ⟨_, _, hfirst⟩
    · exact ih ha

theorem numbered_listReferences {lo hi : Nat} {es : List Expr}
    (h : InOrder (fun lo hi e => Numbered lo hi e.references) lo hi es) :
    Numbered lo hi (Expr.references.listReferences es) := by
  induction h with
  | nil n => exact .nil
  | cons hlo hhi hfirst hrest ih => exact hfirst.append ih hlo hhi

theorem gives_superclassMethod (keyword : Token) :
    Gives (superclassMethod keyword) fun lo hi e => Numbered lo hi e.references := by
  intro s e s' hp h
  obtain ⟨dot, t, hdot, h⟩ := bind_eq_ok.mp h
  obtain ⟨method, u, hmethod, h⟩ := bind_eq_ok.mp h
  obtain ⟨id, v, hid, h⟩ := bind_eq_ok.mp h
  obtain ⟨rfl, rfl⟩ := freshId_eq_ok.mp hid
  obtain ⟨rfl, rfl⟩ := pure_eq_ok.mp h
  rw [← next_expect hdot, ← next_expectName hmethod]
  exact .singleton ⟨.super, u.next, ⟨method.text, keyword.line⟩⟩ trivial

section
variable {nested : Parse Expr} (hnested : GivesExpr nested)
include hnested

theorem gives_primary : GivesExpr (primary nested) := by
  refine ⟨safe_primary hnested.safe, ?_⟩
  intro s e s' hp h
  unfold primary at h
  obtain ⟨value, t, hvalue, h⟩ := bind_eq_ok.mp h
  cases value with
  | some value =>
    obtain ⟨rfl, rfl⟩ := pure_eq_ok.mp h
    exact .nil
  | none =>
  obtain ⟨rfl, -⟩ := accept?_none hvalue
  obtain ⟨keyword, t, hkeyword, h⟩ := bind_eq_ok.mp h
  cases keyword with
  | some keyword =>
    have hst := (safe_accept? (skips_only _)).ok hkeyword
    rw [← next_accept? hkeyword]
    exact gives_superclassMethod keyword t e s' (hst.proper hp) h
  | none =>
  obtain ⟨rfl, -⟩ := accept?_none hkeyword
  obtain ⟨keyword, t, hkeyword, h⟩ := bind_eq_ok.mp h
  cases keyword with
  | some keyword =>
    obtain ⟨id, u, hid, h⟩ := bind_eq_ok.mp h
    obtain ⟨rfl, rfl⟩ := freshId_eq_ok.mp hid
    obtain ⟨rfl, rfl⟩ := pure_eq_ok.mp h
    rw [← next_accept? hkeyword]
    exact .singleton ⟨.this, t.next, ⟨"this", keyword.line⟩⟩ rfl
  | none =>
  obtain ⟨rfl, -⟩ := accept?_none hkeyword
  obtain ⟨name, t, hname, h⟩ := bind_eq_ok.mp h
  cases name with
  | some name =>
    obtain ⟨id, u, hid, h⟩ := bind_eq_ok.mp h
    obtain ⟨rfl, rfl⟩ := freshId_eq_ok.mp hid
    obtain ⟨rfl, rfl⟩ := pure_eq_ok.mp h
    obtain ⟨token, rest, hrest, htoken, -⟩ := accept?_some hname
    obtain ⟨hk, rfl⟩ := name?_eq_some.mp htoken
    rw [← next_accept? hname]
    have hordinary := ordinary_of_proper (hp token (by simp [hrest])) hk
    exact .singleton ⟨.variable, t.next, ⟨token.lexeme, token.line⟩⟩ hordinary
  | none =>
  obtain ⟨rfl, -⟩ := accept?_none hname
  obtain ⟨paren, t, hparen, h⟩ := bind_eq_ok.mp h
  split at h
  · obtain ⟨inner, u, hinner, h⟩ := bind_eq_ok.mp h
    obtain ⟨close, v, hclose, h⟩ := bind_eq_ok.mp h
    obtain ⟨rfl, rfl⟩ := pure_eq_ok.mp h
    have hst := (safe_accept _).ok hparen
    rw [← next_accept hparen, next_expect hclose]
    exact hnested.numbered t inner u (hst.proper hp) hinner
  · exact absurd h fail_ne_ok

theorem gives_finishCall (limit : Nat) {callee : Expr} {s s' : State} {e : Expr} {lo : Nat}
    (hp : ∀ token ∈ s.rest, token.Proper) (hlo : lo ≤ s.next)
    (hcallee : Numbered lo s.next callee.references)
    (h : finishCall limit nested callee s = .ok e s') : Numbered lo s'.next e.references := by
  obtain ⟨arguments, t, harguments, h⟩ := bind_eq_ok.mp h
  obtain ⟨paren, u, hparen, h⟩ := bind_eq_ok.mp h
  obtain ⟨rfl, rfl⟩ := pure_eq_ok.mp h
  have hin := gives_listItems hnested.safe hnested.numbered _ limit s arguments t hp harguments
  rw [next_expect hparen]
  exact hcallee.append (numbered_listReferences hin) hlo hin.le

theorem gives_callSuffixes (bound limit : Nat) {callee : Expr} {s s' : State} {e : Expr} {lo : Nat}
    (hp : ∀ token ∈ s.rest, token.Proper) (hlo : lo ≤ s.next)
    (hcallee : Numbered lo s.next callee.references)
    (h : callSuffixes bound nested limit callee s = .ok e s') :
    Numbered lo s'.next e.references := by
  induction limit generalizing callee s with
  | zero =>
    obtain ⟨rfl, rfl⟩ := pure_eq_ok.mp h
    exact hcallee
  | succ limit ih =>
    obtain ⟨paren, t, hparen, h⟩ := bind_eq_ok.mp h
    have hst := (safe_accept _).ok hparen
    have ht := next_accept hparen
    split at h
    · obtain ⟨called, u, hcalled, h⟩ := bind_eq_ok.mp h
      have htu := (safe_finishCall hnested.safe bound callee).ok hcalled
      have hnumbered := gives_finishCall hnested bound (hst.proper hp) (ht ▸ hlo) (ht ▸ hcallee) hcalled
      refine ih (htu.proper (hst.proper hp)) ?_ hnumbered h
      exact Nat.le_trans hlo (Nat.le_trans hst.next_le htu.next_le)
    · obtain ⟨dot, u, hdot, h⟩ := bind_eq_ok.mp h
      have htu := (safe_accept _).ok hdot
      have hu := next_accept hdot
      split at h
      · obtain ⟨name, v, hname, h⟩ := bind_eq_ok.mp h
        have huv := (safe_expectName _).ok hname
        have hv := next_expectName hname
        have hnext : v.next = s.next := by rw [hv, hu, ht]
        have hget : Numbered lo v.next (Expr.get callee name).references := by
          rw [hnext]
          exact hcallee
        exact ih (huv.proper (htu.proper (hst.proper hp))) (hnext ▸ hlo) hget h
      · obtain ⟨rfl, rfl⟩ := pure_eq_ok.mp h
        rw [hu, ht]
        exact hcallee

theorem gives_call (limit : Nat) : GivesExpr (call limit nested) := by
  refine ⟨safe_call hnested.safe limit, ?_⟩
  intro s e s' hp h
  obtain ⟨callee, t, hcallee, h⟩ := bind_eq_ok.mp h
  have hst := (safe_primary hnested.safe).ok hcallee
  exact gives_callSuffixes hnested limit limit (hst.proper hp) hst.next_le
    ((gives_primary hnested).numbered s callee t hp hcallee) h

end

theorem references_unary? {token : Token} {build : Expr → Expr} (h : unary? token = some build)
    (e : Expr) : (build e).references = e.references := by
  obtain ⟨symbol, -, h⟩ := Option.bind_eq_some_iff.mp h
  obtain ⟨op, -, rfl⟩ := Option.map_eq_some_iff.mp h
  rfl

theorem gives_unary {operand : Parse Expr} (hoperand : GivesExpr operand) (limit : Nat) :
    GivesExpr (unary operand limit) := by
  refine ⟨safe_unary hoperand.safe limit, ?_⟩
  induction limit with
  | zero => exact hoperand.numbered
  | succ limit ih =>
    intro s e s' hp h
    obtain ⟨build, t, hbuild, h⟩ := bind_eq_ok.mp h
    have hst := (safe_accept? skips_unary?).ok hbuild
    cases build with
    | some build =>
      obtain ⟨inner, u, hinner, h⟩ := bind_eq_ok.mp h
      obtain ⟨rfl, rfl⟩ := pure_eq_ok.mp h
      obtain ⟨token, rest, -, htoken, -⟩ := accept?_some hbuild
      rw [references_unary? htoken, ← next_accept? hbuild]
      exact ih t inner u (hst.proper hp) hinner
    | none =>
      obtain ⟨rfl, -⟩ := accept?_none hbuild
      exact hoperand.numbered _ e s' hp h

/-- The operators keep the references of their operands, in order. -/
def Joins (operator? : Token → Option Combine) : Prop :=
  ∀ token combine, operator? token = some combine →
    ∀ l r, (combine l r).references = l.references ++ r.references

theorem joins_binary? (ops : Symbol → Option BinaryOp) : Joins (binary? ops) := by
  intro token combine h l r
  obtain ⟨symbol, -, h⟩ := Option.bind_eq_some_iff.mp h
  obtain ⟨op, -, rfl⟩ := Option.map_eq_some_iff.mp h
  rfl

theorem joins_logical? (symbol : Symbol) (op : LogicalOp) : Joins (logical? symbol op) := by
  intro token combine h l r
  obtain ⟨t, -, rfl⟩ := Option.map_eq_some_iff.mp h
  rfl

section
variable {operator? : Token → Option Combine} {operand : Parse Expr}
variable (hskips : Skips operator?) (hjoins : Joins operator?) (hoperand : GivesExpr operand)
include hskips hjoins hoperand

theorem gives_operations (limit : Nat) {left : Expr} {s s' : State} {e : Expr} {lo : Nat}
    (hp : ∀ token ∈ s.rest, token.Proper) (hlo : lo ≤ s.next)
    (hleft : Numbered lo s.next left.references)
    (h : operations operator? operand limit left s = .ok e s') :
    Numbered lo s'.next e.references := by
  induction limit generalizing left s with
  | zero =>
    obtain ⟨rfl, rfl⟩ := pure_eq_ok.mp h
    exact hleft
  | succ limit ih =>
    obtain ⟨combine, t, hcombine, h⟩ := bind_eq_ok.mp h
    have hst := (safe_accept? hskips).ok hcombine
    have ht := next_accept? hcombine
    cases combine with
    | some combine =>
      obtain ⟨right, u, hright, h⟩ := bind_eq_ok.mp h
      obtain ⟨token, rest, -, htoken, -⟩ := accept?_some hcombine
      have htu := hoperand.safe.ok hright
      have hnumbered := hoperand.numbered t right u (hst.proper hp) hright
      refine ih (htu.proper (hst.proper hp)) (Nat.le_trans hlo (ht ▸ htu.next_le)) ?_ h
      rw [hjoins token combine htoken]
      exact hleft.append (ht ▸ hnumbered) hlo (ht ▸ htu.next_le)
    | none =>
      obtain ⟨rfl, rfl⟩ := pure_eq_ok.mp h
      rw [ht]
      exact hleft

theorem gives_leftAssociative (limit : Nat) :
    GivesExpr (leftAssociative operator? operand limit) := by
  refine ⟨safe_leftAssociative hskips hoperand.safe limit, ?_⟩
  intro s e s' hp h
  obtain ⟨left, t, hleft, h⟩ := bind_eq_ok.mp h
  have hst := hoperand.safe.ok hleft
  exact gives_operations hskips hjoins hoperand limit (hst.proper hp) hst.next_le
    (hoperand.numbered s left t hp hleft) h

end

theorem gives_disjunction {nested : Parse Expr} (hnested : GivesExpr nested) (limit : Nat) :
    GivesExpr (disjunction limit nested) := by
  have hfactor : GivesExpr (factor limit nested) :=
    gives_leftAssociative (skips_binary? _) (joins_binary? _)
      (gives_unary (gives_call hnested limit) limit) limit
  have hterm : GivesExpr (term limit nested) :=
    gives_leftAssociative (skips_binary? _) (joins_binary? _) hfactor limit
  have hcomparison : GivesExpr (comparison limit nested) :=
    gives_leftAssociative (skips_binary? _) (joins_binary? _) hterm limit
  have hequality : GivesExpr (equality limit nested) :=
    gives_leftAssociative (skips_binary? _) (joins_binary? _) hcomparison limit
  have hconjunction : GivesExpr (conjunction limit nested) :=
    gives_leftAssociative (skips_logical? _ _) (joins_logical? _ _) hequality limit
  exact gives_leftAssociative (skips_logical? _ _) (joins_logical? _ _) hconjunction limit

/-- The number of a target that is assigned to is dropped, and the assignment gets a new one. -/
theorem gives_assignTo {target value : Expr} {equals : Token} {s s' : State} {e : Expr}
    {lo mid : Nat} (hlo : lo ≤ mid) (hmid : mid ≤ s.next) (htarget : Numbered lo mid target.references)
    (hvalue : Numbered mid s.next value.references)
    (h : assignTo target equals value s = .ok e s') : Numbered lo s'.next e.references := by
  unfold assignTo at h
  split at h
  · next id name =>
    obtain ⟨fresh, t, hfresh, h⟩ := bind_eq_ok.mp h
    obtain ⟨rfl, rfl⟩ := freshId_eq_ok.mp hfresh
    obtain ⟨rfl, rfl⟩ := pure_eq_ok.mp h
    have hname := htarget.proper ⟨.variable, id, name⟩ (List.mem_singleton_self _)
    have hassign := Numbered.singleton ⟨.assign, s.next, name⟩ hname
    exact (hassign.append_swap hvalue hmid (Nat.le_succ _)).mono hlo (Nat.le_refl _)
  · obtain ⟨rfl, rfl⟩ := pure_eq_ok.mp h
    exact htarget.append hvalue hlo hmid
  · obtain ⟨_, t, hrecord, h⟩ := bind_eq_ok.mp h
    obtain rfl := record_eq_ok hrecord
    obtain ⟨rfl, rfl⟩ := pure_eq_ok.mp h
    exact htarget.mono (Nat.le_refl _) hmid

theorem gives_assignment {nested : Parse Expr} (hnested : GivesExpr nested) (limit : Nat) :
    GivesExpr (assignment limit nested) := by
  refine ⟨safe_assignment hnested.safe limit, ?_⟩
  intro s e s' hp h
  obtain ⟨target, t, htarget, h⟩ := bind_eq_ok.mp h
  obtain ⟨equals, u, hequals, h⟩ := bind_eq_ok.mp h
  have hdisjunction := gives_disjunction hnested limit
  have hst := hdisjunction.safe.ok htarget
  have htu := (safe_accept? (skips_only _)).ok hequals
  have hnumbered := hdisjunction.numbered s target t hp htarget
  have hu := next_accept? hequals
  cases equals with
  | some equals =>
    obtain ⟨value, v, hvalue, h⟩ := bind_eq_ok.mp h
    have huv := hnested.safe.ok hvalue
    have hv := hnested.numbered u value v (htu.proper (hst.proper hp)) hvalue
    exact gives_assignTo hst.next_le (hu ▸ huv.next_le) hnumbered (hu ▸ hv) h
  | none =>
    obtain ⟨rfl, rfl⟩ := pure_eq_ok.mp h
    rw [hu]
    exact hnumbered

theorem gives_expression (depth : Nat) : GivesExpr (expression depth) := by
  induction depth with
  | zero => exact ⟨safe_fail _, fun s e s' hp h => absurd h fail_ne_ok⟩
  | succ depth ih => exact gives_assignment ih depth

/-- The statement is well formed and its references are numbered. -/
structure FitsStmt (lo hi : Nat) (stmt : Stmt) : Prop where
  numbered : Numbered lo hi stmt.references
  wellFormed : stmt.WellFormed

/-- A statement that is no declaration. -/
structure FitsBranch (lo hi : Nat) (stmt : Stmt) : Prop extends FitsStmt lo hi stmt where
  undeclared : stmt.declaredName? = none

structure FitsBody (lo hi : Nat) (body : List Stmt) : Prop where
  numbered : Numbered lo hi (Stmt.listReferences body)
  wellFormed : Stmt.AllWellFormed body

structure FitsFunction (lo hi : Nat) (function : FunctionDecl) : Prop where
  numbered : Numbered lo hi (Stmt.functionReferences function)
  wellFormed : Stmt.FunctionWellFormed function
  ordinary : function.name.Ordinary

/-- The references of an expression that may be absent are numbered. -/
def FitsOption (lo hi : Nat) (e : Option Expr) : Prop :=
  Numbered lo hi ((e.map Expr.references).getD [])

theorem fitsBody_reduceOption {lo hi : Nat} {stmts : List (Option Stmt)}
    (h : InOrder (fun lo hi o => ∀ stmt, o = some stmt → FitsStmt lo hi stmt) lo hi stmts) :
    FitsBody lo hi stmts.reduceOption := by
  induction h with
  | nil n => exact ⟨.nil, trivial⟩
  | @cons lo mid hi first rest hlo hhi hfirst hrest ih =>
    cases first with
    | none =>
      exact ⟨ih.numbered.mono hlo (Nat.le_refl _), ih.wellFormed⟩
    | some stmt =>
      have hstmt := hfirst stmt rfl
      exact ⟨hstmt.numbered.append ih.numbered hlo hhi, hstmt.wellFormed, ih.wellFormed⟩

theorem numbered_methodReferences {lo hi : Nat} {methods : List FunctionDecl}
    (h : InOrder FitsFunction lo hi methods) :
    Numbered lo hi (Stmt.methodReferences methods) ∧ Stmt.MethodsWellFormed methods := by
  induction h with
  | nil n => exact ⟨.nil, trivial⟩
  | cons hlo hhi hfirst hrest ih =>
    exact ⟨hfirst.numbered.append ih.1 hlo hhi, hfirst.wellFormed, ih.2⟩

/-- The parts of a statement are read as they should be. -/
structure Inner.Gives (inner : Inner) : Prop extends inner.Safe where
  branches : Parser.Gives inner.statement FitsBranch
  declarations : Parser.Gives inner.declaration fun lo hi o => ∀ stmt, o = some stmt → FitsStmt lo hi stmt

section
variable {inner : Inner}

theorem gives_innerExpression :
    Gives inner.expression fun lo hi e => Numbered lo hi e.references :=
  (gives_expression _).numbered

theorem gives_unlessNext (closing : Symbol) : Gives (unlessNext inner closing) FitsOption := by
  intro s e s' hp h
  obtain ⟨closed, t, hcheck, h⟩ := bind_eq_ok.mp h
  obtain ⟨rfl, -⟩ := check_eq_ok hcheck
  split at h
  · obtain ⟨rfl, rfl⟩ := pure_eq_ok.mp h
    exact .nil
  · obtain ⟨value, t, hvalue, h⟩ := bind_eq_ok.mp h
    obtain ⟨rfl, rfl⟩ := pure_eq_ok.mp h
    exact gives_innerExpression s value t hp hvalue

theorem gives_varDeclaration : Gives (varDeclaration inner) FitsStmt := by
  intro s stmt s' hp h
  obtain ⟨name, t, hname, h⟩ := bind_eq_ok.mp h
  obtain ⟨equal, u, hequal, h⟩ := bind_eq_ok.mp h
  have hst := (safe_expectName _).ok hname
  have htu := (safe_accept _).ok hequal
  have hordinary := ordinary_expectName hp hname
  have hnext : u.next = s.next := by rw [next_accept hequal, next_expectName hname]
  split at h
  · obtain ⟨initializer, v, hinitializer, h⟩ := bind_eq_ok.mp h
    obtain ⟨semicolon, w, hsemicolon, h⟩ := bind_eq_ok.mp h
    obtain ⟨value, hvalue, rfl⟩ := map_eq_ok.mp hinitializer
    obtain ⟨rfl, rfl⟩ := pure_eq_ok.mp h
    have hnumbered := gives_innerExpression u value v (htu.proper (hst.proper hp)) hvalue
    rw [next_expect hsemicolon, ← hnext]
    exact ⟨hnumbered, hordinary⟩
  · obtain ⟨initializer, v, hinitializer, h⟩ := bind_eq_ok.mp h
    obtain ⟨rfl, rfl⟩ := pure_eq_ok.mp hinitializer
    obtain ⟨semicolon, w, hsemicolon, h⟩ := bind_eq_ok.mp h
    obtain ⟨rfl, rfl⟩ := pure_eq_ok.mp h
    exact ⟨.nil, hordinary⟩

theorem gives_expressionStatement : Gives (expressionStatement inner) FitsBranch := by
  intro s stmt s' hp h
  obtain ⟨value, t, hvalue, h⟩ := bind_eq_ok.mp h
  obtain ⟨semicolon, u, hsemicolon, h⟩ := bind_eq_ok.mp h
  obtain ⟨rfl, rfl⟩ := pure_eq_ok.mp h
  rw [next_expect hsemicolon]
  exact ⟨⟨gives_innerExpression s value t hp hvalue, trivial⟩, rfl⟩

theorem gives_printStatement : Gives (printStatement inner) FitsBranch := by
  intro s stmt s' hp h
  obtain ⟨value, t, hvalue, h⟩ := bind_eq_ok.mp h
  obtain ⟨semicolon, u, hsemicolon, h⟩ := bind_eq_ok.mp h
  obtain ⟨rfl, rfl⟩ := pure_eq_ok.mp h
  rw [next_expect hsemicolon]
  exact ⟨⟨gives_innerExpression s value t hp hvalue, trivial⟩, rfl⟩

theorem gives_returnStatement (keyword : Token) :
    Gives (returnStatement inner keyword) FitsBranch := by
  intro s stmt s' hp h
  obtain ⟨value, t, hvalue, h⟩ := bind_eq_ok.mp h
  obtain ⟨semicolon, u, hsemicolon, h⟩ := bind_eq_ok.mp h
  obtain ⟨rfl, rfl⟩ := pure_eq_ok.mp h
  rw [next_expect hsemicolon]
  exact ⟨⟨gives_unlessNext _ s value t hp hvalue, trivial⟩, rfl⟩

theorem gives_forInitializer : Gives (forInitializer inner) fun lo hi o =>
    ∀ stmt, o = some stmt → FitsStmt lo hi stmt := by
  intro s o s' hp h
  obtain ⟨absent, t, habsent, h⟩ := bind_eq_ok.mp h
  have hst := (safe_accept _).ok habsent
  split at h
  · obtain ⟨rfl, rfl⟩ := pure_eq_ok.mp h
    exact nofun
  · obtain ⟨declared, u, hdeclared, h⟩ := bind_eq_ok.mp h
    have htu := (safe_accept _).ok hdeclared
    have hnext : u.next = s.next := by rw [next_accept hdeclared, next_accept habsent]
    split at h
    · obtain ⟨stmt, v, hstmt, h⟩ := bind_eq_ok.mp h
      obtain ⟨rfl, rfl⟩ := pure_eq_ok.mp h
      rintro _ ⟨⟩
      exact hnext ▸ gives_varDeclaration u stmt v (htu.proper (hst.proper hp)) hstmt
    · obtain ⟨stmt, v, hstmt, h⟩ := bind_eq_ok.mp h
      obtain ⟨rfl, rfl⟩ := pure_eq_ok.mp h
      rintro _ ⟨⟩
      exact hnext ▸ (gives_expressionStatement u stmt v (htu.proper (hst.proper hp)) hstmt).toFitsStmt

/-- A loop that stands for a `for` statement is numbered if its parts are. The increment is
numbered before the body, behind which it stands. -/
theorem fitsBranch_forLoop {a b c d e : Nat} {initializer : Option Stmt}
    {condition increment : Option Expr} {body : Stmt}
    (hab : a ≤ b) (hbc : b ≤ c) (hcd : c ≤ d) (hde : d ≤ e)
    (hinitializer : ∀ stmt, initializer = some stmt → FitsStmt a b stmt)
    (hcondition : FitsOption b c condition) (hincrement : FitsOption c d increment)
    (hbody : FitsBranch d e body) :
    FitsBranch a e (forLoop initializer condition increment body) := by
  have hloop (body : Stmt) (hbody : FitsBranch c e body) :
      FitsBranch b e (.whileLoop (condition.getD (.literal (.bool true))) body) := by
    refine ⟨⟨?_, hbody.undeclared, hbody.wellFormed⟩, rfl⟩
    refine Numbered.append ?_ hbody.numbered hbc (Nat.le_trans hcd hde)
    cases condition with
    | some value => exact hcondition
    | none => exact .nil
  have hwhole (body : Stmt) (hbody : FitsBranch c e body) :
      FitsBranch a e (forLoop initializer condition none body) := by
    have hwhile := hloop body hbody
    cases initializer with
    | none => exact ⟨⟨hwhile.numbered.mono hab (Nat.le_refl _), hwhile.wellFormed⟩, hwhile.undeclared⟩
    | some stmt =>
      have hstmt := hinitializer stmt rfl
      refine ⟨⟨?_, ⟨hstmt.wellFormed, hwhile.wellFormed, trivial⟩⟩, rfl⟩
      have hloops := hwhile.numbered
      rw [← List.append_nil (Stmt.references _)] at hloops
      exact hstmt.numbered.append hloops hab (Nat.le_trans hbc (Nat.le_trans hcd hde))
  cases increment with
  | none =>
    exact hwhole body ⟨⟨hbody.numbered.mono hcd (Nat.le_refl _), hbody.wellFormed⟩, hbody.undeclared⟩
  | some step =>
    have hstep : Numbered c d (step.references ++ []) := by
      rw [List.append_nil]
      exact hincrement
    exact hwhole (.block [body, .expression step])
      ⟨⟨hbody.numbered.append_swap hstep hcd hde, ⟨hbody.wellFormed, trivial, trivial⟩⟩, rfl⟩

variable (h : inner.Gives)
include h

theorem gives_block : Gives (block inner) FitsBody := by
  intro s body s' hp hrun
  obtain ⟨stmts, t, hstmts, hrun⟩ := bind_eq_ok.mp hrun
  obtain ⟨brace, u, hbrace, hrun⟩ := bind_eq_ok.mp hrun
  obtain ⟨rfl, rfl⟩ := pure_eq_ok.mp hrun
  rw [next_expect hbrace]
  exact fitsBody_reduceOption
    (gives_untilRightBrace h.declaration h.declarations _ s stmts t hp hstmts)

theorem gives_function (kind : String) : Gives (function inner kind) FitsFunction := by
  intro s f s' hp hrun
  obtain ⟨name, t, hname, hrun⟩ := bind_eq_ok.mp hrun
  obtain ⟨paren, u, hparen, hrun⟩ := bind_eq_ok.mp hrun
  obtain ⟨parameters, v, hparameters, hrun⟩ := bind_eq_ok.mp hrun
  obtain ⟨close, w, hclose, hrun⟩ := bind_eq_ok.mp hrun
  obtain ⟨brace, x, hbrace, hrun⟩ := bind_eq_ok.mp hrun
  obtain ⟨body, y, hbody, hrun⟩ := bind_eq_ok.mp hrun
  obtain ⟨rfl, rfl⟩ := pure_eq_ok.mp hrun
  have hsu := ((safe_expectName _).ok hname).trans ((safe_expect _ _).ok hparen)
  have huv := (safe_listItems _ (safe_expectName _) _).ok hparameters
  have hvx := ((safe_expect _ _).ok hclose).trans ((safe_expect _ _).ok hbrace)
  have hordinary : ∀ parameter ∈ parameters, parameter.Ordinary := by
    intro parameter hmem
    have hitem : Gives (expectName "parameter name") fun _ _ name => name.Ordinary :=
      fun _ _ _ hp h => ordinary_expectName hp h
    obtain ⟨_, _, hparameter⟩ := (gives_listItems (safe_expectName _) hitem _ _ u parameters v
      (hsu.proper hp) hparameters).mem hmem
    exact hparameter
  have hfits := gives_block h x body y (hvx.proper (huv.proper (hsu.proper hp))) hbody
  have hle := (hsu.trans (huv.trans hvx)).next_le
  exact ⟨hfits.numbered.mono hle (Nat.le_refl _), ⟨hordinary, hfits.wellFormed⟩,
    ordinary_expectName hp hname⟩

theorem gives_classDeclaration : Gives (classDeclaration inner) FitsStmt := by
  intro s stmt s' hp hrun
  obtain ⟨name, t, hname, hrun⟩ := bind_eq_ok.mp hrun
  obtain ⟨superclass, u, hsuperclass, hrun⟩ := bind_eq_ok.mp hrun
  obtain ⟨brace, v, hbrace, hrun⟩ := bind_eq_ok.mp hrun
  obtain ⟨methods, w, hmethods, hrun⟩ := bind_eq_ok.mp hrun
  obtain ⟨close, x, hclose, hrun⟩ := bind_eq_ok.mp hrun
  obtain ⟨rfl, rfl⟩ := pure_eq_ok.mp hrun
  have hst := (safe_expectName _).ok hname
  have htu := safe_superclass?.ok hsuperclass
  have huv := (safe_expect _ _).ok hbrace
  have hall := gives_untilRightBrace (safe_function h.toSafe _) (gives_function h _) _ v methods w
    (huv.proper (htu.proper (hst.proper hp))) hmethods
  obtain ⟨hnumbered, hwell⟩ := numbered_methodReferences hall
  have hclause : Numbered s.next v.next ((superclass.map Superclass.references).getD []) := by
    obtain ⟨derived, t', hderived, hsuperclass⟩ := bind_eq_ok.mp hsuperclass
    have htt' := (safe_accept _).ok hderived
    have ht : t'.next = s.next := by rw [next_accept hderived, next_expectName hname]
    split at hsuperclass
    · obtain ⟨parent, u', hparent, hsuperclass⟩ := bind_eq_ok.mp hsuperclass
      obtain ⟨id, u'', hid, hsuperclass⟩ := bind_eq_ok.mp hsuperclass
      obtain ⟨rfl, rfl⟩ := freshId_eq_ok.mp hid
      obtain ⟨rfl, rfl⟩ := pure_eq_ok.mp hsuperclass
      have hordinary := ordinary_expectName (htt'.proper (hst.proper hp)) hparent
      rw [next_expect hbrace, ← ht, ← next_expectName hparent]
      exact .singleton ⟨.variable, u'.next, parent⟩ hordinary
    · obtain ⟨rfl, rfl⟩ := pure_eq_ok.mp hsuperclass
      exact .nil
  have hsv := (hst.trans (htu.trans huv)).next_le
  rw [next_expect hclose]
  exact ⟨hclause.append hnumbered hsv hall.le, ordinary_expectName hp hname, hwell⟩

theorem gives_forStatement : Gives (forStatement inner) FitsBranch := by
  intro s stmt s' hp hrun
  obtain ⟨paren, t, hparen, hrun⟩ := bind_eq_ok.mp hrun
  obtain ⟨initializer, u, hinitializer, hrun⟩ := bind_eq_ok.mp hrun
  obtain ⟨condition, v, hcondition, hrun⟩ := bind_eq_ok.mp hrun
  obtain ⟨semicolon, w, hsemicolon, hrun⟩ := bind_eq_ok.mp hrun
  obtain ⟨increment, x, hincrement, hrun⟩ := bind_eq_ok.mp hrun
  obtain ⟨close, y, hclose, hrun⟩ := bind_eq_ok.mp hrun
  obtain ⟨body, z, hbody, hrun⟩ := bind_eq_ok.mp hrun
  obtain ⟨rfl, rfl⟩ := pure_eq_ok.mp hrun
  have htu := safe_forInitializer.ok hinitializer
  have huv := (safe_unlessNext _).ok hcondition
  have hwx := (safe_unlessNext _).ok hincrement
  have hyz := h.statement.ok hbody
  have ht := ((safe_expect _ _).ok hparen).proper hp
  have hv := huv.proper (htu.proper ht)
  have hw := ((safe_expect _ _).ok hsemicolon).proper hv
  have hy := ((safe_expect _ _).ok hclose).proper (hwx.proper hw)
  have hinitializer := gives_forInitializer t initializer u ht hinitializer
  have hcondition := gives_unlessNext _ u condition v (htu.proper ht) hcondition
  have hincrement := gives_unlessNext _ w increment x hw hincrement
  have hbody := h.branches y body z hy hbody
  have hvw : w.next = v.next := next_expect hsemicolon
  have hxy : y.next = x.next := next_expect hclose
  rw [← next_expect hparen]
  exact fitsBranch_forLoop htu.next_le huv.next_le (hvw ▸ hwx.next_le) (hxy ▸ hyz.next_le)
    hinitializer hcondition (hvw ▸ hincrement) (hxy ▸ hbody)

theorem gives_ifStatement : Gives (ifStatement inner) FitsBranch := by
  intro s stmt s' hp hrun
  obtain ⟨paren, t, hparen, hrun⟩ := bind_eq_ok.mp hrun
  obtain ⟨condition, u, hcondition, hrun⟩ := bind_eq_ok.mp hrun
  obtain ⟨close, v, hclose, hrun⟩ := bind_eq_ok.mp hrun
  obtain ⟨thenBranch, w, hthen, hrun⟩ := bind_eq_ok.mp hrun
  obtain ⟨more, x, hmore, hrun⟩ := bind_eq_ok.mp hrun
  have ht := ((safe_expect _ _).ok hparen).proper hp
  have htu := safe_innerExpression.ok hcondition
  have hv := ((safe_expect _ _).ok hclose).proper (htu.proper ht)
  have hvw := h.statement.ok hthen
  have hwx := (safe_accept _).ok hmore
  have hcondition := gives_innerExpression t condition u ht hcondition
  have hfits := h.branches v thenBranch w hv hthen
  have hst : t.next = s.next := next_expect hparen
  have huv : v.next = u.next := next_expect hclose
  have hx : x.next = w.next := next_accept hmore
  have hle : u.next ≤ w.next := huv ▸ hvw.next_le
  have hboth := hcondition.append (huv ▸ hfits.numbered) htu.next_le hle
  rw [hst] at hboth
  dsimp only at hrun
  split at hrun
  · obtain ⟨other, y, hother, hrun⟩ := bind_eq_ok.mp hrun
    obtain ⟨elseBranch, helse, rfl⟩ := map_eq_ok.mp hother
    obtain ⟨rfl, rfl⟩ := pure_eq_ok.mp hrun
    have hfits' := h.branches x elseBranch y (hwx.proper (hvw.proper hv)) helse
    have hle' : s.next ≤ w.next := by
      rw [← hst]
      exact Nat.le_trans htu.next_le hle
    refine ⟨⟨?_, ⟨hfits.undeclared, hfits.wellFormed⟩, hfits'.undeclared, hfits'.wellFormed⟩, rfl⟩
    exact hboth.append (hx ▸ hfits'.numbered) hle' (hx ▸ (h.statement.ok helse).next_le)
  · obtain ⟨rfl, rfl⟩ := pure_eq_ok.mp hrun
    rw [hx]
    exact ⟨⟨hboth, hfits.undeclared, hfits.wellFormed⟩, rfl⟩

theorem gives_whileStatement : Gives (whileStatement inner) FitsBranch := by
  intro s stmt s' hp hrun
  obtain ⟨paren, t, hparen, hrun⟩ := bind_eq_ok.mp hrun
  obtain ⟨condition, u, hcondition, hrun⟩ := bind_eq_ok.mp hrun
  obtain ⟨close, v, hclose, hrun⟩ := bind_eq_ok.mp hrun
  obtain ⟨body, w, hbody, hrun⟩ := bind_eq_ok.mp hrun
  obtain ⟨rfl, rfl⟩ := pure_eq_ok.mp hrun
  have ht := ((safe_expect _ _).ok hparen).proper hp
  have htu := safe_innerExpression.ok hcondition
  have hv := ((safe_expect _ _).ok hclose).proper (htu.proper ht)
  have hcondition := gives_innerExpression t condition u ht hcondition
  have hfits := h.branches v body w hv hbody
  have huv : v.next = u.next := next_expect hclose
  rw [← next_expect hparen]
  refine ⟨⟨?_, hfits.undeclared, hfits.wellFormed⟩, rfl⟩
  exact hcondition.append (huv ▸ hfits.numbered) htu.next_le (huv ▸ (h.statement.ok hbody).next_le)

theorem gives_anyStatement : Gives (anyStatement inner) FitsBranch := by
  intro s stmt s' hp hrun
  obtain ⟨found, t, hfound, hrun⟩ := bind_eq_ok.mp hrun
  have hp := ((safe_accept _).ok hfound).proper hp
  rw [← next_accept hfound]
  split at hrun
  · exact gives_forStatement h t stmt s' hp hrun
  obtain ⟨found, u, hfound, hrun⟩ := bind_eq_ok.mp hrun
  have hp := ((safe_accept _).ok hfound).proper hp
  rw [← next_accept hfound]
  split at hrun
  · exact gives_ifStatement h u stmt s' hp hrun
  obtain ⟨found, v, hfound, hrun⟩ := bind_eq_ok.mp hrun
  have hp := ((safe_accept _).ok hfound).proper hp
  rw [← next_accept hfound]
  split at hrun
  · exact gives_printStatement v stmt s' hp hrun
  obtain ⟨keyword, w, hkeyword, hrun⟩ := bind_eq_ok.mp hrun
  have hp := ((safe_accept? (skips_only _)).ok hkeyword).proper hp
  rw [← next_accept? hkeyword]
  cases keyword with
  | some keyword => exact gives_returnStatement keyword w stmt s' hp hrun
  | none =>
  obtain ⟨found, x, hfound, hrun⟩ := bind_eq_ok.mp hrun
  have hp := ((safe_accept _).ok hfound).proper hp
  rw [← next_accept hfound]
  split at hrun
  · exact gives_whileStatement h x stmt s' hp hrun
  obtain ⟨found, y, hfound, hrun⟩ := bind_eq_ok.mp hrun
  have hp := ((safe_accept _).ok hfound).proper hp
  rw [← next_accept hfound]
  split at hrun
  · obtain ⟨body, z, hbody, hrun⟩ := bind_eq_ok.mp hrun
    obtain ⟨rfl, rfl⟩ := pure_eq_ok.mp hrun
    have hfits := gives_block h y body z hp hbody
    exact ⟨⟨hfits.numbered, hfits.wellFormed⟩, rfl⟩
  · exact gives_expressionStatement y stmt s' hp hrun

theorem gives_anyDeclaration :
    Gives (anyDeclaration inner) fun lo hi o => ∀ stmt, o = some stmt → FitsStmt lo hi stmt := by
  intro s o s' hp hrun stmt ho
  subst ho
  unfold anyDeclaration recovering at hrun
  split at hrun
  · next a t ha =>
    simp only [EStateM.Result.ok.injEq, Option.some.injEq] at hrun
    obtain ⟨rfl, rfl⟩ := hrun
    obtain ⟨found, t, hfound, ha⟩ := bind_eq_ok.mp ha
    have hp := ((safe_accept _).ok hfound).proper hp
    rw [← next_accept hfound]
    split at ha
    · exact gives_classDeclaration h t _ _ hp ha
    obtain ⟨found, u, hfound, ha⟩ := bind_eq_ok.mp ha
    have hp := ((safe_accept _).ok hfound).proper hp
    rw [← next_accept hfound]
    split at ha
    · obtain ⟨f, v, hf, ha⟩ := bind_eq_ok.mp ha
      obtain ⟨rfl, rfl⟩ := pure_eq_ok.mp ha
      have hfits := gives_function h _ u f v hp hf
      exact ⟨hfits.numbered, hfits.ordinary, hfits.wellFormed⟩
    obtain ⟨found, v, hfound, ha⟩ := bind_eq_ok.mp ha
    have hp := ((safe_accept _).ok hfound).proper hp
    rw [← next_accept hfound]
    split at ha
    · exact gives_varDeclaration v _ _ hp ha
    · exact (gives_anyStatement h v _ _ hp ha).toFitsStmt
  · obtain ⟨_, t, -, hrun⟩ := bind_eq_ok.mp hrun
    obtain ⟨_, u, -, hrun⟩ := bind_eq_ok.mp hrun
    exact absurd (pure_eq_ok.mp hrun).1 (by simp)
  · exact absurd hrun (by simp)

end

theorem gives_innerAt (depth : Nat) : (innerAt depth).Gives := by
  induction depth with
  | zero =>
    refine ⟨safe_innerAt 0, fun s stmt s' hp h => absurd h fail_ne_ok, ?_⟩
    rintro s o s' hp h stmt rfl
    change recovering (fail _) s = _ at h
    unfold recovering at h
    split at h
    · next ha => exact absurd ha fail_ne_ok
    · obtain ⟨_, t, -, h⟩ := bind_eq_ok.mp h
      obtain ⟨_, u, -, h⟩ := bind_eq_ok.mp h
      exact absurd (pure_eq_ok.mp h).1 (by simp)
    · exact absurd h (by simp)
  | succ depth ih => exact ⟨safe_innerAt (depth + 1), gives_anyStatement ih, gives_anyDeclaration ih⟩

theorem gives_declarations (depth limit : Nat) : Gives (declarations depth limit) FitsBody := by
  induction limit with
  | zero =>
    intro s body s' hp h
    obtain ⟨rfl, rfl⟩ := pure_eq_ok.mp h
    exact ⟨.nil, trivial⟩
  | succ limit ih =>
    intro s body s' hp h
    obtain ⟨ended, t, hended, h⟩ := bind_eq_ok.mp h
    obtain ⟨rfl, -⟩ := atEnd_eq_ok hended
    split at h
    · obtain ⟨rfl, rfl⟩ := pure_eq_ok.mp h
      exact ⟨.nil, trivial⟩
    · obtain ⟨first, t, hfirst, h⟩ := bind_eq_ok.mp h
      obtain ⟨rest, u, hrest, h⟩ := bind_eq_ok.mp h
      obtain ⟨rfl, rfl⟩ := pure_eq_ok.mp h
      have hst := (safe_innerAt depth).declaration.ok hfirst
      have htu := (safe_declarations depth limit).ok hrest
      have hbody := ih t rest u (hst.proper hp) hrest
      cases first with
      | none => exact ⟨hbody.numbered.mono hst.next_le (Nat.le_refl _), hbody.wellFormed⟩
      | some stmt =>
        have hstmt := (gives_innerAt depth).declarations _ _ t hp hfirst stmt rfl
        exact ⟨hstmt.numbered.append hbody.numbered hst.next_le htu.next_le,
          hstmt.wellFormed, hbody.wellFormed⟩

end Parser

/-- What is read from proper tokens is well formed, and its references have different numbers from
`first` on. -/
theorem Program.fits_ofTokens {tokens : List Token} (h : Parser.EndsInput tokens)
    (hp : ∀ token ∈ tokens, token.Proper) (first : NodeId) :
    first ≤ (Program.ofTokens tokens first).next ∧
      Parser.FitsBody first (Program.ofTokens tokens first).next
        (Program.ofTokens tokens first).statements := by
  obtain ⟨statements, s, hrun, hfollows⟩ :=
    Parser.exists_declarations h first tokens.length tokens.length
  simp only [ofTokens, hrun]
  exact ⟨hfollows.next_le, Parser.gives_declarations _ _ _ _ _ hp hrun⟩

end Lox
