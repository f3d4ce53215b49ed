import Lox.Proofs.Parser.Safety
import Lox.Proofs.Syntax.Leaves

/-!
# Where the leaves of a tree come from

Every name and every literal of a parsed tree is that of a token, whatever errors the tokens have,
except for the condition of a `for` loop that has none.
-/
namespace Lox

/-- The leaf is that of one of the tokens, or the condition of a loop that is written without
one. -/
inductive Leaf.From (tokens : List Token) : Leaf → Prop
  | name {token : Token} {name : Name} (hmem : token ∈ tokens)
      (hname : Parser.name? token = some name) : From tokens name.leaf
  | literal {token : Token} {value : Literal} (hmem : token ∈ tokens)
      (hvalue : Parser.literal? token = some value) : From tokens (.literal value)
  | always : From tokens (.literal (.bool true))

namespace Parser
variable {α β : Type} {tokens : List Token}

/-- Started at some of the tokens, the step ends at some of them, and its result is as `post`
says. -/
def Yields (tokens : List Token) (step : Parse α) (post : α → Prop) : Prop :=
  ∀ s, s.rest ⊆ tokens →
    match step s with
    | .ok a s' => s'.rest ⊆ tokens ∧ post a
    | .error _ s' => s'.rest ⊆ tokens

namespace Yields
variable {step : Parse α} {post : α → Prop} {post' : β → Prop}

theorem pure {a : α} (h : post a) : Yields tokens (Pure.pure a) post := fun _ hs => ⟨hs, h⟩

theorem bind {f : α → Parse β} (hstep : Yields tokens step post)
    (hf : ∀ a, post a → Yields tokens (f a) post') : Yields tokens (step >>= f) post' := by
  intro s hs
  have hstep := hstep s hs
  simp only [Bind.bind, EStateM.bind]
  split at hstep
  · next a t heq =>
    rw [heq]
    exact hf a hstep.2 t hstep.1
  · next stop t heq =>
    rw [heq]
    exact hstep

theorem map {g : α → β} (hstep : Yields tokens step post) (hg : ∀ a, post a → post' (g a)) :
    Yields tokens (g <$> step) post' := by
  intro s hs
  have hstep := hstep s hs
  simp only [Functor.map, EStateM.map]
  split at hstep
  · next a t heq =>
    rw [heq]
    exact ⟨hstep.1, hg a hstep.2⟩
  · next stop t heq =>
    rw [heq]
    exact hstep

theorem mono {weaker : α → Prop} (h : Yields tokens step post) (hpost : ∀ a, post a → weaker a) :
    Yields tokens step weaker := by
  intro s hs
  have h := h s hs
  split at h
  · exact ⟨h.1, hpost _ h.2⟩
  · exact h

theorem ite {x y : Parse α} (c : Prop) [Decidable c] (hx : Yields tokens x post)
    (hy : Yields tokens y post) : Yields tokens (if c then x else y) post := by
  split
  · exact hx
  · exact hy

end Yields

theorem yields_peek : Yields tokens peek fun _ => True := by
  intro s hs
  unfold peek
  cases h : s.rest with
  | nil => exact hs
  | cons token rest => exact ⟨hs, trivial⟩

theorem yields_accept? (f : Token → Option α) :
    Yields tokens (accept? f) fun o => ∀ a ∈ o, ∃ token ∈ tokens, f token = some a := by
  intro s hs
  unfold accept?
  cases h : s.rest with
  | nil => exact hs
  | cons token rest =>
    rw [h] at hs
    have hmem : token ∈ tokens := hs List.mem_cons_self
    cases hf : f token with
    | some a =>
      simp only [hf]
      refine ⟨fun t ht => hs (.tail _ ht), fun b hb => ?_⟩
      obtain rfl := Option.some.inj hb
      exact ⟨token, hmem, hf⟩
    | none =>
      simp only [hf]
      exact ⟨h ▸ hs, nofun⟩

theorem yields_fail (cause : SyntaxError.Cause) (post : α → Prop) :
    Yields tokens (fail cause : Parse α) post :=
  yields_peek.bind fun _ _ _ hs => hs

theorem yields_freshId : Yields tokens freshId fun _ => True := fun _ hs => ⟨hs, trivial⟩

theorem yields_record (error : SyntaxError) : Yields tokens (record error) fun _ => True :=
  fun _ hs => ⟨hs, trivial⟩

theorem yields_accept (symbol : Symbol) : Yields tokens (accept symbol) fun _ => True :=
  (yields_accept? _).bind fun _ _ => .pure trivial

theorem yields_check (symbol : Symbol) : Yields tokens (check symbol) fun _ => True :=
  yields_peek.bind fun _ _ => .pure trivial

theorem yields_atEnd : Yields tokens atEnd fun _ => True :=
  yields_peek.bind fun _ _ => .pure trivial

theorem yields_require (f : Token → Option α) (what : String) :
    Yields tokens (require f what) fun a => ∃ token ∈ tokens, f token = some a := by
  refine (yields_accept? f).bind fun o ho => ?_
  cases o with
  | some a => exact .pure (ho a rfl)
  | none => exact yields_fail _ _

theorem yields_expect (symbol : Symbol) (what : String) :
    Yields tokens (expect symbol what) fun _ => True :=
  (yields_require _ _).mono fun _ _ => trivial

theorem yields_expectName (what : String) :
    Yields tokens (expectName what) fun name => name.leaf.From tokens :=
  (yields_require _ _).mono fun _ ⟨_, hmem, hname⟩ => .name hmem hname

section
variable {item : Parse α} {post : α → Prop} (hitem : Yields tokens item post)
include hitem

theorem yields_commaSeparated (tooMany : SyntaxError.Cause) (limit count : Nat) :
    Yields tokens (commaSeparated tooMany item limit count) fun items => ∀ a ∈ items, post a := by
  induction limit generalizing count with
  | zero => exact .pure nofun
  | succ limit ih =>
    unfold commaSeparated
    have hrest : Yields tokens (do
        let first ← item
        if ← accept .comma then
          return first :: (← commaSeparated tooMany item limit (count + 1))
        else
          return [first]) fun items => ∀ a ∈ items, post a := by
      refine hitem.bind fun first hfirst => (yields_accept _).bind fun _ _ => .ite _ ?_ ?_
      · exact (ih (count + 1)).bind fun _ hothers =>
          .pure (List.forall_mem_cons.mpr ⟨hfirst, hothers⟩)
      · exact .pure (List.forall_mem_singleton.mpr hfirst)
    exact .ite _ (yields_peek.bind fun _ _ => (yields_record _).bind fun _ _ => hrest) hrest

theorem yields_listItems (tooMany : SyntaxError.Cause) (limit : Nat) :
    Yields tokens (listItems tooMany item limit) fun items => ∀ a ∈ items, post a :=
  (yields_check _).bind fun _ _ =>
    .ite _ (.pure nofun) (yields_commaSeparated hitem tooMany limit 0)

theorem yields_untilRightBrace (limit : Nat) :
    Yields tokens (untilRightBrace item limit) fun items => ∀ a ∈ items, post a := by
  induction limit with
  | zero => exact .pure nofun
  | succ limit ih =>
    refine (yields_check _).bind fun _ _ => yields_atEnd.bind fun _ _ => .ite _ (.pure nofun) ?_
    exact hitem.bind fun _ hfirst => ih.bind fun _ hothers =>
      .pure (List.forall_mem_cons.mpr ⟨hfirst, hothers⟩)

end

/-- All leaves of the expression are those of tokens. -/
def FromExpr (tokens : List Token) (e : Expr) : Prop := ∀ leaf ∈ e.leaves, leaf.From tokens

theorem yields_superclassMethod (keyword : Token) :
    Yields tokens (superclassMethod keyword) (FromExpr tokens) :=
  (yields_expect _ _).bind fun _ _ => (yields_expectName _).bind fun _ hname =>
    yields_freshId.bind fun _ _ => .pure (List.forall_mem_singleton.mpr hname)

section
variable {nested : Parse Expr} (hnested : Yields tokens nested (FromExpr tokens))
include hnested

theorem yields_primary : Yields tokens (primary nested) (FromExpr tokens) := by
  unfold primary
  refine (yields_accept? _).bind fun value hvalue => ?_
  cases value with
  | some value =>
    obtain ⟨token, hmem, hvalue⟩ := hvalue value rfl
    exact .pure (List.forall_mem_singleton.mpr (.literal hmem hvalue))
  | none =>
  refine (yields_accept? _).bind fun keyword _ => ?_
  cases keyword with
  | some keyword => exact yields_superclassMethod keyword
  | none =>
  refine (yields_accept? _).bind fun keyword _ => ?_
  cases keyword with
  | some keyword => exact yields_freshId.bind fun _ _ => .pure nofun
  | none =>
  refine (yields_accept? _).bind fun name hname => ?_
  cases name with
  | some name =>
    obtain ⟨token, hmem, hname⟩ := hname name rfl
    exact yields_freshId.bind fun _ _ => .pure (List.forall_mem_singleton.mpr (.name hmem hname))
  | none =>
  refine (yields_accept _).bind fun _ _ => .ite _ ?_ (yields_fail _ _)
  exact hnested.bind fun _ hinner => (yields_expect _ _).bind fun _ _ => .pure hinner

theorem yields_finishCall (limit : Nat) {callee : Expr} (hcallee : FromExpr tokens callee) :
    Yields tokens (finishCall limit nested callee) (FromExpr tokens) := by
  refine (yields_listItems hnested _ _).bind fun arguments harguments =>
    (yields_expect _ _).bind fun _ _ => .pure (List.forall_mem_append.mpr ⟨hcallee, ?_⟩)
  intro leaf hleaf
  obtain ⟨e, he, hleaf⟩ := Expr.mem_listLeaves.mp hleaf
  exact harguments e he leaf hleaf

theorem yields_callSuffixes (bound limit : Nat) {callee : Expr}
    (hcallee : FromExpr tokens callee) :
    Yields tokens (callSuffixes bound nested limit callee) (FromExpr tokens) := by
  induction limit generalizing callee with
  | zero => exact .pure hcallee
  | succ limit ih =>
    refine (yields_accept _).bind fun _ _ => .ite _ ?_ ?_
    · exact (yields_finishCall hnested bound hcallee).bind fun _ hcall => ih hcall
    · refine (yields_accept _).bind fun _ _ => .ite _ ?_ (.pure hcallee)
      exact (yields_expectName _).bind fun _ hname =>
        ih (List.forall_mem_append.mpr ⟨hcallee, List.forall_mem_singleton.mpr hname⟩)

end

theorem yields_unary {operand : Parse Expr} (hoperand : Yields tokens operand (FromExpr tokens))
    (limit : Nat) : Yields tokens (unary operand limit) (FromExpr tokens) := by
  induction limit with
  | zero => exact hoperand
  | succ limit ih =>
    refine (yields_accept? _).bind fun build hbuild => ?_
    cases build with
    | none => exact hoperand
    | some build =>
      obtain ⟨token, -, hbuild⟩ := hbuild build rfl
      obtain ⟨symbol, -, hbuild⟩ := Option.bind_eq_some_iff.mp hbuild
      obtain ⟨op, -, rfl⟩ := Option.map_eq_some_iff.mp hbuild
      exact ih.bind fun _ hoperand => .pure hoperand

/-- The operator adds no leaves to those of its operands. -/
def AddsNoLeaf (tokens : List Token) (operator? : Token → Option Combine) : Prop :=
  ∀ token combine left right, operator? token = some combine →
    FromExpr tokens left → FromExpr tokens right → FromExpr tokens (combine left right)

theorem addsNoLeaf_binary? (ops : Symbol → Option BinaryOp) : AddsNoLeaf tokens (binary? ops) := by
  intro token combine left right h hleft hright
  obtain ⟨symbol, -, h⟩ := Option.bind_eq_some_iff.mp h
  obtain ⟨op, -, rfl⟩ := Option.map_eq_some_iff.mp h
  exact List.forall_mem_append.mpr ⟨hleft, hright⟩

theorem addsNoLeaf_logical? (symbol : Symbol) (op : LogicalOp) :
    AddsNoLeaf tokens (logical? symbol op) := by
  intro token combine left right h hleft hright
  obtain ⟨_, -, rfl⟩ := Option.map_eq_some_iff.mp h
  exact List.forall_mem_append.mpr ⟨hleft, hright⟩

section
variable {operator? : Token → Option Combine} {operand : Parse Expr}
variable (hoperator : AddsNoLeaf tokens operator?)
variable (hoperand : Yields tokens operand (FromExpr tokens))
include hoperator hoperand

theorem yields_operations (limit : Nat) {left : Expr} (hleft : FromExpr tokens left) :
    Yields tokens (operations operator? operand limit left) (FromExpr tokens) := by
  induction limit generalizing left with
  | zero => exact .pure hleft
  | succ limit ih =>
    refine (yields_accept? _).bind fun combine hcombine => ?_
    cases combine with
    | none => exact .pure hleft
    | some combine =>
      obtain ⟨token, -, hcombine⟩ := hcombine combine rfl
      exact hoperand.bind fun right hright =>
        ih (hoperator token combine left right hcombine hleft hright)

theorem yields_leftAssociative (limit : Nat) :
    Yields tokens (leftAssociative operator? operand limit) (FromExpr tokens) :=
  hoperand.bind fun _ hleft => yields_operations hoperator hoperand limit hleft

end

theorem yields_disjunction {nested : Parse Expr} (hnested : Yields tokens nested (FromExpr tokens))
    (limit : Nat) : Yields tokens (disjunction limit nested) (FromExpr tokens) := by
  have hcall : Yields tokens (call limit nested) (FromExpr tokens) :=
    (yields_primary hnested).bind fun _ hcallee => yields_callSuffixes hnested limit limit hcallee
  have hfactor := yields_leftAssociative (addsNoLeaf_binary? factorOp) (yields_unary hcall limit) limit
  have hterm := yields_leftAssociative (addsNoLeaf_binary? termOp) hfactor limit
  have hcomparison := yields_leftAssociative (addsNoLeaf_binary? comparisonOp) hterm limit
  have hequality := yields_leftAssociative (addsNoLeaf_binary? equalityOp) hcomparison limit
  have hconjunction := yields_leftAssociative (addsNoLeaf_logical? .kwAnd .and) hequality limit
  exact yields_leftAssociative (addsNoLeaf_logical? .kwOr .or) hconjunction limit

theorem yields_assignTo {target value : Expr} (equals : Token) (htarget : FromExpr tokens target)
    (hvalue : FromExpr tokens value) :
    Yields tokens (assignTo target equals value) (FromExpr tokens) := by
  unfold assignTo
  split
  · exact yields_freshId.bind fun _ _ =>
      .pure (List.forall_mem_cons.mpr ⟨htarget _ List.mem_cons_self, hvalue⟩)
  · have htarget := List.forall_mem_append.mp htarget
    exact .pure (List.forall_mem_append.mpr ⟨htarget.1,
      List.forall_mem_cons.mpr ⟨htarget.2 _ List.mem_cons_self, hvalue⟩⟩)
  · exact (yields_record _).bind fun _ _ => .pure htarget

theorem yields_expression (depth : Nat) : Yields tokens (expression depth) (FromExpr tokens) := by
  induction depth with
  | zero => exact yields_fail _ _
  | succ depth ih =>
    have hassignment : Yields tokens (assignment depth (expression depth)) (FromExpr tokens) := by
      refine (yields_disjunction ih depth).bind fun target htarget =>
        (yields_accept? _).bind fun equals _ => ?_
      cases equals with
      | none => exact .pure htarget
      | some equals => exact ih.bind fun value hvalue => yields_assignTo equals htarget hvalue
    exact hassignment

/-- All leaves of the statement are those of tokens. -/
def FromStmt (tokens : List Token) (s : Stmt) : Prop := ∀ leaf ∈ s.leaves, leaf.From tokens

/-- All leaves of the function are those of tokens. -/
def FromFunction (tokens : List Token) (f : FunctionDecl) : Prop :=
  ∀ leaf ∈ Stmt.functionLeaves f, leaf.From tokens

theorem fromStmts {body : List Stmt} (h : ∀ s ∈ body, FromStmt tokens s) :
    ∀ leaf ∈ Stmt.listLeaves body, leaf.From tokens := by
  intro leaf hleaf
  obtain ⟨s, hs, hleaf⟩ := Stmt.mem_listLeaves.mp hleaf
  exact h s hs leaf hleaf

theorem fromOption {e : Option Expr} (h : ∀ a ∈ e, FromExpr tokens a) :
    ∀ leaf ∈ (e.map Expr.leaves).getD [], leaf.From tokens := by
  cases e with
  | none => exact nofun
  | some e => exact h e rfl

/-- The place where a declaration is skipped to has some of the tokens left. -/
theorem yields_synchronize : Yields tokens synchronize fun _ => True := by
  intro s hs
  unfold synchronize
  cases h : s.rest with
  | nil => exact hs
  | cons token rest =>
    cases hend : token.kind.isEnd with
    | true =>
      simp only [hend, ↓reduceIte]
      cases s.previous? with
      | none => exact hs
      | some _ => exact ⟨hs, trivial⟩
    | false =>
      simp only [hend, Bool.false_eq_true, ↓reduceIte]
      cases hresume : resume token rest with
      | none => exact hs
      | some result =>
        obtain ⟨used, hused⟩ := (resume_eq hresume).1
        refine ⟨fun t ht => hs ?_, trivial⟩
        rw [h, hused]
        exact .tail _ (List.mem_append_right _ ht)

theorem yields_recovering {step : Parse α} {post : α → Prop} (h : Yields tokens step post) :
    Yields tokens (recovering step) fun o => ∀ a ∈ o, post a := by
  intro s hs
  have h := h s hs
  unfold recovering
  split at h
  · next a t heq =>
    simp only [heq]
    exact ⟨h.1, fun b hb => Option.some.inj hb ▸ h.2⟩
  · next stop t heq =>
    simp only [heq]
    cases stop with
    | error error =>
      have hnone : Yields tokens (pure none : Parse (Option α)) fun o => ∀ a ∈ o, post a :=
        .pure fun a ha => absurd ha (by simp)
      exact ((yields_record error).bind fun _ _ => yields_synchronize.bind fun _ _ => hnone) t h
    | fault fault => exact h

/-- The parts of a statement are read by such steps. -/
structure Inner.Yields (tokens : List Token) (inner : Inner) : Prop where
  statement : Parser.Yields tokens inner.statement (FromStmt tokens)
  declaration : Parser.Yields tokens inner.declaration fun o => ∀ s ∈ o, FromStmt tokens s

section
variable {inner : Inner} (h : inner.Yields tokens)

theorem yields_innerExpression (inner : Inner) :
    Yields tokens inner.expression (FromExpr tokens) := yields_expression _

theorem yields_varDeclaration : Yields tokens (varDeclaration inner) (FromStmt tokens) := by
  refine (yields_expectName _).bind fun name hname => (yields_accept _).bind fun _ _ => ?_
  have hrest (initializer : Option Expr) (hinitializer : ∀ e ∈ initializer, FromExpr tokens e) :
      Yields tokens (do
        let _ ← expect .semicolon "';' after variable declaration"
        return Stmt.varDecl name initializer) (FromStmt tokens) :=
    (yields_expect _ _).bind fun _ _ =>
      .pure (List.forall_mem_cons.mpr ⟨hname, fromOption hinitializer⟩)
  refine .ite _ (Yields.bind ((yields_innerExpression inner).map ?_) hrest)
    (Yields.bind (.pure nofun) hrest)
  exact fun e he a ha => Option.some.inj ha ▸ he

theorem yields_expressionStatement :
    Yields tokens (expressionStatement inner) (FromStmt tokens) :=
  (yields_innerExpression inner).bind fun _ hvalue => (yields_expect _ _).bind fun _ _ =>
    .pure hvalue

theorem yields_printStatement : Yields tokens (printStatement inner) (FromStmt tokens) :=
  (yields_innerExpression inner).bind fun _ hvalue => (yields_expect _ _).bind fun _ _ =>
    .pure hvalue

theorem yields_unlessNext (closing : Symbol) :
    Yields tokens (unlessNext inner closing) fun o => ∀ e ∈ o, FromExpr tokens e := by
  refine (yields_check _).bind fun _ _ => .ite _ (.pure nofun) ?_
  exact (yields_innerExpression inner).bind fun _ he => .pure fun a ha => Option.some.inj ha ▸ he

theorem yields_returnStatement (keyword : Token) :
    Yields tokens (returnStatement inner keyword) (FromStmt tokens) :=
  (yields_unlessNext _).bind fun _ hvalue => (yields_expect _ _).bind fun _ _ =>
    .pure (fromOption hvalue)

theorem yields_forInitializer :
    Yields tokens (forInitializer inner) fun o => ∀ s ∈ o, FromStmt tokens s := by
  have hsome (s : Stmt) (hs : FromStmt tokens s) :
      Yields tokens (pure (some s)) fun o => ∀ s ∈ o, FromStmt tokens s :=
    .pure fun a ha => Option.some.inj ha ▸ hs
  refine (yields_accept _).bind fun _ _ => .ite _ (.pure nofun) ?_
  exact (yields_accept _).bind fun _ _ =>
    .ite _ (yields_varDeclaration.bind hsome) (yields_expressionStatement.bind hsome)

/-- The loop that a `for` statement stands for has the leaves of its parts, and at most its
condition besides. -/
theorem from_forLoop {initializer : Option Stmt} {condition increment : Option Expr} {body : Stmt}
    (hinitializer : ∀ s ∈ initializer, FromStmt tokens s)
    (hcondition : ∀ e ∈ condition, FromExpr tokens e)
    (hincrement : ∀ e ∈ increment, FromExpr tokens e) (hbody : FromStmt tokens body) :
    FromStmt tokens (forLoop initializer condition increment body) := by
  have hcondition : FromExpr tokens (condition.getD (.literal (.bool true))) := by
    cases condition with
    | none => exact List.forall_mem_singleton.mpr .always
    | some condition => exact hcondition condition rfl
  have hloop (body : Stmt) (hbody : FromStmt tokens body) :
      FromStmt tokens (.whileLoop (condition.getD (.literal (.bool true))) body) :=
    List.forall_mem_append.mpr ⟨hcondition, hbody⟩
  have hpair (s t : Stmt) (hs : FromStmt tokens s) (ht : FromStmt tokens t) :
      FromStmt tokens (.block [s, t]) :=
    fromStmts (List.forall_mem_cons.mpr ⟨hs, List.forall_mem_singleton.mpr ht⟩)
  unfold forLoop
  cases increment with
  | none =>
    cases initializer with
    | none => exact hloop _ hbody
    | some initializer => exact hpair _ _ (hinitializer initializer rfl) (hloop _ hbody)
  | some increment =>
    have hbody' := hpair _ (.expression increment) hbody (hincrement increment rfl)
    cases initializer with
    | none => exact hloop _ hbody'
    | some initializer => exact hpair _ _ (hinitializer initializer rfl) (hloop _ hbody')

include h

theorem yields_block : Yields tokens (block inner) fun body => ∀ s ∈ body, FromStmt tokens s := by
  refine (yields_untilRightBrace h.declaration _).bind fun body hbody =>
    (yields_expect _ _).bind fun _ _ => .pure fun s hs => ?_
  obtain ⟨o, ho, hs⟩ := List.mem_filterMap.mp hs
  exact hbody o ho s hs

theorem yields_function (kind : String) :
    Yields tokens (function inner kind) (FromFunction tokens) := by
  refine (yields_expectName _).bind fun name hname => (yields_expect _ _).bind fun _ _ =>
    (yields_listItems (yields_expectName _) _ _).bind fun parameters hparameters =>
      (yields_expect _ _).bind fun _ _ => (yields_expect _ _).bind fun _ _ =>
        (yields_block h).bind fun body hbody => .pure ?_
  refine List.forall_mem_cons.mpr ⟨hname, List.forall_mem_append.mpr ⟨?_, fromStmts hbody⟩⟩
  exact List.forall_mem_map.mpr hparameters

theorem yields_classDeclaration : Yields tokens (classDeclaration inner) (FromStmt tokens) := by
  have hsuperclass : Yields tokens superclass? fun o => ∀ s ∈ o, s.name.leaf.From tokens := by
    refine (yields_accept _).bind fun _ _ => .ite _ ?_ (.pure nofun)
    exact (yields_expectName _).bind fun _ hname => yields_freshId.bind fun _ _ =>
      .pure fun s hs => Option.some.inj hs ▸ hname
  refine (yields_expectName _).bind fun name hname => hsuperclass.bind fun superclass hsuper =>
    (yields_expect _ _).bind fun _ _ =>
      (yields_untilRightBrace (yields_function h _) _).bind fun methods hmethods =>
        (yields_expect _ _).bind fun _ _ => .pure ?_
  refine List.forall_mem_cons.mpr ⟨hname, List.forall_mem_append.mpr ⟨?_, fun leaf hleaf => ?_⟩⟩
  · cases superclass with
    | none => exact nofun
    | some superclass => exact List.forall_mem_singleton.mpr (hsuper superclass rfl)
  · obtain ⟨f, hf, hleaf⟩ := Stmt.mem_methodsLeaves.mp hleaf
    exact hmethods f hf leaf hleaf

theorem yields_forStatement : Yields tokens (forStatement inner) (FromStmt tokens) :=
  (yields_expect _ _).bind fun _ _ => yields_forInitializer.bind fun _ hinitializer =>
    (yields_unlessNext _).bind fun _ hcondition => (yields_expect _ _).bind fun _ _ =>
      (yields_unlessNext _).bind fun _ hincrement => (yields_expect _ _).bind fun _ _ =>
        h.statement.bind fun _ hbody =>
          .pure (from_forLoop hinitializer hcondition hincrement hbody)

theorem yields_ifStatement : Yields tokens (ifStatement inner) (FromStmt tokens) := by
  refine (yields_expect _ _).bind fun _ _ => (yields_innerExpression inner).bind
    fun condition hcondition => (yields_expect _ _).bind fun _ _ =>
      h.statement.bind fun thenBranch hthen => (yields_accept _).bind fun _ _ => ?_
  have hrest (elseBranch : Option Stmt) (helse : ∀ s ∈ elseBranch, FromStmt tokens s) :
      Yields tokens (pure (.ifElse condition thenBranch elseBranch)) (FromStmt tokens) := by
    refine .pure ?_
    cases elseBranch with
    | none => exact List.forall_mem_append.mpr ⟨hcondition, hthen⟩
    | some elseBranch =>
      exact List.forall_mem_append.mpr
        ⟨List.forall_mem_append.mpr ⟨hcondition, hthen⟩, helse elseBranch rfl⟩
  refine .ite _ ?_ ?_
  · refine Yields.bind (h.statement.map fun s hs => ?_) hrest
    exact fun a ha => Option.some.inj ha ▸ hs
  · exact Yields.bind (.pure nofun) hrest

theorem yields_whileStatement : Yields tokens (whileStatement inner) (FromStmt tokens) :=
  (yields_expect _ _).bind fun _ _ => (yields_innerExpression inner).bind fun _ hcondition =>
    (yields_expect _ _).bind fun _ _ => h.statement.bind fun _ hbody =>
      .pure (List.forall_mem_append.mpr ⟨hcondition, hbody⟩)

theorem yields_anyStatement : Yields tokens (anyStatement inner) (FromStmt tokens) := by
  refine (yields_accept _).bind fun _ _ => .ite _ (yields_forStatement h) ?_
  refine (yields_accept _).bind fun _ _ => .ite _ (yields_ifStatement h) ?_
  refine (yields_accept _).bind fun _ _ => .ite _ yields_printStatement ?_
  refine (yields_accept? _).bind fun keyword _ => ?_
  cases keyword with
  | some keyword => exact yields_returnStatement keyword
  | none =>
  refine (yields_accept _).bind fun _ _ => .ite _ (yields_whileStatement h) ?_
  refine (yields_accept _).bind fun _ _ => .ite _ ?_ yields_expressionStatement
  exact (yields_block h).bind fun _ hbody => .pure (fromStmts hbody)

theorem yields_anyDeclaration :
    Yields tokens (anyDeclaration inner) fun o => ∀ s ∈ o, FromStmt tokens s := by
  refine yields_recovering ?_
  refine (yields_accept _).bind fun _ _ => .ite _ (yields_classDeclaration h) ?_
  refine (yields_accept _).bind fun _ _ => .ite _ ?_ ?_
  · exact (yields_function h _).bind fun _ hfunction => .pure hfunction
  · exact (yields_accept _).bind fun _ _ => .ite _ yields_varDeclaration (yields_anyStatement h)

end

theorem yields_innerAt (depth : Nat) : (innerAt depth).Yields tokens := by
  induction depth with
  | zero => exact ⟨yields_fail _ _, yields_recovering (yields_fail _ _)⟩
  | succ depth ih => exact ⟨yields_anyStatement ih, yields_anyDeclaration ih⟩

theorem yields_declarations (depth limit : Nat) :
    Yields tokens (declarations depth limit) fun body => ∀ s ∈ body, FromStmt tokens s := by
  induction limit with
  | zero => exact .pure nofun
  | succ limit ih =>
    refine yields_atEnd.bind fun _ _ => .ite _ (.pure nofun) ?_
    refine (yields_innerAt depth).declaration.bind fun first hfirst =>
      ih.bind fun others hothers => .pure (List.forall_mem_append.mpr ⟨?_, hothers⟩)
    simpa using hfirst

end Parser

/-- The leaves of a program are those of its tokens, whatever errors it has. -/
theorem Program.from_tokens (tokens : List Token) (first : NodeId) :
    ∀ s ∈ (Program.ofTokens tokens first).statements, ∀ leaf ∈ s.leaves, leaf.From tokens := by
  have h := Parser.yields_declarations tokens.length (tokens.length + 1)
    { rest := tokens, next := first } (List.Subset.refl tokens)
  unfold Program.ofTokens
  dsimp only
  split at h
  · next heq =>
    rw [heq]
    exact h.2
  · next stop t heq =>
    rw [heq]
    cases stop <;> exact nofun

end Lox
