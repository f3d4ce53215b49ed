import Lox.Proofs.Parser.Preservation

/-!
# Progress

What a step may still cost is bounded by the tokens that are left: an error that stops a declaration
is paid for with a token. So the fatal errors recorded and the tokens left are counted together. No
step adds to that count. Where a declaration is tried, something is taken from it: a result means
that a token was read, and a failure means that a token was read or that one is still there to be
skipped. At the end of the input there is none to skip, so there the token read before pays for the
error.
-/
namespace Lox.Parser
variable {α β : Type}

section Failures
variable {ε σ : Type} {x : EStateM ε σ α} {f : α → EStateM ε σ β} {s s' : σ}

theorem bind_eq_error {stop : ε} : (x >>= f) s = .error stop s' ↔
    x s = .error stop s' ∨ ∃ a t, x s = .ok a t ∧ f a t = .error stop s' := by
  simp only [bind, EStateM.bind]
  cases x s with
  | ok a t => simp only [EStateM.Result.ok.injEq]; grind
  | error stop t => simp

end Failures

/-- The fatal errors recorded. -/
def State.fatal (s : State) : Nat := s.errors.toList.countP SyntaxError.isFatal

/-- The fatal errors recorded and the tokens left. -/
def State.count (s : State) : Nat := s.fatal + s.rest.length

/-- A token comes next that is not the end of the input. -/
def State.More (s : State) : Prop := ∃ token rest, s.rest = token :: rest ∧ token.kind.isEnd = false

theorem Follows.fatal_le {s s' : State} (h : Follows s s') : s.fatal ≤ s'.fatal := by
  obtain ⟨added, hadded⟩ := h.errors
  simp [State.fatal, hadded]

/-- What is taken from the count is taken from the tokens. -/
theorem Follows.shorter {s s' : State} (h : Follows s s') (hcount : s'.count < s.count) :
    s'.rest.length < s.rest.length := by
  have hfatal := h.fatal_le
  unfold State.count at hcount
  omega

theorem State.count_read {s : State} {token : Token} {rest : List Token}
    (h : s.rest = token :: rest) : (s.read token rest).count < s.count := by
  simp [State.count, State.fatal, State.read, h]

structure Bounded (step : Parse α) : Prop where
  ok {s s' : State} {a : α} : step s = .ok a s' → s'.count ≤ s.count
  error {s s' : State} {error : SyntaxError} :
    step s = .error (.error error) s' → s'.count ≤ s.count

namespace Bounded

theorem pure (a : α) : Bounded (pure a : Parse α) := by
  constructor
  · intro s s' b h
    obtain ⟨-, rfl⟩ := pure_eq_ok.mp h
    exact Nat.le_refl _
  · intro s s' error h
    cases h

theorem bind {x : Parse α} {f : α → Parse β} (hx : Bounded x) (hf : ∀ a, Bounded (f a)) :
    Bounded (x >>= f) := by
  constructor
  · intro s s' b h
    obtain ⟨a, t, ha, hb⟩ := bind_eq_ok.mp h
    exact Nat.le_trans ((hf a).ok hb) (hx.ok ha)
  · intro s s' error h
    obtain h | ⟨a, t, ha, hb⟩ := bind_eq_error.mp h
    · exact hx.error h
    · exact Nat.le_trans ((hf a).error hb) (hx.ok ha)

/-- A step that leaves the count as it is and does not fail. -/
theorem of_total {step : Parse α} (htotal : Total step)
    (h : ∀ s s' a, step s = .ok a s' → s'.count ≤ s.count) : Bounded step :=
  ⟨fun hok => h _ _ _ hok, fun herror => absurd herror (htotal _ _ _)⟩

theorem peek : Bounded peek := by
  refine of_total total_peek fun s s' token h => ?_
  obtain ⟨rfl, -⟩ := peek_eq_ok.mp h
  exact Nat.le_refl _

theorem accept? (f : Token → Option α) : Bounded (accept? f) := by
  have htotal : Total (Parser.accept? f) := by
    intro s error s'
    unfold Parser.accept?
    split
    · simp
    · split <;> simp
  refine of_total htotal fun s s' a h => ?_
  cases a with
  | some a =>
    obtain ⟨token, rest, hrest, -, rfl⟩ := accept?_some h
    exact Nat.le_of_lt (State.count_read hrest)
  | none =>
    obtain ⟨rfl, -⟩ := accept?_none h
    exact Nat.le_refl _

theorem fail (cause : SyntaxError.Cause) : Bounded (fail cause : Parse α) := by
  refine peek.bind fun token => ⟨fun h => ?_, fun h => ?_⟩
  · cases h
  · cases h
    exact Nat.le_refl _

theorem freshId : Bounded freshId := by
  refine of_total (fun s error s' h => ?_) fun s s' id h => ?_
  · cases h
  · obtain ⟨-, rfl⟩ := freshId_eq_ok.mp h
    exact Nat.le_refl _

/-- Errors that are not fatal are not counted. -/
theorem record {error : SyntaxError} (h : error.isFatal = false) : Bounded (record error) := by
  refine of_total (total_record error) fun s s' u hrun => ?_
  rw [record_eq_ok hrun]
  simp [State.count, State.fatal, h]

theorem assignTo (target : Expr) (equals : Token) (value : Expr) :
    Bounded (assignTo target equals value) := by
  unfold Parser.assignTo
  split
  · exact freshId.bind fun _ => pure _
  · exact pure _
  · exact (record rfl).bind fun _ => pure _

end Bounded

theorem composed_bounded : Composed Bounded where
  pure := .pure
  bind := .bind
  peek := .peek
  accept? _ := .accept? _
  fail _ := .fail _
  freshId := .freshId
  recordNext hcause := Bounded.peek.bind fun _ => .record hcause
  assignmentRest depth target h := by
    refine (Bounded.accept? _).bind fun equals => ?_
    cases equals with
    | some equals => exact h.bind fun value => .assignTo target equals value
    | none => exact .pure _

/-- A result means that the count is less. So does a failure, unless no token was read. -/
structure Spends (step : Parse α) : Prop where
  ok {s s' : State} {a : α} : step s = .ok a s' → s'.count < s.count
  error {s s' : State} {error : SyntaxError} : step s = .error (.error error) s' →
    s'.count < s.count ∨ s'.count ≤ s.count ∧ s'.rest = s.rest

namespace Spends

theorem bind {x : Parse α} {f : α → Parse β} (hx : Spends x) (hf : ∀ a, Bounded (f a)) :
    Spends (x >>= f) := by
  constructor
  · intro s s' b h
    obtain ⟨a, t, ha, hb⟩ := bind_eq_ok.mp h
    exact Nat.lt_of_le_of_lt ((hf a).ok hb) (hx.ok ha)
  · intro s s' error h
    obtain h | ⟨a, t, ha, hb⟩ := bind_eq_error.mp h
    · exact hx.error h
    · exact .inl (Nat.lt_of_le_of_lt ((hf a).error hb) (hx.ok ha))

theorem fail (cause : SyntaxError.Cause) : Spends (fail cause : Parse α) := by
  constructor
  · intro s s' a h
    exact absurd h fail_ne_ok
  · intro s s' error h
    cases hrest : s.rest with
    | nil => simp [Parser.fail, peek, Bind.bind, EStateM.bind, hrest] at h
    | cons token rest =>
      rw [fail_eq hrest] at h
      cases h
      exact .inr ⟨Nat.le_refl _, hrest⟩

/-- If the token is read, anything may follow. -/
theorem accept?_bind {f : Token → Option α} {g : Option α → Parse β}
    (hsome : ∀ a, Bounded (g (some a))) (hnone : Spends (g none)) : Spends (accept? f >>= g) := by
  constructor
  · intro s s' b h
    obtain ⟨a, t, ha, hb⟩ := bind_eq_ok.mp h
    cases a with
    | some a =>
      obtain ⟨token, rest, hrest, -, rfl⟩ := accept?_some ha
      exact Nat.lt_of_le_of_lt ((hsome a).ok hb) (State.count_read hrest)
    | none =>
      rw [← (accept?_none ha).1] at hb
      exact hnone.ok hb
  · intro s s' error h
    obtain h | ⟨a, t, ha, hb⟩ := bind_eq_error.mp h
    · exact .inr ⟨(Bounded.accept? f).error h, by
        unfold Parser.accept? at h
        split at h
        · cases h
        · split at h <;> cases h⟩
    · cases a with
      | some a =>
        obtain ⟨token, rest, hrest, -, rfl⟩ := accept?_some ha
        exact .inl (Nat.lt_of_le_of_lt ((hsome a).error hb) (State.count_read hrest))
      | none =>
        rw [← (accept?_none ha).1] at hb
        exact hnone.error hb

theorem require (f : Token → Option α) (what : String) : Spends (require f what) :=
  accept?_bind (fun a => .pure a) (fail _)

theorem accept_bind {symbol : Symbol} {x y : Parse α} (hx : Bounded x) (hy : Spends y) :
    Spends (accept symbol >>= fun found => if found = true then x else y) := by
  have heq : (accept symbol >>= fun found => if found = true then x else y) =
      accept? (only symbol) >>= fun found => if found.isSome = true then x else y := by
    simp only [accept, bind_assoc, pure_bind]
  rw [heq]
  exact accept?_bind (fun _ => hx) hy

end Spends

/-- A result means that a token was read. -/
theorem Safe.shorter {step : Parse α} (hsafe : Safe step) (h : Spends step) {s s' : State} {a : α}
    (hrun : step s = .ok a s') : s'.rest.length < s.rest.length :=
  (hsafe.ok hrun).shorter (h.ok hrun)

section
variable {nested : Parse Expr} (hnested : Bounded nested)
include hnested

theorem spends_primary : Spends (primary nested) := by
  unfold primary
  refine .accept?_bind (fun _ => .pure _) ?_
  refine .accept?_bind (fun keyword => composed_bounded.superclassMethod keyword) ?_
  refine .accept?_bind (fun _ => Bounded.freshId.bind fun _ => .pure _) ?_
  refine .accept?_bind (fun _ => Bounded.freshId.bind fun _ => .pure _) ?_
  refine .accept_bind ?_ (.fail _)
  exact hnested.bind fun _ => (composed_bounded.expect _ _).bind fun _ => .pure _

theorem spends_call (limit : Nat) : Spends (call limit nested) :=
  (spends_primary hnested).bind fun callee =>
    composed_bounded.callSuffixes hnested limit limit callee

end

theorem Bounded.of_spends {step : Parse α} (h : Spends step) : Bounded step :=
  ⟨fun hrun => Nat.le_of_lt (h.ok hrun), fun hrun => by
    obtain hlt | ⟨hle, -⟩ := h.error hrun
    · exact Nat.le_of_lt hlt
    · exact hle⟩

theorem spends_unary {operand : Parse Expr} (h : Spends operand) (limit : Nat) :
    Spends (unary operand limit) := by
  induction limit with
  | zero => exact h
  | succ limit ih => exact .accept?_bind (fun _ => (Bounded.of_spends ih).bind fun _ => .pure _) h

theorem spends_leftAssociative {operator? : Token → Option Combine} {operand : Parse Expr}
    (hoperator : Skips operator?) (h : Spends operand) (limit : Nat) :
    Spends (leftAssociative operator? operand limit) :=
  h.bind fun left => composed_bounded.operations hoperator (.of_spends h) limit left

section
variable {nested : Parse Expr} (hnested : Bounded nested) (limit : Nat)
include hnested

theorem spends_factor : Spends (factor limit nested) :=
  spends_leftAssociative (skips_binary? _) (spends_unary (spends_call hnested limit) limit) limit

theorem spends_term : Spends (term limit nested) :=
  spends_leftAssociative (skips_binary? _) (spends_factor hnested limit) limit

theorem spends_comparison : Spends (comparison limit nested) :=
  spends_leftAssociative (skips_binary? _) (spends_term hnested limit) limit

theorem spends_equality : Spends (equality limit nested) :=
  spends_leftAssociative (skips_binary? _) (spends_comparison hnested limit) limit

theorem spends_conjunction : Spends (conjunction limit nested) :=
  spends_leftAssociative (skips_logical? _ _) (spends_equality hnested limit) limit

theorem spends_disjunction : Spends (disjunction limit nested) :=
  spends_leftAssociative (skips_logical? _ _) (spends_conjunction hnested limit) limit

end

theorem spends_expression (depth : Nat) : Spends (expression depth) := by
  cases depth with
  | zero => exact .fail _
  | succ depth =>
    have hnested := composed_bounded.expression depth
    have hassignment : Spends (assignment depth (expression depth)) := by
      rw [assignment_eq]
      exact (spends_disjunction hnested depth).bind fun target =>
        composed_bounded.assignmentRest depth target hnested
    exact hassignment

section
variable {inner : Inner} (hblock : Bounded (block inner))
include hblock

theorem spends_function (kind : String) : Spends (function inner kind) :=
  (Spends.require _ _).bind fun _ => (composed_bounded.expect _ _).bind fun _ =>
    (composed_bounded.listItems rfl (composed_bounded.expectName _) _).bind fun _ =>
      (composed_bounded.expect _ _).bind fun _ => (composed_bounded.expect _ _).bind fun _ =>
        hblock.bind fun _ => .pure _

theorem spends_anyStatement (hstatement : Bounded inner.statement) : Spends (anyStatement inner) := by
  refine .accept_bind (composed_bounded.forStatement hstatement) ?_
  refine .accept_bind (composed_bounded.ifStatement hstatement) ?_
  refine .accept_bind composed_bounded.printStatement ?_
  refine .accept?_bind (fun keyword => composed_bounded.returnStatement keyword) ?_
  refine .accept_bind (composed_bounded.whileStatement hstatement) ?_
  refine .accept_bind (hblock.bind fun _ => .pure _) ?_
  exact (spends_expression _).bind fun _ => (composed_bounded.expect _ _).bind fun _ => .pure _

end

theorem spends_attempt {depth : Nat} (hstatement : Bounded (statement depth))
    (hblock : Bounded (block (innerAt depth))) : Spends (attempt (depth + 1)) := by
  refine .accept_bind (composed_bounded.classDeclaration hblock) ?_
  refine .accept_bind ((Bounded.of_spends (spends_function hblock _)).bind fun _ => .pure _) ?_
  exact .accept_bind composed_bounded.varDeclaration (spends_anyStatement hblock hstatement)

/-- In front of the end of the input nothing is skipped, and before it at least one token. -/
theorem count_synchronize {s s' : State} (h : synchronize s = .ok () s') :
    s'.count ≤ s.count ∧ (s.More → s'.count < s.count) := by
  unfold synchronize at h
  split at h
  · cases h
  · next token rest hrest =>
    split at h
    · next hend =>
      split at h
      · cases h
        refine ⟨Nat.le_refl _, fun ⟨first, tail, hmore, hfirst⟩ => ?_⟩
        simp_all
      · cases h
    · next hend =>
      split at h
      · next last tail hresume =>
        cases h
        obtain ⟨⟨used, rfl⟩, -⟩ := resume_eq hresume
        have hlt : State.count { s with rest := tail, previous? := some last } < s.count := by
          simp only [State.count, State.fatal, hrest, List.length_cons, List.length_append]
          omega
        exact ⟨Nat.le_of_lt hlt, fun _ => hlt⟩
      · cases h

/-- Where a token comes next that is not the end of the input, what is tried reads or skips a token,
and its error, if there is one, is paid for. -/
theorem recovering_count {step : Parse α} (hsafe : Safe step) (h : Spends step) {s s' : State}
    {a : Option α} (hmore : s.More) (hrun : recovering step s = .ok a s') :
    s'.count ≤ s.count ∧ s'.rest.length < s.rest.length := by
  unfold recovering at hrun
  cases hstep : step s with
  | ok b t =>
    rw [hstep] at hrun
    cases hrun
    exact ⟨Nat.le_of_lt (h.ok hstep), hsafe.shorter h hstep⟩
  | error stop t =>
    rw [hstep] at hrun
    cases stop with
    | fault fault => cases hrun
    | error error =>
      obtain ⟨_, u, hrecord, hrun⟩ := bind_eq_ok.mp hrun
      obtain ⟨_, v, hsync, hrun⟩ := bind_eq_ok.mp hrun
      obtain ⟨-, rfl⟩ := pure_eq_ok.mp hrun
      rw [record_eq_ok hrecord] at hsync
      have hrecorded : State.count { t with errors := t.errors.push error } ≤ t.count + 1 := by
        simp only [State.count, State.fatal, Array.toList_push, List.countP_append,
          List.countP_singleton]
        split <;> omega
      have hgone := safe_synchronize.ok hsync
      obtain ⟨hle, hlt⟩ := count_synchronize hsync
      obtain hspent | ⟨hcount, hrest⟩ := h.error hstep
      · have hshort := (hsafe.error hstep).shorter hspent
        exact ⟨by omega, Nat.lt_of_le_of_lt hgone.length_le hshort⟩
      · obtain ⟨token, rest, hs, hend⟩ := hmore
        have hlt := hlt ⟨token, rest, hrest.trans hs, hend⟩
        exact ⟨by omega, hrest ▸ hgone.shorter hlt⟩

/-- The item is tried before the end of the input, and its result means that a token is gone. -/
def Advances (item : Parse α) : Prop :=
  ∀ ⦃s s' : State⦄ ⦃a : α⦄, s.More → item s = .ok a s' → s'.rest.length < s.rest.length

/-- An item after the other, each of them before the end of the input and each with a result that
leaves fewer tokens. -/
inductive Rounds (item : Parse α) : State → List α → State → Prop
  | done (s : State) : Rounds item s [] s
  | round {s t u : State} {a : α} {as : List α} : s.More → item s = .ok a t →
      t.rest.length < s.rest.length → Rounds item t as u → Rounds item s (a :: as) u

/-- One round of the loop up to a closing brace. -/
theorem untilRightBrace_eq_ok {item : Parse α} {limit : Nat} {s s' : State} {as : List α}
    (h : untilRightBrace item (limit + 1) s = .ok as s') :
    (as = [] ∧ s' = s ∧ ∃ token rest, s.rest = token :: rest ∧
        (token.kind = .symbol .rightBrace ∨ token.kind.isEnd = true)) ∨
      s.More ∧ ∃ a t bs, item s = .ok a t ∧ untilRightBrace item limit t = .ok bs s' ∧
        as = a :: bs := by
  obtain ⟨closed, t, hcheck, h⟩ := bind_eq_ok.mp h
  obtain ⟨rfl, token, rest, hrest, hclosed⟩ := check_eq_ok hcheck
  obtain ⟨ended, t, hatEnd, h⟩ := bind_eq_ok.mp h
  obtain ⟨rfl, token', rest', hrest', hended⟩ := atEnd_eq_ok hatEnd
  obtain ⟨rfl, rfl⟩ := List.cons.inj (hrest.symm.trans hrest')
  split at h
  · next hstop =>
    obtain ⟨rfl, rfl⟩ := pure_eq_ok.mp h
    rw [Bool.or_eq_true, hclosed, ← hended] at hstop
    exact .inl ⟨rfl, rfl, token, rest, hrest, hstop⟩
  · next hgo =>
    rw [Bool.or_eq_true, not_or, Bool.not_eq_true ended] at hgo
    obtain ⟨a, t, ha, h⟩ := bind_eq_ok.mp h
    obtain ⟨bs, u, hbs, h⟩ := bind_eq_ok.mp h
    obtain ⟨rfl, rfl⟩ := pure_eq_ok.mp h
    exact .inr ⟨⟨token, rest, hrest, hended.trans hgo.2⟩, a, t, bs, ha, hbs, rfl⟩

theorem rounds_untilRightBrace {item : Parse α} (h : Advances item) {limit : Nat} {s s' : State}
    {as : List α} (hrun : untilRightBrace item limit s = .ok as s') : Rounds item s as s' := by
  induction limit generalizing s as with
  | zero =>
    obtain ⟨rfl, rfl⟩ := pure_eq_ok.mp hrun
    exact .done s
  | succ limit ih =>
    obtain ⟨rfl, rfl, -⟩ | ⟨hmore, a, t, bs, ha, hbs, rfl⟩ := untilRightBrace_eq_ok hrun
    · exact .done s'
    · exact .round hmore ha (h hmore ha) (ih hbs)

theorem total_untilRightBrace {item : Parse α} (h : Total item) (limit : Nat) :
    Total (untilRightBrace item limit) := by
  induction limit with
  | zero => exact .pure _
  | succ limit ih =>
    refine (total_peek.bind fun _ => .pure _).bind fun closed =>
      (total_peek.bind fun _ => .pure _).bind fun ended => ?_
    split
    · exact .pure _
    · exact h.bind fun _ => ih.bind fun _ => .pure _

/-- What each item preserves, the loop preserves. -/
theorem Rounds.count_le {item : Parse α}
    (h : ∀ {s s' a}, s.More → item s = .ok a s' → s'.count ≤ s.count) {s s' : State} {as : List α}
    (hrounds : Rounds item s as s') : s'.count ≤ s.count := by
  induction hrounds with
  | done s => exact Nat.le_refl _
  | round hmore hrun _ _ ih => exact Nat.le_trans ih (h hmore hrun)

theorem declaration_count {depth : Nat} (h : Spends (attempt depth)) {s s' : State}
    {d : Option Stmt} (hmore : s.More) (hrun : declaration depth s = .ok d s') :
    s'.count ≤ s.count ∧ s'.rest.length < s.rest.length := by
  rw [declaration_eq] at hrun
  exact recovering_count (safe_attempt depth) h hmore hrun

theorem bounded_block {depth : Nat} (h : Spends (attempt depth)) :
    Bounded (block (innerAt depth)) := by
  refine composed_bounded.block (.of_total (total_untilRightBrace (total_declaration depth) _) ?_)
  intro s s' ds hrun
  have hrounds := rounds_untilRightBrace (fun _ _ _ hmore hd => (declaration_count h hmore hd).2) hrun
  exact hrounds.count_le fun hmore hd => (declaration_count h hmore hd).1

/-- The steps up to a depth do not add to the count, and every declaration takes from it. -/
theorem spends_innerAt (depth : Nat) : Bounded (statement depth) ∧ Spends (attempt depth) := by
  induction depth with
  | zero => exact ⟨.fail _, .fail _⟩
  | succ depth ih =>
    have hblock := bounded_block ih.2
    exact ⟨.of_spends (spends_anyStatement hblock ih.1), spends_attempt ih.1 hblock⟩

theorem advances_declaration (depth : Nat) : Advances (declaration depth) :=
  fun _ _ _ hmore hrun => (declaration_count (spends_innerAt depth).2 hmore hrun).2

theorem advances_method (depth : Nat) (kind : String) :
    Advances (function (innerAt depth) kind) :=
  fun _ _ _ _ hrun => (safe_function (safe_innerAt depth) kind).shorter
    (spends_function (bounded_block (spends_innerAt depth).2) kind) hrun

/-- A declaration that is tried before the end of the input comes to an end, with or without an
error. -/
theorem exists_declaration {s : State} (hready : Ready s) (depth : Nat) :
    ∃ d s', declaration depth s = .ok d s' ∧ Follows s s' := by
  have hsafe := (safe_innerAt depth).declaration
  cases hrun : declaration depth s with
  | ok d s' => exact ⟨d, s', rfl, hsafe.ok hrun⟩
  | error stop s' =>
    cases stop with
    | error error => exact absurd hrun (total_declaration depth s error s')
    | fault fault => exact absurd hready (hsafe.fault hrun)

/-- In front of a token that is not the end of the input, the one before is never looked at. -/
theorem ready_of_more {s : State} (hends : EndsInput s.rest) (hmore : s.More) : Ready s :=
  ⟨hends, .inr hmore⟩

theorem EndsInput.eq_nil {token : Token} {rest : List Token} (h : EndsInput (token :: rest))
    (hend : token.kind.isEnd = true) : rest = [] := by
  obtain ⟨front, last, heq, -, hfront⟩ := h
  cases front with
  | nil => exact (List.cons.inj heq).2
  | cons first front =>
    obtain ⟨rfl, -⟩ := List.cons.inj heq
    rw [hfront token List.mem_cons_self] at hend
    exact absurd hend (by decide)

/-- The loop over all declarations tries one after the other, up to the end of the input. -/
theorem rounds_declarations {depth limit : Nat} {s s' : State} {statements : List Stmt}
    (hlimit : s.rest.length ≤ limit) (hends : EndsInput s.rest)
    (hrun : declarations depth limit s = .ok statements s') :
    ∃ ds, statements = ds.reduceOption ∧ Rounds (declaration depth) s ds s' ∧
      ∃ last, s'.rest = [last] ∧ last.kind.isEnd = true := by
  induction limit generalizing s statements with
  | zero => exact absurd (List.length_eq_zero_iff.mp (Nat.le_zero.mp hlimit)) hends.ne_nil
  | succ limit ih =>
    obtain ⟨ended, t, hatEnd, hrun⟩ := bind_eq_ok.mp hrun
    obtain ⟨rfl, token, rest, hrest, hended⟩ := atEnd_eq_ok hatEnd
    split at hrun
    · next hstop =>
      obtain ⟨rfl, rfl⟩ := pure_eq_ok.mp hrun
      have hend := hended.trans hstop
      rw [hrest] at hends
      exact ⟨[], rfl, .done s, token, by rw [hrest, hends.eq_nil hend], hend⟩
    · next hgo =>
      have hmore : s.More := ⟨token, rest, hrest, hended.trans (Bool.not_eq_true _ ▸ hgo)⟩
      obtain ⟨d, t, hd, hrun⟩ := bind_eq_ok.mp hrun
      obtain ⟨others, u, hothers, hrun⟩ := bind_eq_ok.mp hrun
      obtain ⟨rfl, rfl⟩ := pure_eq_ok.mp hrun
      have hshorter := advances_declaration depth hmore hd
      have hready := ((safe_innerAt depth).declaration.ok hd).ready (ready_of_more hends hmore)
      obtain ⟨ds, rfl, hrounds, hlast⟩ := ih (by omega) hready.ends hothers
      refine ⟨d :: ds, ?_, .round hmore hd hshorter hrounds, hlast⟩
      cases d <;> rfl

end Lox.Parser
