import Lox.Proofs.Parser.Lists
import Lox.Proofs.Parser.Order
import Lox.Proofs.Parser.Termination
import Mathlib.Data.List.ReduceOption

/-!
# Errors that do not stop the parser

Items of a list that are too many and invalid assignment targets are recorded, and parsing goes on
with all that was read. Only an error that says what is missing stops a step, so a declaration is
left out only because of such an error.
-/
namespace Lox

/-- Whether an assignment to the expression is one to a variable or a property. -/
def Expr.isTarget : Expr → Bool
  | .variable _ _ | .get _ _ => true
  | _ => false

namespace Parser
variable {α β : Type}

theorem assignTo_of_not_isTarget {target : Expr} (h : target.isTarget = false) (equals : Token)
    (value : Expr) (s : State) : assignTo target equals value s =
      .ok target { s with errors := s.errors.push ⟨.invalidAssignmentTarget, equals⟩ } := by
  cases target <;> first | rfl | cases h

/-- An assignment to something else is that, once the value has been read. -/
theorem expression_of_not_isTarget {depth : Nat} {s t u : State} {target value : Expr}
    {equals : Token} {rest : List Token} (htarget : disjunction depth (expression depth) s =
      .ok target t) (hrest : t.rest = equals :: rest) (hequals : equals.kind = .symbol .equal)
    (hinvalid : target.isTarget = false)
    (hvalue : expression depth (t.read equals rest) = .ok value u) :
    expression (depth + 1) s =
      .ok target { u with errors := u.errors.push ⟨.invalidAssignmentTarget, equals⟩ } := by
  have haccept : accept? (only .equal) t = .ok (some equals) (t.read equals rest) := by
    simp only [accept?, hrest, only_eq_some.mpr ⟨hequals, rfl⟩]
    rfl
  have hassigned : assignmentRest (expression depth) target t =
      .ok target { u with errors := u.errors.push ⟨.invalidAssignmentTarget, equals⟩ } := by
    rw [assignmentRest, bind_of_ok haccept]
    dsimp only
    rw [bind_of_ok hvalue, assignTo_of_not_isTarget hinvalid]
  have hrun : assignment depth (expression depth) s = _ :=
    (congrFun (assignment_eq ..) s).trans ((bind_of_ok htarget).trans hassigned)
  exact hrun

/-- The step is stopped by fatal errors only. -/
def StopsFatally (step : Parse α) : Prop :=
  ∀ s error s', step s = .error (.error error) s' → error.isFatal = true

/-- The step records no fatal errors. -/
def RecordsMinor (step : Parse α) : Prop := ∀ s a s', step s = .ok a s' → s'.fatal = s.fatal

namespace StopsFatally

theorem of_total {step : Parse α} (h : Total step) : StopsFatally step :=
  fun s error s' hs => absurd hs (h s error s')

theorem bind {x : Parse α} {f : α → Parse β} (hx : StopsFatally x)
    (hf : ∀ a, StopsFatally (f a)) : StopsFatally (x >>= f) := by
  intro s error s' h
  obtain h | ⟨a, t, -, h⟩ := bind_eq_error.mp h
  · exact hx s error s' h
  · exact hf a t error s' h

theorem accept? (f : Token → Option α) : StopsFatally (accept? f) := by
  refine of_total fun s error s' => ?_
  unfold Parser.accept?
  split
  · simp
  · split <;> simp

theorem fail {cause : SyntaxError.Cause} (h : cause.isFatal = true) :
    StopsFatally (fail cause : Parse α) := by
  refine (of_total total_peek).bind fun token s error s' hs => ?_
  cases hs
  exact h

theorem freshId : StopsFatally freshId := of_total fun _ _ _ => nofun

theorem assignTo (target : Expr) (equals : Token) (value : Expr) :
    StopsFatally (assignTo target equals value) := by
  unfold Parser.assignTo
  split
  · exact freshId.bind fun _ => of_total (.pure _)
  · exact of_total (.pure _)
  · exact (of_total (total_record _)).bind fun _ => of_total (.pure _)

end StopsFatally

theorem preserved_stopsFatally : Preserved StopsFatally where
  pure a := .of_total (.pure a)
  bind := .bind
  peek := .of_total total_peek
  accept? _ := .accept? _
  fail := .fail
  freshId := .freshId
  recordNext _ := .of_total (total_peek.bind fun _ => total_record _)
  assignmentRest depth target h := by
    refine (StopsFatally.accept? _).bind fun equals => ?_
    cases equals with
    | some equals => exact h.bind fun value => .assignTo target equals value
    | none => exact .of_total (.pure _)
  recovering _ := .of_total (total_recovering _)

namespace RecordsMinor

theorem pure (a : α) : RecordsMinor (pure a : Parse α) := by
  intro s b s' h
  obtain ⟨-, rfl⟩ := pure_eq_ok.mp h
  rfl

theorem bind {x : Parse α} {f : α → Parse β} (hx : RecordsMinor x)
    (hf : ∀ a, RecordsMinor (f a)) : RecordsMinor (x >>= f) := by
  intro s b s' h
  obtain ⟨a, t, ha, hb⟩ := bind_eq_ok.mp h
  exact (hf a t b s' hb).trans (hx s a t ha)

theorem peek : RecordsMinor peek := by
  intro s token s' h
  obtain ⟨rfl, -⟩ := peek_eq_ok.mp h
  rfl

theorem accept? (f : Token → Option α) : RecordsMinor (accept? f) := by
  intro s o s' h
  cases o with
  | some a =>
    obtain ⟨token, rest, -, -, rfl⟩ := accept?_some h
    rfl
  | none =>
    obtain ⟨rfl, -⟩ := accept?_none h
    rfl

theorem freshId : RecordsMinor freshId := by
  intro s id s' h
  obtain ⟨-, rfl⟩ := freshId_eq_ok.mp h
  rfl

theorem record {error : SyntaxError} (h : error.isFatal = false) : RecordsMinor (record error) := by
  intro s u s' hrun
  rw [record_eq_ok hrun]
  simp [State.fatal, h]

theorem assignTo (target : Expr) (equals : Token) (value : Expr) :
    RecordsMinor (assignTo target equals value) := by
  unfold Parser.assignTo
  split
  · exact freshId.bind fun _ => pure _
  · exact pure _
  · exact (record rfl).bind fun _ => pure _

end RecordsMinor

theorem composed_recordsMinor : Composed RecordsMinor where
  pure := .pure
  bind := .bind
  peek := .peek
  accept? _ := .accept? _
  fail _ := fun _ _ _ h => absurd h fail_ne_ok
  freshId := .freshId
  recordNext hcause := RecordsMinor.peek.bind fun _ => .record hcause
  assignmentRest depth target h := by
    refine (RecordsMinor.accept? _).bind fun equals => ?_
    cases equals with
    | some equals => exact h.bind fun value => .assignTo target equals value
    | none => exact .pure _

theorem stopsFatally_attempt (depth : Nat) : StopsFatally (attempt depth) := by
  have h := preserved_stopsFatally
  cases depth with
  | zero => exact .fail rfl
  | succ depth =>
    exact h.attempt (h.innerAt depth).1 (h.block (h.untilRightBrace (h.innerAt depth).2 _))

/-- What is left out has been stopped by a fatal error, which is recorded. -/
theorem stopped_of_dropped {depth : Nat} {s u : State} (hready : Ready s)
    (h : declaration depth s = .ok none u) :
    ∃ t error, attempt depth s = .error (.error error) t ∧ error.isFatal = true ∧
      u.errors = t.errors.push error := by
  cases hattempt : attempt depth s with
  | ok stmt t =>
    rw [declaration_eq, recovering, hattempt] at h
    cases h
  | error stop t =>
    cases stop with
    | fault fault => exact absurd hready ((safe_attempt depth).fault hattempt)
    | error error =>
      obtain ⟨u', p, hrun, herrors, -⟩ := resumes_at_boundary hready hattempt
      obtain ⟨-, rfl⟩ := EStateM.Result.ok.inj (hrun.symm.trans h)
      exact ⟨t, error, rfl, stopsFatally_attempt depth s error t hattempt, herrors⟩

theorem Rounds.follows {item : Parse α} (hsafe : Safe item) {s u : State} {as : List α}
    (h : Rounds item s as u) : Follows s u := by
  induction h with
  | done s => exact .refl s
  | round _ hrun _ _ ih => exact (hsafe.ok hrun).trans ih

/-- If no fatal error is recorded, nothing is left out of what is tried. -/
theorem Rounds.kept {depth : Nat} {s u : State} {ds : List (Option Stmt)}
    (h : Rounds (declaration depth) s ds u) (hends : EndsInput s.rest)
    (hminor : ∀ error ∈ u.errors.toList, error.isFatal = false) :
    ds.reduceOption.map some = ds := by
  induction h with
  | done => rfl
  | @round s t u d ds hmore hrun _ hrounds ih =>
    have hready := ready_of_more hends hmore
    have hfollows := (safe_innerAt depth).declaration.ok hrun
    have hothers := ih (hfollows.ready hready).ends hminor
    cases d with
    | some stmt =>
      rw [List.reduceOption_cons_of_some, List.map_cons, hothers]
    | none =>
      obtain ⟨v, error, -, hfatal, herrors⟩ := stopped_of_dropped hready hrun
      obtain ⟨added, hadded⟩ := (hrounds.follows (safe_innerAt depth).declaration).errors
      have hmem : error ∈ u.errors.toList := by
        rw [hadded, herrors]
        simp
      rw [hminor error hmem] at hfatal
      cases hfatal

/-- How the parser treats errors that are not fatal. -/
structure LosesNothing (depth : Nat) : Prop where
  /-- Every list of arguments or parameters that is read is read item by item. -/
  listed : ∀ {limit : Nat} {s u : State} {closing : Token} {rest : List Token}, Ready s →
    s.rest.length ≤ limit → u.rest = closing :: rest → closing.kind = .symbol .rightParen →
    (∀ arguments, listItems .tooManyArguments (expression depth) limit s = .ok arguments u →
      ∃ entries t, Listed (expression depth) s entries closing t ∧
        arguments = entries.map Entry.value) ∧
    ∀ parameters, listItems .tooManyParameters (expectName "parameter name") limit s =
      .ok parameters u → ∃ entries t, Listed (expectName "parameter name") s entries closing t ∧
        parameters = entries.map Entry.value
  /-- A call keeps all of its arguments, and what follows it is read. -/
  call : ∀ {limit bound : Nat} {s t : State} {opening closing : Token} {rest : List Token}
    {entries : List (Entry Expr)} (callee : Expr), Ready s → s.rest = opening :: rest →
    opening.kind = .symbol .leftParen → rest.length ≤ limit →
    Listed (expression depth) (s.read opening rest) entries closing t →
    ∃ u, callSuffixes limit (expression depth) (bound + 1) callee s =
        callSuffixes limit (expression depth) bound
          (.call callee closing.line (entries.map Entry.value)) u ∧ Beside t u ∧
      u.errors.toList = s.errors.toList ++ reported .tooManyArguments 255 entries ∧
      Alike t u
        (callSuffixes limit (expression depth) bound
          (.call callee closing.line (entries.map Entry.value)) t)
        (callSuffixes limit (expression depth) bound
          (.call callee closing.line (entries.map Entry.value)) u)
  /-- A function or method keeps all of its parameters, and its body is read. -/
  function : ∀ {kind : String} {s t : State} {name opening closing : Token} {rest : List Token}
    {entries : List (Entry Name)}, Ready s → s.rest = name :: opening :: rest →
    name.kind = .identifier → opening.kind = .symbol .leftParen → rest.length ≤ depth →
    Listed (expectName "parameter name") ((s.read name (opening :: rest)).read opening rest)
      entries closing t →
    ∃ u, Parser.function (innerAt depth) kind s = functionBody (innerAt depth) kind
          ⟨name.lexeme, name.line⟩ (entries.map Entry.value) u ∧ Beside t u ∧
      u.errors.toList = s.errors.toList ++ reported .tooManyParameters 255 entries ∧
      Alike t u
        (functionBody (innerAt depth) kind ⟨name.lexeme, name.line⟩ (entries.map Entry.value) t)
        (functionBody (innerAt depth) kind ⟨name.lexeme, name.line⟩ (entries.map Entry.value) u)
  /-- An invalid target is the result, behind the value. -/
  target : ∀ {s t u : State} {target value : Expr} {equals : Token} {rest : List Token},
    disjunction depth (expression depth) s = .ok target t → t.rest = equals :: rest →
    equals.kind = .symbol .equal → target.isTarget = false →
    expression depth (t.read equals rest) = .ok value u →
    expression (depth + 1) s =
      .ok target { u with errors := u.errors.push ⟨.invalidAssignmentTarget, equals⟩ }
  /-- Errors in what is read as an expression are not fatal. -/
  minor : ∀ {s u : State} {e : Expr}, expression depth s = .ok e u → u.fatal = s.fatal
  /-- What was recorded has no influence on what follows. -/
  goesOn : Local (expression depth) ∧ Local (statement depth) ∧ Local (declaration depth) ∧
    ∀ limit, Local (declarations depth limit)
  /-- A declaration is left out because of a fatal error only. -/
  dropped : ∀ {s u : State}, Ready s → declaration depth s = .ok none u →
    ∃ t error, attempt depth s = .error (.error error) t ∧ error.isFatal = true ∧
      u.errors = t.errors.push error

theorem losesNothing (depth : Nat) : LosesNothing depth where
  listed hready hlimit hrest hcloses := by
    refine ⟨fun arguments h => ?_, fun parameters h => ?_⟩
    · exact listed_of_listItems (safe_expression depth) (preserved_local.expression depth) hready
        hlimit h hrest hcloses
    · exact listed_of_listItems (safe_expectName _) (preserved_local.expectName _) hready hlimit h
        hrest hcloses
  call callee hready hrest hopens hlimit h := by
    obtain ⟨u, hrun, hbeside, herrors⟩ := callSuffixes_eq hrest hopens h hready hlimit callee
    have hsuffixes := preserved_local.callSuffixes (preserved_local.expression depth)
    exact ⟨u, hrun, hbeside, herrors, hsuffixes _ _ _ _ _ hbeside⟩
  function hready hrest hname hopens hlimit h := by
    obtain ⟨u, hrun, hbeside, herrors⟩ := function_eq hrest hname hopens h hready hlimit
    exact ⟨u, hrun, hbeside, herrors, local_functionBody depth _ _ _ _ _ hbeside⟩
  target := expression_of_not_isTarget
  minor h := composed_recordsMinor.expression depth _ _ _ h
  goesOn := ⟨preserved_local.expression depth, (preserved_local.innerAt depth).1,
    (preserved_local.innerAt depth).2, preserved_local.declarations depth⟩
  dropped := stopped_of_dropped

end Parser
open Lox.Parser

/-- Errors that are not fatal lose nothing, at whatever depth and in whatever state they are found.
A list keeps its items, however many there are, and adds one error for each item from the 256th on;
an assignment to what is no target is read to its end, adds one error at its equals sign and gives
the target. Everything that follows is read as if nothing had been recorded. So if none of the
errors of some tokens is fatal, then none of the declarations that are tried is left out. -/
theorem Program.loses_nothing (depth : Nat) :
    LosesNothing depth ∧ ∀ (tokens : List Token) (first : NodeId), EndsInput tokens →
      (∀ error ∈ (ofTokens tokens first).errors, error.isFatal = false) →
      ∃ s, Rounds (declaration tokens.length) { rest := tokens, next := first }
        ((ofTokens tokens first).statements.map some) s := by
  refine ⟨losesNothing depth, fun tokens first hends hminor => ?_⟩
  obtain ⟨statements, s, hrun, -⟩ := exists_declarations hends first tokens.length tokens.length
  rw [ofTokens_of_run hends (Nat.le_refl _) (Nat.le_succ _) hrun] at hminor ⊢
  obtain ⟨ds, rfl, hrounds, -⟩ := rounds_declarations (Nat.le_succ _) hends hrun
  refine ⟨s, ?_⟩
  rw [hrounds.kept hends hminor]
  exact hrounds

namespace Parser

/-- `nil` any number of times, with commas between. -/
def nils : (more : Nat) → List Token
  | 0 => [⟨.symbol .kwNil, "nil", 1⟩]
  | more + 1 => ⟨.symbol .kwNil, "nil", 1⟩ :: ⟨.symbol .comma, ",", 1⟩ :: nils more

/-- What is left behind the name of a function that is called with `more + 1` arguments. -/
def callOfNils (more : Nat) : List Token :=
  ⟨.symbol .leftParen, "(", 1⟩ ::
    (nils more ++ [⟨.symbol .rightParen, ")", 1⟩, .endOfInput 1])

theorem length_nils (more : Nat) : (nils more).length = 2 * more + 1 := by
  induction more with
  | zero => rfl
  | succ more ih =>
    simp only [nils, List.length_cons, ih]
    omega

theorem ready_callOfNils (more : Nat) : Ready { rest := callOfNils more } := by
  have hnils : ∀ token ∈ nils more, token.kind.isEnd = false := by
    induction more with
    | zero => simp [nils, Kind.isEnd]
    | succ more ih => simpa [nils, Kind.isEnd] using ih
  refine ⟨⟨⟨.symbol .leftParen, "(", 1⟩ :: (nils more ++ [⟨.symbol .rightParen, ")", 1⟩]),
    .endOfInput 1, by simp [callOfNils], rfl, ?_⟩, .inr ⟨_, _, rfl, rfl⟩⟩
  simpa [Kind.isEnd, or_imp, forall_and] using hnils

theorem entered_nil {s : State} {next : Token} {rest : List Token}
    (hrest : s.rest = ⟨.symbol .kwNil, "nil", 1⟩ :: next :: rest)
    (hnext : next.kind = .symbol .comma ∨ next.kind = .symbol .rightParen) :
    Entered (expression 1) s ⟨⟨.symbol .kwNil, "nil", 1⟩, .literal .nil, []⟩
      (s.read ⟨.symbol .kwNil, "nil", 1⟩ (next :: rest)) := by
  refine ⟨?_, by rw [hrest]; rfl, (List.append_nil _).symm⟩
  obtain ⟨left, previous?, errors, id⟩ := s
  obtain ⟨kind, lexeme, line⟩ := next
  obtain rfl : left = _ := hrest
  obtain rfl | rfl : kind = _ ∨ kind = _ := hnext <;> rfl

theorem listed_nils (more : Nat) {s : State}
    (hrest : s.rest = nils more ++ [⟨.symbol .rightParen, ")", 1⟩, .endOfInput 1]) :
    ∃ t, Listed (expression 1) s
      (List.replicate (more + 1) ⟨⟨.symbol .kwNil, "nil", 1⟩, .literal .nil, []⟩)
      ⟨.symbol .rightParen, ")", 1⟩ t := by
  suffices hentries : ∃ t, Entries (expression 1) s
      (List.replicate (more + 1) ⟨⟨.symbol .kwNil, "nil", 1⟩, .literal .nil, []⟩) t ∧
      t.rest = [⟨.symbol .rightParen, ")", 1⟩, .endOfInput 1] by
    obtain ⟨t, hentries, ht⟩ := hentries
    exact ⟨_, .some hentries ht rfl⟩
  induction more generalizing s with
  | zero => exact ⟨_, .last (entered_nil hrest (.inr rfl)), rfl⟩
  | succ more ih =>
    have hentry := entered_nil hrest (.inl rfl)
    obtain ⟨t, hentries, ht⟩ := @ih ((s.read ⟨.symbol .kwNil, "nil", 1⟩ _).read
      ⟨.symbol .comma, ",", 1⟩ _) rfl
    exact ⟨t, .more hentry rfl rfl hentries, ht⟩

end Parser

/-- A call with 257 arguments keeps them and adds two errors. Nested invalid targets are two errors
as well, and the statement that they are in is kept. -/
theorem Program.loses_nothing_manyArguments (callee : Expr) :
    (∃ u, callSuffixes 520 (expression 1) 1 callee { rest := callOfNils 256 } =
        .ok (.call callee 1 (List.replicate 257 (.literal .nil))) u ∧
      u.errors.toList = List.replicate 2 ⟨.tooManyArguments, ⟨.symbol .kwNil, "nil", 1⟩⟩) ∧
    (ofTokens nestedTargets 0).errors.length = 2 ∧
    ∃ s, Rounds (declaration nestedTargets.length) { rest := nestedTargets, next := 0 }
      [some (.expression (.literal .nil))] s := by
  refine ⟨?_, rfl, ?_⟩
  · obtain ⟨t, hlisted⟩ := @listed_nils 256 (State.read { rest := callOfNils 256 } _ _) rfl
    obtain ⟨u, hrun, -, herrors, -⟩ := @LosesNothing.call 1 (loses_nothing 1).1 520 0 _ t _ _ _ _
      callee (ready_callOfNils 256) rfl rfl (by simp [length_nils]) hlisted
    refine ⟨u, ?_, ?_⟩
    · rw [hrun, List.map_replicate]
      rfl
    · rw [herrors, reported_replicate]
      rfl
  · have hends : EndsInput nestedTargets :=
      ⟨nestedTargets.dropLast, .endOfInput 2, rfl, rfl, by decide⟩
    exact (loses_nothing 0).2 nestedTargets 0 hends (by decide)

end Lox
