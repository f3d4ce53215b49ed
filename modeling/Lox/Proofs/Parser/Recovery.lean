import Mathlib.Order.Bounds.Defs
import Lox.Proofs.Parser.Safety

/-!
# Where parsing goes on after an error

An error that stops a declaration, at whatever depth of statements, blocks and expressions it is
found, is found at the next token. What is skipped then is counted from that token: up to the first
place behind a semicolon, in front of a reserved word that starts a statement, or at the end of the
input. The token of the error is the exception: it is skipped even if it starts a statement, so the
statement that it starts is lost.
-/
namespace Lox.Parser

/-- A place in front of which no more tokens have to be skipped; `tokens` begin with the token of
the error. -/
inductive Boundary (tokens : List Token) : Nat → Prop
  /-- In front of a reserved word that starts a statement. -/
  | starts {p : Nat} {token : Token} (get : tokens[p]? = some token)
      (starts : token.kind.startsStatement = true) : Boundary tokens p
  /-- Behind a semicolon. -/
  | behind {p : Nat} {token : Token} (get : tokens[p]? = some token)
      (semicolon : token.kind = .symbol .semicolon) : Boundary tokens (p + 1)
  | ends {p : Nat} {token : Token} (get : tokens[p]? = some token)
      (ends : token.kind.isEnd = true) : Boundary tokens p

section
variable {first second : Token} {tokens : List Token} {p : Nat}

theorem boundary_zero : Boundary (first :: tokens) 0 ↔
    first.kind.startsStatement = true ∨ first.kind.isEnd = true := by
  constructor
  · intro h
    cases h with
    | starts get starts => exact .inl (Option.some.inj get ▸ starts)
    | ends get ends => exact .inr (Option.some.inj get ▸ ends)
  · intro h
    cases h with
    | inl starts => exact .starts rfl starts
    | inr ends => exact .ends rfl ends

theorem boundary_one : Boundary (first :: second :: tokens) 1 ↔
    second.kind.isEnd = true ∨ first.kind = .symbol .semicolon ∨
      second.kind.startsStatement = true := by
  constructor
  · intro h
    cases h with
    | starts get starts => exact .inr (.inr (Option.some.inj get ▸ starts))
    | behind get semicolon => exact .inr (.inl (Option.some.inj get ▸ semicolon))
    | ends get ends => exact .inl (Option.some.inj get ▸ ends)
  · rintro (ends | semicolon | starts)
    · exact .ends rfl ends
    · exact .behind rfl semicolon
    · exact .starts rfl starts

/-- A place behind the second token does not depend on the first. -/
theorem boundary_tail : Boundary (first :: tokens) (p + 2) ↔ Boundary tokens (p + 1) := by
  constructor
  · intro h
    cases h with
    | starts get starts => exact .starts get starts
    | behind get semicolon => exact .behind get semicolon
    | ends get ends => exact .ends get ends
  · intro h
    cases h with
    | starts get starts => exact .starts get starts
    | behind get semicolon => exact .behind get semicolon
    | ends get ends => exact .ends get ends

end

/-- A skipped stretch that starts behind `previous` ends at the first boundary behind it. -/
theorem resume_isLeast {previous last : Token} {tokens rest : List Token}
    (h : resume previous tokens = some (last, rest)) :
    ∃ k, rest = tokens.drop k ∧ IsLeast {q | Boundary (previous :: tokens) (q + 1)} k := by
  induction tokens generalizing previous with
  | nil => exact absurd h (by simp [resume])
  | cons token tokens ih =>
    have hstops : (token.kind.isEnd || (only .semicolon previous).isSome ||
        token.kind.startsStatement) = true ↔ Boundary (previous :: token :: tokens) 1 := by
      simp only [boundary_one, Bool.or_eq_true, Option.isSome_iff_exists, only_eq_some, or_assoc,
        exists_and_left, exists_eq, and_true]
    simp only [resume] at h
    split at h
    · next hstop =>
      simp only [Option.some.injEq, Prod.mk.injEq] at h
      exact ⟨0, h.2.symm, hstops.mp hstop, fun q _ => Nat.zero_le q⟩
    · next hgo =>
      obtain ⟨k, hrest, hk, hleast⟩ := ih h
      refine ⟨k + 1, hrest, boundary_tail.mpr hk, ?_⟩
      intro q hq
      cases q with
      | zero => exact absurd (hstops.mpr hq) hgo
      | succ q => exact Nat.succ_le_succ (hleast (boundary_tail.mp hq))

/-- After an error at `token` the tokens are skipped up to the first boundary, which stands behind
`token` if that starts a statement. -/
theorem synchronize_isLeast {s s' : State} {token : Token} {rest : List Token}
    (hrest : s.rest = token :: rest) (h : synchronize s = .ok () s') :
    s'.errors = s.errors ∧ s'.next = s.next ∧ ∃ p, s'.rest = s.rest.drop p ∧
      IsLeast {q | Boundary s.rest q ∧ (token.kind.startsStatement = true → 0 < q)} p := by
  unfold synchronize at h
  simp only [hrest] at h ⊢
  split at h
  · next hend =>
    have hstarts : token.kind.startsStatement ≠ true := by
      intro hstarts
      cases hk : token.kind <;> simp [hk, Kind.isEnd, Kind.startsStatement] at hend hstarts
    split at h
    · simp only [EStateM.Result.ok.injEq, true_and] at h
      subst h
      refine ⟨rfl, rfl, 0, hrest, ⟨boundary_zero.mpr (.inr hend), ?_⟩, fun q _ => Nat.zero_le q⟩
      exact fun hs => absurd hs hstarts
    · exact absurd h (by simp)
  · next hend =>
    split at h
    · next last tail hresume =>
      simp only [EStateM.Result.ok.injEq, true_and] at h
      subst h
      obtain ⟨k, rfl, hk, hleast⟩ := resume_isLeast hresume
      refine ⟨rfl, rfl, k + 1, rfl, ⟨hk, fun _ => Nat.succ_pos k⟩, ?_⟩
      intro q hq
      obtain ⟨hboundary, hpos⟩ := hq
      cases q with
      | zero =>
        -- the token of the error is a boundary only if it starts a statement
        have hstarts := (boundary_zero.mp hboundary).resolve_right hend
        exact absurd (hpos hstarts) (Nat.lt_irrefl 0)
      | succ q => exact Nat.succ_le_succ (hleast hboundary)
    · exact absurd h (by simp)

/-- A declaration or a statement as far as the first error that stops it. -/
def attempt : (depth : Nat) → Parse Stmt
  | 0 => fail (.missing "expression")
  | depth + 1 => do
    if ← accept .kwClass then
      classDeclaration (innerAt depth)
    else if ← accept .kwFun then
      return .funDecl (← function (innerAt depth) "function")
    else if ← accept .kwVar then
      varDeclaration (innerAt depth)
    else
      anyStatement (innerAt depth)

theorem declaration_eq (depth : Nat) : declaration depth = recovering (attempt depth) := by
  cases depth <;> rfl

theorem safe_attempt (depth : Nat) : Safe (attempt depth) := by
  cases depth with
  | zero => exact safe_fail _
  | succ depth =>
    have h := safe_innerAt depth
    refine (safe_accept _).bind fun _ => .ite _ (safe_classDeclaration h) ?_
    refine (safe_accept _).bind fun _ => .ite _ ((safe_function h _).bind fun _ => .pure _) ?_
    exact (safe_accept _).bind fun _ => .ite _ safe_varDeclaration (safe_anyStatement h)

/-- An error that stops a declaration leaves out the declaration and is recorded after the errors
found before it. It is an error at the next token, and parsing goes on at the first boundary from
that token on, or behind that token if it is itself a reserved word that starts a statement. -/
theorem resumes_at_boundary {depth : Nat} {s t : State} {error : SyntaxError} (hready : Ready s)
    (h : attempt depth s = .error (.error error) t) :
    ∃ u p, declaration depth s = .ok none u ∧ u.errors = t.errors.push error ∧ u.next = t.next ∧
      t.rest.head? = some error.token ∧ u.rest = t.rest.drop p ∧
      IsLeast {q | Boundary t.rest q ∧ (error.token.kind.startsStatement = true → 0 < q)} p := by
  have hsafe := safe_attempt depth
  have hlocated := hsafe.located h
  obtain ⟨rest, hrest⟩ := List.head?_eq_some_iff.mp hlocated
  have hrecorded : Follows t { t with errors := t.errors.push error } := safe_record error t
  have hagain := hrecorded.ready ((hsafe.error h).ready hready)
  have hrun : declaration depth s = (do synchronize; return none : Parse (Option Stmt))
      { t with errors := t.errors.push error } := by
    rw [declaration_eq, recovering, h]
    rfl
  cases hsync : synchronize { t with errors := t.errors.push error } with
  | ok a u =>
    obtain ⟨herrors, hnext, p, hp, hleast⟩ :=
      synchronize_isLeast (s := { t with errors := t.errors.push error }) hrest hsync
    refine ⟨u, p, ?_, herrors, hnext, hlocated, hp, hleast⟩
    rw [hrun, bind_of_ok hsync]
    rfl
  | error stop u =>
    cases stop with
    | error e => exact absurd hsync (total_synchronize _ e u)
    | fault fault => exact absurd hagain (safe_synchronize.fault hsync)

/-- The tokens of `var x print nil;`. -/
def missingSemicolon : List Token :=
  [⟨.symbol .kwVar, "var", 1⟩, ⟨.identifier, "x", 1⟩, ⟨.symbol .kwPrint, "print", 1⟩,
    ⟨.symbol .kwNil, "nil", 1⟩, ⟨.symbol .semicolon, ";", 1⟩, .endOfInput 1]

theorem ready_missingSemicolon : Ready { rest := missingSemicolon } :=
  ⟨⟨missingSemicolon.dropLast, .endOfInput 1, rfl, rfl, by decide⟩, .inr ⟨_, _, rfl, rfl⟩⟩

/-- The error in `missingSemicolon`. -/
def errorAtPrint : SyntaxError :=
  ⟨.missing "';' after variable declaration", ⟨.symbol .kwPrint, "print", 1⟩⟩

/-- The state in which that error is found. -/
def atPrint : State := { rest := missingSemicolon.drop 2, previous? := missingSemicolon[1]? }

/-- The state in which parsing goes on. -/
def pastPrint : State :=
  { rest := missingSemicolon.drop 5, previous? := missingSemicolon[4]?, errors := #[errorAtPrint] }

theorem attempt_missingSemicolon :
    attempt 6 { rest := missingSemicolon } = .error (.error errorAtPrint) atPrint := by
  rfl

theorem declaration_missingSemicolon :
    declaration 6 { rest := missingSemicolon } = .ok none pastPrint := by
  rfl

/-- The hypotheses of `resumes_at_boundary` can be met: the error is at `print`, and parsing goes on
at the first boundary behind it. -/
theorem resumes_at_boundary_missingSemicolon :
    Ready { rest := missingSemicolon } ∧
    attempt 6 { rest := missingSemicolon } = .error (.error errorAtPrint) atPrint ∧
    IsLeast {q | Boundary atPrint.rest q ∧ 0 < q} 3 := by
  refine ⟨ready_missingSemicolon, attempt_missingSemicolon, ?_⟩
  obtain ⟨u, p, hrun, -, -, -, hrest, hleast⟩ :=
    resumes_at_boundary ready_missingSemicolon attempt_missingSemicolon
  rw [declaration_missingSemicolon] at hrun
  cases hrun
  have hlength := congrArg List.length hrest
  simp only [pastPrint, atPrint, missingSemicolon, List.length_drop, List.length_cons,
    List.length_nil] at hlength
  have hp : p = 3 := by omega
  simpa [hp, errorAtPrint, Kind.startsStatement, Symbol.startsStatement] using hleast

/-- Parsing does not always go on at the first boundary from the token of the error on. In
`var x print nil;` the error is at `print`, which starts a statement, and all of `print nil;` is
skipped. -/
theorem not_resumes_at_first_boundary :
    ¬ ∀ (depth : Nat) (s t : State) (error : SyntaxError), Ready s →
      attempt depth s = .error (.error error) t →
      ∃ u p, declaration depth s = .ok none u ∧ u.rest = t.rest.drop p ∧
        IsLeast {q | Boundary t.rest q} p := by
  intro h
  obtain ⟨u, p, hrun, hrest, -, hleast⟩ :=
    h 6 _ atPrint _ ready_missingSemicolon attempt_missingSemicolon
  have hp : p = 0 := Nat.le_zero.mp (hleast (boundary_zero.mpr (.inl rfl)))
  rw [declaration_missingSemicolon] at hrun
  cases hrun
  have hlength := congrArg List.length hrest
  rw [hp] at hlength
  exact absurd hlength (by decide)

end Lox.Parser
