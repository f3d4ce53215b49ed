import Lox.Proofs.Parser.Lines
import Lox.Proofs.Parser.Preservation

/-!
# The order in which errors are recorded

Errors are recorded in the order of the tokens they are reported at, with one exception. Whether the
target of an assignment is valid is looked at after its value has been read, so the error at its
equals sign comes behind the errors in the value.

Parsing does not look at the lines of tokens. To tell the places of errors apart, tokens are placed:
the number of each in the list stands for its line. Then the lines of the errors are their places.
-/
namespace Lox
namespace Parser
variable {α β : Type} {tokens : List Token}

/-- The tokens with their places for lines. -/
def placed (tokens : List Token) : List Token :=
  tokens.mapIdx fun place token => { token with line := place }

/-- Each token has its place for its line. -/
def Placed (tokens : List Token) : Prop :=
  ∀ (place : Nat) (token : Token), tokens[place]? = some token → token.line = place

theorem placed_placed (tokens : List Token) : Placed (placed tokens) := by
  intro place token h
  simp only [placed, List.getElem?_mapIdx, Option.map_eq_some_iff] at h
  obtain ⟨original, -, rfl⟩ := h
  rfl

/-- The error is one of those that are recorded while an expression is read, right of the equals
sign at `equals`. -/
def InValue (tokens : List Token) (equals : Nat) (error : SyntaxError) : Prop :=
  ∃ depth s value s' added, s.rest = tokens.drop (equals + 1) ∧
    expression depth s = .ok value s' ∧ s'.errors.toList = s.errors.toList ++ added ∧ error ∈ added

/-- How an error is related to one that is recorded after it: it stands before the other one, or at
the same token, or else in a value that is assigned to the invalid target of the other one. -/
def Precedes (tokens : List Token) (error later : SyntaxError) : Prop :=
  error.token.line ≤ later.token.line ∨
    later.cause = .invalidAssignmentTarget ∧ later.token.line < error.token.line ∧
      InValue tokens later.token.line error

/-- The way from a state in front of token `p` to one in front of token `q`, on which `added` is
recorded. -/
structure Way (tokens : List Token) (p q : Nat) (added : List SyntaxError) (s s' : State) : Prop where
  le : p ≤ q
  rest : s'.rest = tokens.drop q
  errors : s'.errors.toList = s.errors.toList ++ added
  between : ∀ error ∈ added, tokens[error.token.line]? = some error.token ∧
    p ≤ error.token.line ∧ error.token.line ≤ q
  ordered : added.Pairwise (Precedes tokens)

/-- The errors on the way to an ending of a step are in order. The token of an error that stops the
step comes next. -/
def Arrives (tokens : List Token) (p : Nat) (s : State) : EStateM.Result Stop State α → Prop
  | .ok _ s' => ∃ q added, Way tokens p q added s s'
  | .error (.error error) s' =>
    s'.rest.head? = some error.token ∧ ∃ q added, Way tokens p q added s s'
  | .error (.fault _) s' => ∃ q added, Way tokens p q added s s'

/-- The step records errors in order, whatever comes of it. -/
def Ordered (tokens : List Token) (step : Parse α) : Prop :=
  ∀ s p, s.rest = tokens.drop p → Arrives tokens p s (step s)

section
variable {p q r : Nat} {added more : List SyntaxError} {s t u : State}

theorem Way.refl (h : s.rest = tokens.drop p) : Way tokens p p [] s s :=
  ⟨Nat.le_refl p, h, by simp, by simp, .nil⟩

theorem Way.trans (h : Way tokens p q added s t) (h' : Way tokens q r more t u) :
    Way tokens p r (added ++ more) s u where
  le := Nat.le_trans h.le h'.le
  rest := h'.rest
  errors := by rw [h'.errors, h.errors, List.append_assoc]
  between error he := by
    obtain he | he := List.mem_append.mp he
    · obtain ⟨hat, hp, hq⟩ := h.between error he
      exact ⟨hat, hp, Nat.le_trans hq h'.le⟩
    · obtain ⟨hat, hq, hr⟩ := h'.between error he
      exact ⟨hat, Nat.le_trans h.le hq, hr⟩
  ordered := by
    refine List.pairwise_append.mpr ⟨h.ordered, h'.ordered, fun error he later hlater => .inl ?_⟩
    exact Nat.le_trans (h.between error he).2.2 (h'.between later hlater).2.1

theorem Arrives.after {result : EStateM.Result Stop State α} (h : Way tokens p q added s t)
    (h' : Arrives tokens q t result) : Arrives tokens p s result := by
  cases result with
  | ok a u =>
    obtain ⟨r, more, hmore⟩ := h'
    exact ⟨r, added ++ more, h.trans hmore⟩
  | error stop u =>
    cases stop with
    | error error =>
      obtain ⟨hnext, r, more, hmore⟩ := h'
      exact ⟨hnext, r, added ++ more, h.trans hmore⟩
    | fault fault =>
      obtain ⟨r, more, hmore⟩ := h'
      exact ⟨r, added ++ more, h.trans hmore⟩

/-- Reading tokens without an error. -/
theorem Way.of_suffix (used : List Token) (h : s.rest = tokens.drop p)
    (hused : s.rest = used ++ t.rest) (herrors : t.errors = s.errors) :
    Way tokens p (p + used.length) [] s t where
  le := Nat.le_add_right p _
  rest := by
    rw [← List.drop_drop, ← h, hused, List.drop_left]
  errors := by simp [herrors]
  between := by simp
  ordered := .nil

theorem Way.read {token : Token} {rest : List Token} (h : s.rest = tokens.drop p)
    (hrest : s.rest = token :: rest) : Way tokens p (p + 1) [] s (s.read token rest) :=
  Way.of_suffix [token] (t := s.read token rest) h hrest rfl

/-- The place of the next token. -/
theorem Placed.line_of_head? {token : Token} (hplaced : Placed tokens) (h : s.rest = tokens.drop p)
    (hnext : s.rest.head? = some token) : tokens[p]? = some token ∧ token.line = p := by
  rw [h, List.head?_drop] at hnext
  exact ⟨hnext, hplaced p token hnext⟩

/-- Recording an error at the next token. -/
theorem Way.record {error : SyntaxError} (hplaced : Placed tokens) (h : s.rest = tokens.drop p)
    (hnext : s.rest.head? = some error.token) :
    Way tokens p p [error] s { s with errors := s.errors.push error } := by
  obtain ⟨hat, hline⟩ := hplaced.line_of_head? h hnext
  refine ⟨Nat.le_refl p, h, by simp, ?_, List.pairwise_singleton _ _⟩
  intro e he
  rw [List.mem_singleton.mp he, hline]
  exact ⟨hat, Nat.le_refl p, Nat.le_refl p⟩

end

theorem Ordered.pure (a : α) : Ordered tokens (pure a) := fun _ p hs => ⟨p, [], .refl hs⟩

theorem Ordered.bind {x : Parse α} {f : α → Parse β} (hx : Ordered tokens x)
    (hf : ∀ a, Ordered tokens (f a)) : Ordered tokens (x >>= f) := by
  intro s p hs
  have hx := hx s p hs
  simp only [Bind.bind, EStateM.bind]
  cases hrun : x s with
  | ok a t =>
    rw [hrun] at hx
    obtain ⟨q, added, hway⟩ := hx
    exact .after hway (hf a t q hway.rest)
  | error stop t =>
    rw [hrun] at hx
    cases stop <;> exact hx

/-- A step that looks at the next token and leaves everything as it is. -/
theorem ordered_peek : Ordered tokens peek := by
  intro s p hs
  unfold peek
  cases s.rest <;> exact ⟨p, [], .refl hs⟩

theorem ordered_accept? (f : Token → Option α) : Ordered tokens (accept? f) := by
  intro s p hs
  unfold accept?
  cases hrest : s.rest with
  | nil => exact ⟨p, [], .refl hs⟩
  | cons token rest =>
    dsimp only
    cases f token with
    | some a => exact ⟨p + 1, [], Way.read hs hrest⟩
    | none => exact ⟨p, [], .refl hs⟩

theorem ordered_fail (cause : SyntaxError.Cause) : Ordered tokens (fail cause : Parse α) := by
  intro s p hs
  cases hrest : s.rest with
  | nil =>
    have hfault : (fail cause : Parse α) s = .error (.fault .pastLastToken) s := by
      simp only [fail, peek, bind, EStateM.bind, hrest]
    rw [hfault]
    exact ⟨p, [], .refl hs⟩
  | cons token rest =>
    rw [fail_eq hrest]
    exact ⟨by rw [hrest]; rfl, p, [], .refl hs⟩

theorem ordered_recordNext (hplaced : Placed tokens) (cause : SyntaxError.Cause) :
    Ordered tokens (do record ⟨cause, ← peek⟩) := by
  intro s p hs
  cases hrest : s.rest with
  | nil =>
    simp only [peek, Bind.bind, EStateM.bind, hrest]
    exact ⟨p, [], .refl hs⟩
  | cons token rest =>
    simp only [peek, Bind.bind, EStateM.bind, hrest]
    exact ⟨p, _, .record hplaced hs (by rw [hrest]; rfl)⟩

theorem ordered_freshId : Ordered tokens freshId := fun _ p hs =>
  ⟨p, [], Nat.le_refl p, hs, by simp, by simp, .nil⟩

/-- Reading an equals sign and a value and recording that the target is invalid. The errors of the
value stand right of the equals sign. -/
theorem Way.invalidTarget {p q depth : Nat} {added : List SyntaxError} {s u : State} {value : Expr}
    {equals : Token} {rest : List Token} (hplaced : Placed tokens) (hs : s.rest = tokens.drop p)
    (hrest : s.rest = equals :: rest)
    (hrun : expression depth (s.read equals rest) = .ok value u)
    (hway : Way tokens (p + 1) q added (s.read equals rest) u) :
    Way tokens p q (added ++ [⟨.invalidAssignmentTarget, equals⟩]) s
      { u with errors := u.errors.push ⟨.invalidAssignmentTarget, equals⟩ } := by
  obtain ⟨hat, hline⟩ := hplaced.line_of_head? hs (by rw [hrest]; rfl)
  have hread := Way.read hs hrest
  have hassigned := hread.trans hway
  refine ⟨hassigned.le, hassigned.rest, by simp [hassigned.errors], fun e he => ?_,
    List.pairwise_append.mpr
      ⟨hassigned.ordered, List.pairwise_singleton _ _, fun e he later hlater => .inr ?_⟩⟩
  · obtain he | he := List.mem_append.mp he
    · exact hassigned.between e he
    · rw [List.mem_singleton.mp he]
      simp only [hline]
      exact ⟨hat, Nat.le_refl p, hassigned.le⟩
  · rw [List.mem_singleton.mp hlater]
    simp only [hline, true_and]
    refine ⟨(hway.between e he).2.1, ?_⟩
    exact ⟨depth, _, value, u, added, hread.rest, hrun, hway.errors, he⟩

theorem ordered_assignmentRest (hplaced : Placed tokens) (depth : Nat) (target : Expr)
    (hvalue : Ordered tokens (expression depth)) :
    Ordered tokens (assignmentRest (expression depth) target) := by
  intro s p hs
  have haccept := ordered_accept? (only .equal) s p hs
  unfold assignmentRest
  cases hequals : accept? (only .equal) s with
  | error stop t =>
    rw [hequals] at haccept
    simp only [Bind.bind, EStateM.bind, hequals]
    cases stop <;> exact haccept
  | ok o t =>
    rw [bind_of_ok hequals]
    cases o with
    | none =>
      obtain ⟨rfl, -⟩ := accept?_none hequals
      exact ⟨p, [], .refl hs⟩
    | some equals =>
      obtain ⟨token, rest, hrest, honly, rfl⟩ := accept?_some hequals
      obtain ⟨-, rfl⟩ := only_eq_some.mp honly
      have hread := Way.read hs hrest
      have hvalue := hvalue _ _ hread.rest
      dsimp only
      cases hrun : expression depth (s.read equals rest) with
      | error stop u =>
        rw [hrun] at hvalue
        simp only [Bind.bind, EStateM.bind, hrun]
        cases stop <;> exact .after hread hvalue
      | ok value u =>
        rw [hrun] at hvalue
        obtain ⟨q, added, hway⟩ := hvalue
        have hassigned := hread.trans hway
        rw [bind_of_ok hrun]
        cases target with
        | «variable» id name =>
          exact ⟨q, added, hassigned.le, hassigned.rest, hassigned.errors, hassigned.between,
            hassigned.ordered⟩
        | get object name => exact ⟨q, added, hassigned⟩
        | _ => exact ⟨q, _, hway.invalidTarget hplaced hs hrest hrun⟩

theorem ordered_synchronize : Ordered tokens synchronize := by
  intro s p hs
  unfold synchronize
  cases hrest : s.rest with
  | nil => exact ⟨p, [], .refl hs⟩
  | cons token rest =>
    by_cases hend : token.kind.isEnd = true
    · simp only [hend, ↓reduceIte]
      cases s.previous? <;> exact ⟨p, [], .refl hs⟩
    · simp only [hend, Bool.false_eq_true, ↓reduceIte]
      cases hresume : resume token rest with
      | none => exact ⟨p, [], .refl hs⟩
      | some result =>
        obtain ⟨previous, tail⟩ := result
        obtain ⟨⟨used, hused⟩, -⟩ := resume_eq hresume
        exact ⟨_, [], Way.of_suffix (token :: used) hs (by rw [hrest, hused]; rfl) rfl⟩

theorem ordered_recovering (hplaced : Placed tokens) {step : Parse α} (h : Ordered tokens step) :
    Ordered tokens (recovering step) := by
  intro s p hs
  have h := h s p hs
  unfold recovering
  cases hrun : step s with
  | ok a t =>
    rw [hrun] at h
    exact h
  | error stop t =>
    rw [hrun] at h
    cases stop with
    | fault fault => exact h
    | error error =>
      obtain ⟨hnext, q, added, hway⟩ := h
      have hrecord := Way.record hplaced hway.rest hnext
      have hgo : Ordered tokens (do synchronize; return none : Parse (Option α)) :=
        ordered_synchronize.bind fun _ => .pure none
      exact .after (hway.trans hrecord) (hgo _ _ hrecord.rest)

theorem preserved_ordered (hplaced : Placed tokens) : Preserved (Ordered tokens) where
  pure := .pure
  bind := .bind
  peek := ordered_peek
  accept? _ := ordered_accept? _
  fail _ := ordered_fail _
  freshId := ordered_freshId
  recordNext _ := ordered_recordNext hplaced _
  assignmentRest := ordered_assignmentRest hplaced
  recovering := ordered_recovering hplaced

end Parser
open Lox.Parser

/-- The line of the token at a place. -/
def lineAt (tokens : List Token) (place : Nat) : Nat := (tokens[place]?.map Token.line).getD 0

theorem map_lineAt_placed (tokens : List Token) :
    (placed tokens).map (Token.onLine (lineAt tokens)) = tokens := by
  refine List.ext_getElem? fun place => ?_
  simp only [placed, List.getElem?_map, List.getElem?_mapIdx, Option.map_map]
  cases h : tokens[place]? with
  | none => rfl
  | some token => simp [Token.onLine, lineAt, h]

/-- The errors in placed tokens are in order. -/
theorem Program.ordered_of_placed {tokens : List Token} (hplaced : Placed tokens) (first : NodeId) :
    (∀ error ∈ (ofTokens tokens first).errors,
        tokens[error.token.line]? = some error.token) ∧
      (ofTokens tokens first).errors.Pairwise (Precedes tokens) := by
  have h := (preserved_ordered hplaced).declarations tokens.length (tokens.length + 1)
    { rest := tokens, next := first } 0 rfl
  simp only [ofTokens]
  split
  · next statements s hrun =>
    rw [hrun] at h
    obtain ⟨q, added, hway⟩ := h
    rw [hway.errors]
    exact ⟨fun error he => (hway.between error he).1, hway.ordered⟩
  · next error s hrun => exact absurd hrun (total_declarations _ _ _ _ _)
  · next fault s hrun =>
    rw [hrun] at h
    obtain ⟨q, added, hway⟩ := h
    rw [hway.errors]
    exact ⟨fun error he => (hway.between error he).1, hway.ordered⟩

/-- The errors of any tokens are those of the placed tokens, put back on their lines. -/
theorem Program.errors_eq_placed (tokens : List Token) (first : NodeId) :
    (ofTokens tokens first).errors =
      (ofTokens (placed tokens) first).errors.map (SyntaxError.onLine (lineAt tokens)) := by
  have hlines := @ofTokens_onLine (lineAt tokens) (placed tokens) first first
  rw [map_lineAt_placed] at hlines
  exact hlines.2.1

/-- The errors of any tokens are those of the placed tokens, put back on their lines. Each of these
is at the token in its place. Of two of them, the one recorded first stands first, or both are at
the same token, unless the other one is at an invalid assignment target and the first one in the
value assigned to it. -/
theorem Program.errors_ordered (tokens : List Token) (first : NodeId) :
    (ofTokens tokens first).errors =
        (ofTokens (placed tokens) first).errors.map (SyntaxError.onLine (lineAt tokens)) ∧
      (∀ error ∈ (ofTokens (placed tokens) first).errors,
        (placed tokens)[error.token.line]? = some error.token) ∧
      (ofTokens (placed tokens) first).errors.Pairwise (Precedes (placed tokens)) :=
  ⟨errors_eq_placed tokens first, ordered_of_placed (placed_placed tokens) first⟩

/-- So where the lines of the tokens do not decrease, those of the errors decrease only at an invalid
assignment target. -/
theorem Program.lines_ordered {tokens : List Token}
    (h : tokens.Pairwise fun token later => token.line ≤ later.line) (first : NodeId) :
    (ofTokens tokens first).errors.Pairwise fun error later =>
      error.token.line ≤ later.token.line ∨ later.cause = .invalidAssignmentTarget := by
  obtain ⟨hat, hordered⟩ := ordered_of_placed (placed_placed tokens) first
  rw [errors_eq_placed, List.pairwise_map]
  refine hordered.imp_of_mem fun {error later} he hlater hprecedes => ?_
  obtain hle | ⟨hcause, -⟩ := hprecedes
  · refine .inl ?_
    have hbound : later.token.line < tokens.length := by
      have hplace := (List.getElem?_eq_some_iff.mp (hat later hlater)).choose
      simpa [placed] using hplace
    have hline (place : Nat) (hplace : place < tokens.length) :
        lineAt tokens place = tokens[place].line := by
      simp [lineAt, List.getElem?_eq_getElem hplace]
    simp only [SyntaxError.onLine, Token.onLine]
    rw [hline _ hbound, hline _ (Nat.lt_of_le_of_lt hle hbound)]
    obtain hlt | heq := Nat.lt_or_eq_of_le hle
    · exact List.pairwise_iff_getElem.mp h _ _ _ _ hlt
    · simp [heq]
  · exact .inr hcause

/-- The tokens of `nil = nil = nil;`, with a line break behind the first equals sign. -/
def nestedTargets : List Token :=
  [⟨.symbol .kwNil, "nil", 1⟩, ⟨.symbol .equal, "=", 1⟩, ⟨.symbol .kwNil, "nil", 2⟩,
    ⟨.symbol .equal, "=", 2⟩, ⟨.symbol .kwNil, "nil", 2⟩, ⟨.symbol .semicolon, ";", 2⟩,
    .endOfInput 2]

/-- Errors do not always come in the order of the tokens they are reported at, and their lines may
decrease: of nested invalid targets, the inner one comes first. -/
theorem Program.not_errors_ordered :
    ¬ ∀ (tokens : List Token) (first : NodeId), EndsInput tokens →
      tokens.Pairwise (fun token later => token.line ≤ later.line) →
      (ofTokens tokens first).errors.Pairwise fun error later =>
        error.token.line ≤ later.token.line := by
  intro h
  have hends : EndsInput nestedTargets :=
    ⟨nestedTargets.dropLast, .endOfInput 2, rfl, rfl, by decide⟩
  have herrors : (ofTokens nestedTargets 0).errors =
      [⟨.invalidAssignmentTarget, ⟨.symbol .equal, "=", 2⟩⟩,
        ⟨.invalidAssignmentTarget, ⟨.symbol .equal, "=", 1⟩⟩] := by rfl
  have hordered := h nestedTargets 0 hends (by decide)
  rw [herrors] at hordered
  exact absurd hordered (by decide)

end Lox
