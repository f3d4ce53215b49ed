import Lox.Proofs.Parser.Depth

/-!
# Parsing comes to an end

Whatever the tokens are, parsing reads them to the end of the input. No bound that a step is given
cuts it short, every declaration that is tried starts in front of a token and ends behind it, and
every round of every loop reads a token. So there are at most as many fatal errors as tokens.
-/
namespace Lox
namespace Parser
variable {α : Type}

/-- A result means that a token was read. -/
def Consumes (step : Parse α) : Prop :=
  ∀ ⦃s s' : State⦄ ⦃a : α⦄, step s = .ok a s' → s'.rest.length < s.rest.length

/-- A bound as large as the number of tokens left may be any: it is never reached. -/
def Settles (bounded : Nat → Parse α) : Prop :=
  ∀ s, Ready s → ∀ bound, s.rest.length ≤ bound → bounded bound s = bounded s.rest.length s

theorem Settles.of_agree {bounded : Nat → Parse α}
    (h : ∀ n bound bound', n ≤ bound → n ≤ bound' → Agree n (bounded bound) (bounded bound')) :
    Settles bounded :=
  fun s hready bound hbound =>
    h s.rest.length bound s.rest.length hbound (Nat.le_refl _) s hready (Nat.le_refl _)

/-- Why parsing with a bound on the depth comes to an end. -/
structure Progresses (depth : Nat) : Prop where
  /-- A declaration that is tried before the end of the input ends behind where it starts, with or
  without an error, and its errors are paid for. -/
  declaration : ∀ s, Ready s → s.More → ∃ d s', declaration depth s = .ok d s' ∧ Follows s s' ∧
    s'.rest.length < s.rest.length ∧ s'.fatal + s'.rest.length ≤ s.fatal + s.rest.length
  /-- The declarations of a block are tried one after the other, up to a closing brace or the end of
  the input. -/
  block : ∀ s, Ready s → s.rest.length ≤ depth →
    ∃ ds s', untilRightBrace (Parser.declaration depth) depth s = .ok ds s' ∧
      Rounds (Parser.declaration depth) s ds s' ∧ ∃ token rest, s'.rest = token :: rest ∧
        (token.kind = .symbol .rightBrace ∨ token.kind.isEnd = true)
  methods : ∀ limit s s' methods,
    untilRightBrace (function (innerAt depth) "method") limit s = .ok methods s' →
      Rounds (function (innerAt depth) "method") s methods s'
  /-- The items of lists and the operands of operators. -/
  items : Consumes (expectName "parameter name") ∧ Consumes (expression depth) ∧
    ∀ limit, Consumes (call limit (expression depth)) ∧
      Consumes (unary (call limit (expression depth)) limit) ∧
      Consumes (factor limit (expression depth)) ∧ Consumes (term limit (expression depth)) ∧
      Consumes (comparison limit (expression depth)) ∧
      Consumes (equality limit (expression depth)) ∧
      Consumes (conjunction limit (expression depth))
  /-- No loop needs more rounds than tokens are left. -/
  loops : Settles (declarations depth) ∧
    Settles (untilRightBrace (Parser.declaration depth)) ∧
    Settles (untilRightBrace (function (innerAt depth) "method")) ∧
    Settles (listItems .tooManyParameters (expectName "parameter name")) ∧
    Settles (listItems .tooManyArguments (expression depth)) ∧
    (∀ callee, Settles fun limit => callSuffixes limit (expression depth) limit callee) ∧
    (∀ operand, Settles (unary operand)) ∧
    ∀ operator? operand left, Skips operator? → Safe operand →
      Settles fun limit => operations operator? operand limit left
  /-- No step goes back or past the end of the input, whether it has a result or fails. -/
  forward : Safe (expression depth) ∧ Safe (statement depth) ∧ Safe (Parser.declaration depth) ∧
    ∀ limit, Safe (declarations depth limit)

theorem ends_untilRightBrace {item : Parse α} (hsafe : Safe item) (h : Advances item)
    {limit : Nat} {s s' : State} {as : List α} (hready : Ready s) (hlimit : s.rest.length ≤ limit)
    (hrun : untilRightBrace item limit s = .ok as s') :
    ∃ token rest, s'.rest = token :: rest ∧
      (token.kind = .symbol .rightBrace ∨ token.kind.isEnd = true) := by
  induction limit generalizing s as with
  | zero => exact absurd (List.length_eq_zero_iff.mp (Nat.le_zero.mp hlimit)) hready.ends.ne_nil
  | succ limit ih =>
    obtain ⟨-, rfl, hend⟩ | ⟨hmore, a, t, bs, ha, hbs, -⟩ := untilRightBrace_eq_ok hrun
    · exact hend
    · have hshorter := h hmore ha
      exact ih ((hsafe.ok ha).ready hready) (by omega) hbs

theorem exists_untilRightBrace {item : Parse α} (hsafe : Safe item) (htotal : Total item)
    {s : State} (hready : Ready s) (limit : Nat) :
    ∃ as s', untilRightBrace item limit s = .ok as s' := by
  cases hrun : untilRightBrace item limit s with
  | ok as s' => exact ⟨as, s', rfl⟩
  | error stop s' =>
    cases stop with
    | error error => exact absurd hrun (total_untilRightBrace htotal limit s error s')
    | fault fault => exact absurd hready ((safe_untilRightBrace hsafe limit).fault hrun)

theorem settles_loops (depth : Nat) : Settles (declarations depth) ∧
    Settles (untilRightBrace (declaration depth)) ∧
    Settles (untilRightBrace (function (innerAt depth) "method")) ∧
    Settles (listItems .tooManyParameters (expectName "parameter name")) ∧
    Settles (listItems .tooManyArguments (expression depth)) ∧
    (∀ callee, Settles fun limit => callSuffixes limit (expression depth) limit callee) ∧
    (∀ operand, Settles (unary operand)) ∧
    ∀ operator? operand left, Skips operator? → Safe operand →
      Settles fun limit => operations operator? operand limit left := by
  have hexpression := safe_expression depth
  have hspends := spends_expression depth
  have hinner := safe_innerAt depth
  refine ⟨?declarations, ?blocks, ?methods, ?parameters, ?arguments, ?suffixes, ?unary, ?operations⟩
  case declarations =>
    exact .of_agree fun n bound bound' h h' => agree_declarations (.refl _) h h'
  case blocks =>
    exact .of_agree fun n bound bound' h h' =>
      agree_untilRightBrace hinner.declaration (advances_declaration depth) (.refl _) h h'
  case methods =>
    exact .of_agree fun n bound bound' h h' => agree_untilRightBrace
      (safe_function hinner _) (advances_method depth _) (.refl _) h h'
  case parameters =>
    exact .of_agree fun n bound bound' h h' =>
      agree_listItems (safe_expectName _) (.require _ _) (.refl _) _ h h'
  case arguments =>
    exact .of_agree fun n bound bound' h h' =>
      agree_listItems hexpression hspends (.refl _) _ h h'
  case suffixes =>
    exact fun callee => .of_agree fun n bound bound' h h' =>
      agree_callSuffixes hexpression hspends (.refl _) h h' h h' callee
  case unary =>
    exact fun operand => .of_agree fun n bound bound' h h' =>
      agree_unary (.refl _) (Nat.le_succ_of_le h) (Nat.le_succ_of_le h')
  case operations =>
    exact fun operator? operand left hoperator hoperand => .of_agree fun n bound bound' h h' =>
      agree_operations hoperator hoperand (.refl _) h h' left

theorem progresses (depth : Nat) : Progresses depth where
  declaration s hready hmore := by
    obtain ⟨d, s', hrun, hfollows⟩ := exists_declaration hready depth
    obtain ⟨hcount, hshorter⟩ := declaration_count (spends_innerAt depth).2 hmore hrun
    exact ⟨d, s', hrun, hfollows, hshorter, hcount⟩
  block s hready hlength := by
    have hsafe := (safe_innerAt depth).declaration
    obtain ⟨ds, s', hrun⟩ :=
      exists_untilRightBrace hsafe (total_declaration depth) hready depth
    have hadvances := advances_declaration depth
    exact ⟨ds, s', hrun, rounds_untilRightBrace hadvances hrun,
      ends_untilRightBrace hsafe hadvances hready hlength hrun⟩
  methods limit s s' methods hrun := rounds_untilRightBrace (advances_method depth "method") hrun
  items := by
    have hsafe := safe_expression depth
    have hspends := spends_expression depth
    have hbounded := Bounded.of_spends hspends
    refine ⟨fun _ _ _ => (safe_expectName _).shorter (.require _ _),
      fun _ _ _ => hsafe.shorter hspends, fun limit => ?_⟩
    have hcall := spends_call hbounded limit
    exact ⟨fun _ _ _ => (safe_call hsafe limit).shorter hcall,
      fun _ _ _ => (safe_unary (safe_call hsafe limit) limit).shorter (spends_unary hcall limit),
      fun _ _ _ => (safe_factor hsafe limit).shorter (spends_factor hbounded limit),
      fun _ _ _ => (safe_term hsafe limit).shorter (spends_term hbounded limit),
      fun _ _ _ => (safe_comparison hsafe limit).shorter (spends_comparison hbounded limit),
      fun _ _ _ => (safe_equality hsafe limit).shorter (spends_equality hbounded limit),
      fun _ _ _ => (safe_conjunction hsafe limit).shorter (spends_conjunction hbounded limit)⟩
  loops := settles_loops depth
  forward := ⟨safe_expression depth, (safe_innerAt depth).statement,
    (safe_innerAt depth).declaration, safe_declarations depth⟩

end Parser
open Lox.Parser

/-- Tokens with the end of the input behind them, and only there, are parsed to the end. Larger
bounds than the number of tokens, for the depth of nesting and for all loops, change nothing. Each
declaration that is tried on the way starts before the end of the input and ends behind where it
started. There are at most as many fatal errors as tokens before the end of the input. -/
theorem Program.terminates {front : List Token} {last : Token}
    (hfront : ∀ token ∈ front, token.kind.isEnd = false) (hlast : last.kind.isEnd = true)
    (first : NodeId) :
    (∃ statements s, s.rest = [last] ∧
        ofTokens (front ++ [last]) first = ⟨statements, s.errors.toList, s.next, none⟩ ∧
        ∀ depth limit, front.length < depth → front.length < limit →
          declarations depth limit { rest := front ++ [last], next := first } =
              .ok statements s ∧
            ∃ ds, statements = ds.reduceOption ∧
              Rounds (declaration depth) { rest := front ++ [last], next := first } ds s) ∧
      (ofTokens (front ++ [last]) first).errors.countP SyntaxError.isFatal ≤ front.length ∧
      (Settles expression ∧ Settles statement ∧ Settles declaration) ∧
      ∀ depth, Progresses depth := by
  have hends : EndsInput (front ++ [last]) := ⟨front, last, rfl, hlast, hfront⟩
  have hlength : (front ++ [last]).length = front.length + 1 := List.length_append
  obtain ⟨statements, s, hrun, hfollows⟩ := exists_declarations hends first
    (front ++ [last]).length (front ++ [last]).length
  have hprogram := ofTokens_of_run hends (Nat.le_refl _) (Nat.le_succ _) hrun
  have hruns (depth limit : Nat) (hdepth : front.length < depth) (hlimit : front.length < limit) :
      declarations depth limit { rest := front ++ [last], next := first } = .ok statements s := by
    rw [← hrun]
    apply declarations_eq hends first <;> omega
  have hrounds (depth : Nat) (hdepth : front.length < depth) :=
    rounds_declarations (Nat.le_of_eq hlength) hends
      (hruns depth (front.length + 1) hdepth (Nat.lt_succ_self _))
  obtain ⟨ds, -, htried, end', hs, -⟩ := hrounds (front.length + 1) (Nat.lt_succ_self _)
  have hrest : s.rest = [last] := by
    obtain ⟨used, hused⟩ := hfollows.suffix
    rw [hs] at hused
    rw [hs, (List.append_inj' hused rfl).2]
  have hcount : s.count ≤ front.length + 1 := by
    have hle := htried.count_le fun hmore hd => (declaration_count (spends_innerAt _).2 hmore hd).1
    simpa [State.count, State.fatal] using hle
  refine ⟨⟨statements, s, hrest, hprogram, fun depth limit hdepth hlimit => ?_⟩, ?_, ⟨?_, ?_, ?_⟩,
    progresses⟩
  · obtain ⟨ds, hstatements, htried, -⟩ := hrounds depth hdepth
    exact ⟨hruns depth limit hdepth hlimit, ds, hstatements, htried⟩
  · rw [hprogram]
    simpa [State.count, State.fatal, hrest] using hcount
  · exact .of_agree fun n bound bound' h h' => agree_expression h h'
  · exact .of_agree fun n bound bound' h h' => (agree_innerAt h h').statement
  · exact .of_agree fun n bound bound' h h' => (agree_innerAt h h').declaration

/-- Two opening braces. -/
def openBraces : List Token := [⟨.symbol .leftBrace, "\x7b", 1⟩, ⟨.symbol .leftBrace, "\x7b", 1⟩]

/-- There may be as many fatal errors as tokens. Both blocks of two opening braces lack their closing
brace, and both errors are found at the end of the input, where nothing is left to skip. -/
theorem Program.terminates_openBraces :
    (∀ token ∈ openBraces, token.kind.isEnd = false) ∧
      (ofTokens (openBraces ++ [.endOfInput 1]) 0).errors.countP SyntaxError.isFatal =
        openBraces.length ∧
      (ofTokens (openBraces ++ [.endOfInput 1]) 0).errors.countP SyntaxError.isFatal ≤
        openBraces.length ∧
      (ofTokens (openBraces ++ [.endOfInput 1]) 0).fault? = none := by
  have hfront : ∀ token ∈ openBraces, token.kind.isEnd = false := by decide
  obtain ⟨⟨statements, s, -, hprogram, -⟩, hcount, -⟩ :=
    @terminates _ (.endOfInput 1) hfront rfl 0
  refine ⟨hfront, rfl, hcount, ?_⟩
  rw [hprogram]

end Lox
