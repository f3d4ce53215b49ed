import Lox.Proofs.Grammar.Lines
import Lox.Proofs.Parser.Lines
import Lox.Proofs.Parser.Locality
import Mathlib

/-!
# A `for` statement is a `while` statement

Every `for` statement can be written by hand as a `while` statement: the initializer and the loop in
a block, and in the loop a block of the body and the increment. A block is left out together with
the clause that it is for, and a condition that is left out is `true`. Both are parsed into the same
tree, except for lines and numbers.
-/
namespace Lox
namespace Parser
open Grammar

/-- The tokens of the clauses and of the body of a `for` statement. -/
structure Clauses where
  /-- The initializer with its semicolon. -/
  init : Option (List Token)
  test : Option (List Token)
  step : Option (List Token)
  body : List Token

namespace Clauses

/-- The token of a symbol. -/
def symbol (s : Symbol) : Token := ⟨.symbol s, s.lexeme, 0⟩

/-- What the loop repeats: the body, or a block of the body and the increment. -/
def repeats (clauses : Clauses) : List Token :=
  match clauses.step with
  | none => clauses.body
  | some step =>
    symbol .leftBrace :: (clauses.body ++ (step ++ [symbol .semicolon]) ++ [symbol .rightBrace])

def loop (clauses : Clauses) : List Token :=
  symbol .kwWhile :: symbol .leftParen ::
    (clauses.test.getD [symbol .kwTrue] ++ symbol .rightParen :: clauses.repeats)

/-- The `while` statement that is written by hand for a `for` statement. -/
def handWritten (clauses : Clauses) : List Token :=
  match clauses.init with
  | none => clauses.loop
  | some init => symbol .leftBrace :: (init ++ clauses.loop ++ [symbol .rightBrace])

/-- `for (a;;) b;` is `{ a; while (true) b; }`. -/
example : (handWritten
      ⟨some [⟨.identifier, "a", 1⟩, symbol .semicolon], none, none,
        [⟨.identifier, "b", 1⟩, symbol .semicolon]⟩).map Token.lexeme =
    ["\x7b", "a", ";", "while", "(", "true", ")", "b", ";", "\x7d"] := by decide

/-- Each part is what the grammar says, with these trees. -/
structure Derived (clauses : Clauses) (initializer : Option Stmt)
    (condition increment : Option Expr) (isOpen : Bool) (body : Stmt) : Prop where
  init : Option.Rel (fun tokens stmt => Initializer tokens (some stmt)) clauses.init initializer
  test : Option.Rel (Expression .assignment) clauses.test condition
  step : Option.Rel (Expression .assignment) clauses.step increment
  body : Statement true isOpen clauses.body body

/-- The tokens are a `for` statement with these clauses and this body, with others behind it. -/
def Split (clauses : Clauses) (tokens rest : List Token) : Prop :=
  ∃ keyword opening first semicolon closing,
    keyword.kind = .symbol .kwFor ∧ opening.kind = .symbol .leftParen ∧
      first.kind = .symbol .semicolon ∧ semicolon.kind = .symbol .semicolon ∧
      closing.kind = .symbol .rightParen ∧
      tokens = keyword :: opening :: (clauses.init.getD [first] ++ (clauses.test.getD [] ++
        semicolon :: (clauses.step.getD [] ++ closing :: (clauses.body ++ rest))))

/-- The tokens are a `for` statement by the rules of the grammar, with others behind it. No `else`
that could belong to the body comes next. -/
def Of (clauses : Clauses) (tokens rest : List Token) : Prop :=
  clauses.Split tokens rest ∧ ∃ initializer condition increment isOpen body,
    clauses.Derived initializer condition increment isOpen body ∧ (isOpen = true → NoElse rest)

end Clauses

theorem declaration_of_initializer {tokens : List Token} {stmt : Stmt}
    (h : Initializer tokens (some stmt)) : Declaration true tokens stmt := by
  cases h with
  | varDecl declaration => exact .varDecl declaration
  | evaluated statement => exact .statement (.evaluated statement)

theorem many_pair {tokens tokens' : List Token} {stmt stmt' : Stmt}
    (h : Declaration true tokens stmt) (h' : Declaration true tokens' stmt') :
    Many (Declaration true) (tokens ++ tokens') [stmt, stmt'] := by
  have hlast : Many (Declaration true) (tokens' ++ []) [stmt'] := .cons h' .nil
  rw [List.append_nil] at hlast
  exact .cons h hlast

/-- The condition of a loop without one. -/
theorem expression_true : Expression .assignment [Clauses.symbol .kwTrue] (.literal (.bool true)) := by
  have hprimary : Expression .primary [Clauses.symbol .kwTrue] (.literal (.bool true)) :=
    .literal .true
  have hunary : Expression .unary [Clauses.symbol .kwTrue] (.literal (.bool true)) :=
    .bare (.suffixed hprimary .nil)
  have hfactor : Expression .factor [Clauses.symbol .kwTrue] (.literal (.bool true)) :=
    .operations rfl hunary .nil
  have hterm : Expression .term [Clauses.symbol .kwTrue] (.literal (.bool true)) :=
    .operations rfl hfactor .nil
  have hcomparison : Expression .comparison [Clauses.symbol .kwTrue] (.literal (.bool true)) :=
    .operations rfl hterm .nil
  have hequality : Expression .equality [Clauses.symbol .kwTrue] (.literal (.bool true)) :=
    .operations rfl hcomparison .nil
  have hconjunction : Expression .conjunction [Clauses.symbol .kwTrue] (.literal (.bool true)) :=
    .operations rfl hequality .nil
  exact .value (.operations rfl hconjunction .nil)

section
variable {clauses : Clauses} {initializer : Option Stmt} {condition increment : Option Expr}
variable {isOpen : Bool} {body : Stmt}
variable (h : clauses.Derived initializer condition increment isOpen body)
include h

theorem statement_repeats : ∃ isOpen',
    Statement true isOpen' clauses.repeats (repeated body increment) ∧
      (isOpen' = true → isOpen = true) := by
  obtain ⟨init, test, step, tokens⟩ := clauses
  obtain ⟨-, -, hstep, hbody⟩ := h
  cases hstep with
  | none => exact ⟨isOpen, hbody, id⟩
  | @some step e hstep =>
    have hevaluated : Evaluated (step ++ [Clauses.symbol .semicolon]) (.expression e) := .mk hstep rfl
    have hpair := many_pair (.statement hbody) (.statement (.evaluated hevaluated))
    exact ⟨false, .block rfl hpair rfl, nofun⟩

theorem statement_loop : ∃ isOpen',
    Statement true isOpen' clauses.loop
        (.whileLoop (condition.getD (.literal (.bool true))) (repeated body increment)) ∧
      (isOpen' = true → isOpen = true) := by
  obtain ⟨isOpen', hrepeats, hopen⟩ := statement_repeats h
  refine ⟨isOpen', .whileLoop rfl rfl ?_ rfl hrepeats, hopen⟩
  obtain ⟨init, test, step, tokens⟩ := clauses
  cases h.test with
  | none => exact expression_true
  | some htest => exact htest

/-- The statement that is written by hand has the tree of the `for` statement. -/
theorem statement_handWritten : ∃ isOpen',
    Statement true isOpen' clauses.handWritten (whileForm condition increment body initializer) ∧
      (isOpen' = true → isOpen = true) := by
  obtain ⟨isOpen', hloop, hopen⟩ := statement_loop h
  obtain ⟨init, test, step, tokens⟩ := clauses
  cases h.init with
  | none => exact ⟨isOpen', hloop, hopen⟩
  | some hinit =>
    have hpair := many_pair (declaration_of_initializer hinit) (.statement hloop)
    exact ⟨false, .block rfl hpair rfl, nofun⟩

/-- The tokens of the `for` statement have this tree too. -/
theorem statement_for {tokens rest : List Token} (hsplit : clauses.Split tokens rest) :
    ∃ used, tokens = used ++ rest ∧
      Statement true isOpen used (whileForm condition increment body initializer) := by
  obtain ⟨keyword, opening, first, semicolon, closing, hfor, hopening, hfirst, hsemicolon, hclosing,
    rfl⟩ := hsplit
  have hinit : Initializer (clauses.init.getD [first]) initializer := by
    obtain ⟨init, test, step, tokens⟩ := clauses
    cases h.init with
    | none => exact .absent hfirst
    | some hinit => exact hinit
  have hoptional {tokens : Option (List Token)} {e : Option Expr}
      (he : Option.Rel (Expression .assignment) tokens e) :
      OptionalExpression (tokens.getD []) e := by
    cases he with
    | none => exact .absent
    | some he => exact .present he
  refine ⟨_, ?_, .forLoop hfor hopening hinit (hoptional h.test) hsemicolon (hoptional h.step)
    hclosing h.body⟩
  simp

end

/-- The first clause of a `for` statement, apart from the semicolon that stands for an absent one. -/
theorem rel_of_initializer {starts : List Token} {initializer : Option Stmt}
    (h : Initializer starts initializer) : ∃ init first, starts = init.getD [first] ∧
      first.kind = .symbol .semicolon ∧
      Option.Rel (fun tokens stmt => Initializer tokens (some stmt)) init initializer := by
  cases h with
  | @absent semicolon ends => exact ⟨none, semicolon, rfl, ends, .none⟩
  | varDecl declaration =>
    exact ⟨some starts, Clauses.symbol .semicolon, rfl, rfl, .some (.varDecl declaration)⟩
  | evaluated statement =>
    exact ⟨some starts, Clauses.symbol .semicolon, rfl, rfl, .some (.evaluated statement)⟩

theorem rel_of_optionalExpression {tokens : List Token} {e : Option Expr}
    (h : OptionalExpression tokens e) :
    ∃ clause, tokens = clause.getD [] ∧ Option.Rel (Expression .assignment) clause e := by
  cases h with
  | absent => exact ⟨none, rfl, .none⟩
  | present expression => exact ⟨some tokens, rfl, .some expression⟩

/-- A `for` statement of the grammar can be taken apart. -/
theorem of_statement {tokens rest : List Token} {keyword : Token} {stmt : Stmt} {isOpen : Bool}
    (h : Statement true isOpen (keyword :: tokens) stmt) (hfor : keyword.kind = .symbol .kwFor)
    (hopen : isOpen = true → NoElse rest) :
    ∃ clauses : Clauses, clauses.Of (keyword :: tokens ++ rest) rest := by
  cases h
  case forLoop opening semicolon closing starts tests steps repeats initializer condition increment
      body opens start test ends step closes hbody isFor =>
    obtain ⟨init, first, rfl, hfirst, hinit⟩ := rel_of_initializer start
    obtain ⟨testing, rfl, htest⟩ := rel_of_optionalExpression test
    obtain ⟨stepping, rfl, hstep⟩ := rel_of_optionalExpression step
    refine ⟨⟨init, testing, stepping, repeats⟩, ?_, initializer, condition, increment, isOpen, body,
      ⟨hinit, htest, hstep, hbody⟩, hopen⟩
    exact ⟨keyword, opening, first, semicolon, closing, hfor, opens, hfirst, ends, closes, by simp⟩
  case evaluated statement =>
    obtain ⟨token, tail, heq, hstarts⟩ := statement.starts
    rw [← (List.cons.inj heq).1, hfor] at hstarts
    exact nomatch hstarts
  -- the other statements start with other symbols
  all_goals simp_all

/-- The same tokens, on whatever lines. -/
def SameText (tokens tokens' : List Token) : Prop :=
  tokens.map (Token.onLine fun _ => 0) = tokens'.map (Token.onLine fun _ => 0)

theorem SameText.exists_cons {tokens tokens' rest : List Token} {token : Token}
    (h : SameText tokens tokens') (htokens : tokens' = token :: rest) :
    ∃ first others, tokens = first :: others ∧ first.kind = token.kind := by
  rw [SameText, htokens] at h
  cases tokens with
  | nil => exact nomatch h
  | cons first others =>
    have hkind : (first.onLine fun _ => 0).kind = (token.onLine fun _ => 0).kind :=
      congrArg Token.kind (List.cons.inj h).1
    exact ⟨first, others, rfl, hkind⟩

/-- What a step reads without errors is derivable, whatever was recorded before. -/
theorem derives_of_errors_eq {depth : Nat} {s s' : State} {stmt : Stmt} (hready : Ready s)
    (hdepth : s.rest.length ≤ depth) (hrun : statement depth s = .ok stmt s')
    (hclean : s'.errors = s.errors) :
    ∃ used isOpen, s.rest = used ++ s'.rest ∧ Statement true isOpen used stmt ∧
      (isOpen = true → NoElse s'.rest) := by
  -- the run from the same tokens with no errors recorded
  have hbeside : Beside s { s with errors := #[] } :=
    ⟨rfl, rfl, hready, ⟨hready.ends, hready.behind⟩⟩
  have halike := (preserved_local.innerAt depth).1 _ _ hbeside
  have hrun : (innerAt depth).statement s = .ok stmt s' := hrun
  rw [hrun] at halike
  generalize hfresh : (innerAt depth).statement { s with errors := #[] } = fresh at halike
  cases halike with
  | @ok _ _ t hst herrors =>
    obtain ⟨added, hs, ht⟩ := herrors
    rw [hclean] at hs
    have hadded : added = [] := by simpa using hs
    have hempty : t.errors = #[] := by
      rw [← Array.toList_eq_nil_iff, ht, hadded]
      rfl
    obtain ⟨used, isOpen, hused, hderived, hopen⟩ :=
      (reads_innerAt depth).statements { s with errors := #[] } stmt t hdepth hfresh hempty
    rw [hst.rest] at hused hopen
    exact ⟨used, isOpen, hused, hderived, hopen⟩

/-- The state in which all tokens stand on line 0. -/
def State.flat (t : State) : State :=
  { t with
    rest := t.rest.map (Token.onLine fun _ => 0)
    previous? := t.previous?.map (Token.onLine fun _ => 0)
    errors := t.errors.map (SyntaxError.onLine fun _ => 0) }

/-- A derivable statement is read wherever its text stands, on whatever lines. -/
theorem exists_statement_of_derives {depth : Nat} {t : State} {tokens written rest : List Token}
    {stmt : Stmt} {isOpen : Bool} (h : Statement true isOpen tokens stmt)
    (htext : SameText written tokens) (hrest : rest ≠ []) (ht : t.rest = written ++ rest)
    (hdepth : t.rest.length ≤ depth) (hopen : isOpen = true → NoElse rest) :
    ∃ stmt' t', statement depth t = .ok stmt' t' ∧ t'.rest = rest ∧ t'.errors = t.errors ∧
      stmt'.onLines (fun _ => 0) = stmt.onLines (fun _ => 0) := by
  obtain ⟨next, others, rfl⟩ := List.exists_cons_of_ne_nil hrest
  have hflat : t.flat.rest = tokens.map (Token.onLine fun _ => 0) ++
      next.onLine (fun _ => 0) :: others.map (Token.onLine fun _ => 0) := by
    rw [State.flat, ht, List.map_append, htext, List.map_cons]
  have hlength : t.flat.rest.length ≤ depth := by simpa [State.flat] using hdepth
  rw [hflat] at hlength
  have hline : Statement true isOpen (tokens.map (Token.onLine fun _ => 0)) (stmt.onLines fun _ => 0) :=
    h.onLines
  obtain ⟨stmt₀, t₀, hrun₀, hrest₀, herrors₀, hstmt₀⟩ := (takes_innerAt depth).statements isOpen _ _
    _ _ hline hlength (fun hyes => hopen hyes next others rfl) _ hflat
  have hmoves := (@moves_innerAt (fun _ => 0) depth).statement t t.flat ⟨rfl, rfl, rfl⟩
  rw [hrun₀] at hmoves
  generalize hrun : (innerAt depth).statement t = result at hmoves
  cases hmoves with
  | @ok stmt' _ t' _ hmoved hst =>
    have hfollows := (safe_innerAt depth).statement.ok hrun
    refine ⟨stmt', t', hrun, ?_, ?_, ?_⟩
    · obtain ⟨used, hused⟩ := hfollows.suffix
      have hsize := congrArg List.length (hst.rest.symm.trans hrest₀)
      rw [ht] at hused
      exact (List.append_inj' hused (by simpa using hsize.symm)).2.symm
    · obtain ⟨added, hadded⟩ := hfollows.errors
      have hsize := congrArg Array.size (hst.errors.symm.trans herrors₀)
      have hsizes := congrArg List.length hadded
      simp only [State.flat, Array.size_map] at hsize
      simp only [Array.length_toList, List.length_append, hsize] at hsizes
      have hnone : added = [] := List.length_eq_zero_iff.mp (by omega)
      rw [← Array.toList_inj, hadded, hnone, List.append_nil]
    · calc stmt'.onLines (fun _ => 0) = stmt₀.onLines id := hmoved.symm
        _ = (stmt.onLines fun _ => 0).onLines id := by
          rw [Stmt.onLines_id, Stmt.onLines_id, hstmt₀]
        _ = stmt.onLines fun _ => 0 := Stmt.onLines_onLines stmt

/-- A statement is also read where a declaration may stand. -/
theorem declaration_of_statement {depth : Nat} {s s' : State} {stmt : Stmt} {token : Token}
    {rest : List Token} (h : s.rest = token :: rest) (hclass : token.kind ≠ .symbol .kwClass)
    (hfun : token.kind ≠ .symbol .kwFun) (hvar : token.kind ≠ .symbol .kwVar)
    (hrun : statement depth s = .ok stmt s') : declaration depth s = .ok (some stmt) s' := by
  cases depth with
  | zero => exact absurd hrun fail_ne_ok
  | succ depth =>
    have hattempt : attempt (depth + 1) s = .ok stmt s' := by
      rw [attempt, bind_of_ok (accept_of_ne h hclass)]
      simp only [Bool.false_eq_true, ↓reduceIte]
      rw [bind_of_ok (accept_of_ne h hfun)]
      simp only [Bool.false_eq_true, ↓reduceIte]
      rw [bind_of_ok (accept_of_ne h hvar)]
      exact hrun
    rw [declaration_eq, recovering, hattempt]

/-- A `for` statement that is parsed without errors, wherever it stands, can be taken apart into its
clauses and its body. In the same place the `while` statement that is written by hand from these, on
whatever lines, is parsed without errors too, up to the same token, and the two are the same except
for lines and numbers. Both may stand where a declaration is read. -/
theorem for_eq_handWritten {depth : Nat} {s s' : State} {stmt : Stmt} (hready : Ready s)
    (hdepth : s.rest.length ≤ depth)
    (hfor : ∃ keyword ∈ s.rest.head?, keyword.kind = .symbol .kwFor)
    (hrun : statement depth s = .ok stmt s') (hclean : s'.errors = s.errors) :
    declaration depth s = .ok (some stmt) s' ∧ (∃ clauses : Clauses, clauses.Of s.rest s'.rest) ∧
      ∀ clauses : Clauses, clauses.Of s.rest s'.rest → ∀ written t depth',
        SameText written clauses.handWritten → t.rest = written ++ s'.rest →
        t.rest.length ≤ depth' →
        ∃ stmt' t', statement depth' t = .ok stmt' t' ∧
          declaration depth' t = .ok (some stmt') t' ∧ t'.rest = s'.rest ∧ t'.errors = t.errors ∧
          stmt'.onLines (fun _ => 0) = stmt.onLines (fun _ => 0) := by
  obtain ⟨keyword, hhead, hk⟩ := hfor
  obtain ⟨others, hrest⟩ := List.head?_eq_some_iff.mp hhead
  have hends := (((safe_innerAt depth).statement.ok hrun).ready hready).ends
  refine ⟨?_, ?_, fun clauses hof written t depth' htext ht hdepth' => ?_⟩
  · refine declaration_of_statement hrest ?_ ?_ ?_ hrun <;> simp [hk]
  · obtain ⟨used, isOpen, hused, hderived, hopen⟩ := derives_of_errors_eq hready hdepth hrun hclean
    obtain ⟨token, tail, rfl, -⟩ := hderived.starts
    have hkeyword : token.kind = .symbol .kwFor := by
      rw [hrest] at hused
      rw [← (List.cons.inj hused).1, hk]
    rw [hused]
    exact of_statement hderived hkeyword hopen
  · obtain ⟨hsplit, initializer, condition, increment, isOpen, body, hderived, hopen⟩ := hof
    obtain ⟨used, hused, hfor⟩ := statement_for hderived hsplit
    obtain ⟨isOpen', hwhile, himp⟩ := statement_handWritten hderived
    -- both trees are that of the derivation
    obtain ⟨stmt₁, s₁, hrun₁, -, -, hstmt₁⟩ := exists_statement_of_derives hfor rfl hends.ne_nil
      hused hdepth hopen
    obtain ⟨rfl, -⟩ := EStateM.Result.ok.inj (hrun.symm.trans hrun₁)
    obtain ⟨stmt', t', hrun', hrest', herrors', hstmt'⟩ := exists_statement_of_derives hwhile htext
      hends.ne_nil ht hdepth' (hopen ∘ himp)
    refine ⟨stmt', t', hrun', ?_, hrest', herrors', hstmt'.trans hstmt₁.symm⟩
    obtain ⟨token, tail, htokens, hstarts⟩ := hwhile.starts
    obtain ⟨first, others', rfl, hkind⟩ := htext.exists_cons htokens
    rw [← hkind] at hstarts
    refine declaration_of_statement (ht.trans (List.cons_append ..)) ?_ ?_ ?_ hrun' <;>
      exact ne_of_apply hstarts rfl

/-- Inside a block, the tokens of `for (var i = a; i; i = b) if (c) print i; }`. -/
def loopInBlock : State where
  rest := [⟨.symbol .kwFor, "for", 2⟩, ⟨.symbol .leftParen, "(", 2⟩, ⟨.symbol .kwVar, "var", 2⟩,
    ⟨.identifier, "i", 2⟩, ⟨.symbol .equal, "=", 2⟩, ⟨.identifier, "a", 2⟩,
    ⟨.symbol .semicolon, ";", 2⟩, ⟨.identifier, "i", 2⟩, ⟨.symbol .semicolon, ";", 2⟩,
    ⟨.identifier, "i", 2⟩, ⟨.symbol .equal, "=", 2⟩, ⟨.identifier, "b", 2⟩,
    ⟨.symbol .rightParen, ")", 2⟩, ⟨.symbol .kwIf, "if", 3⟩, ⟨.symbol .leftParen, "(", 3⟩,
    ⟨.identifier, "c", 3⟩, ⟨.symbol .rightParen, ")", 3⟩, ⟨.symbol .kwPrint, "print", 3⟩,
    ⟨.identifier, "i", 3⟩, ⟨.symbol .semicolon, ";", 3⟩, ⟨.symbol .rightBrace, "\x7d", 4⟩,
    .endOfInput 4]
  previous? := some ⟨.symbol .leftBrace, "\x7b", 1⟩

/-- The tree of the `for` statement in the block. -/
def treeInBlock : Stmt :=
  .block [.varDecl ⟨"i", 2⟩ (some (.variable 0 ⟨"a", 2⟩)),
    .whileLoop (.variable 1 ⟨"i", 2⟩)
      (.block [.ifElse (.variable 5 ⟨"c", 3⟩) (.print (.variable 6 ⟨"i", 3⟩)) none,
        .expression (.assign 4 ⟨"i", 2⟩ (.variable 3 ⟨"b", 2⟩))])]

/-- The state behind it. -/
def behindLoop : State where
  rest := loopInBlock.rest.drop 20
  previous? := loopInBlock.rest[19]?
  next := 7

/-- The hypotheses of `for_eq_handWritten` can be met. -/
theorem for_eq_handWritten_loopInBlock :
    Ready loopInBlock ∧ (∃ keyword ∈ loopInBlock.rest.head?, keyword.kind = .symbol .kwFor) ∧
      statement 22 loopInBlock = .ok treeInBlock behindLoop ∧
      ∃ clauses : Clauses, clauses.Of loopInBlock.rest behindLoop.rest ∧
        ∃ stmt' t', statement (clauses.handWritten ++ behindLoop.rest).length
            { rest := clauses.handWritten ++ behindLoop.rest } = .ok stmt' t' ∧
          t'.errors = #[] ∧ stmt'.onLines (fun _ => 0) = treeInBlock.onLines fun _ => 0 := by
  have hready : Ready loopInBlock :=
    ⟨⟨loopInBlock.rest.dropLast, .endOfInput 4, rfl, rfl, by simp [loopInBlock, Kind.isEnd]⟩, .inl rfl⟩
  have hfor : ∃ keyword ∈ loopInBlock.rest.head?, keyword.kind = .symbol .kwFor := ⟨_, rfl, rfl⟩
  have hrun : statement 22 loopInBlock = .ok treeInBlock behindLoop := by cbv
  obtain ⟨-, ⟨clauses, hof⟩, hsame⟩ := for_eq_handWritten hready (Nat.le_refl _) hfor hrun rfl
  obtain ⟨stmt', t', hrun', -, -, herrors, hstmt'⟩ :=
    hsame clauses hof clauses.handWritten { rest := clauses.handWritten ++ behindLoop.rest } _ rfl rfl
      (Nat.le_refl _)
  exact ⟨hready, hfor, hrun, clauses, hof, stmt', t', hrun', herrors, hstmt'⟩

end Parser
end Lox
