import Lox.Proofs.Grammar.Lines
import Lox.Proofs.Parser.Lines
import Lox.Proofs.Resolution.Lines
import Lox.Proofs.Scoping.Globals
import Lox.Proofs.Scoping.Sequence
import Lox.Proofs.Token.Joining

/-!
# Two sources as one

It makes no difference whether a session runs two sources one after the other or both as one source
with a line break between them. They print the same and end alike; an error at a token of the second
source is reported as many lines further down as the first one has, and an error at a token of an
earlier source is reported where it was. If the first source fails, the second one does not matter.
-/
namespace Lox
open Evaluation

/-- The tokens of a source end with the input. -/
theorem Lexer.tokens_eq (source : String) : ∃ front last, tokens (items source) = front ++ [last] ∧
    (∀ token ∈ front, token.kind.isEnd = false) ∧ last.kind.isEnd = true := by
  obtain ⟨front, last, htokens, hfront⟩ := tokens_items source
  exact ⟨front, .endOfInput last, htokens, fun token htoken => (hfront token htoken).1, rfl⟩

theorem Lexer.endsInput_onLine (line : Nat → Nat) (source : String) :
    Parser.EndsInput ((tokens (items source)).map (Token.onLine line)) := by
  obtain ⟨front, last, htokens, hfront, hlast⟩ := tokens_eq source
  rw [htokens, List.map_append]
  exact ⟨_, _, rfl, hlast, List.forall_mem_map.mpr hfront⟩

theorem Lexer.proper_onLine (line : Nat → Nat) (source : String) :
    ∀ token ∈ (tokens (items source)).map (Token.onLine line), token.Proper :=
  List.forall_mem_map.mpr fun _ => proper_of_mem_tokens

namespace Reading
variable {first second source : String} {n n' : NodeId}

/-- Two sources that have no syntax errors have none together, and are read one after the other. -/
theorem ofSource_joined (hlexical : (ofSource first n).lexErrors = [])
    (hfirst : (ofSource first n).program.errors = [])
    (hsecond : (ofSource second n').program.errors = []) :
    let both := ofSource (first ++ "\n" ++ second) n
    (both.lexErrors = [] ↔ (ofSource second n').lexErrors = []) ∧ both.program.errors = [] ∧
      Stmt.listOnLines id both.program.statements =
        Stmt.listOnLines id (ofSource first n).program.statements ++
          Stmt.listOnLines (· + (lineBreaks first + 1))
            (ofSource second n').program.statements := by
  obtain ⟨⟨front, last, htokens, hfront, hboth⟩, herrors⟩ := Lexer.tokens_joined second hlexical
  obtain ⟨other, last', htokens', hother, hlast'⟩ := Lexer.tokens_eq second
  unfold ofSource at hfirst hsecond ⊢
  dsimp only at hfirst hsecond ⊢
  rw [htokens] at hfirst ⊢
  rw [hboth]
  rw [htokens'] at hsecond ⊢
  exact ⟨herrors, Program.append_of_errors_eq_nil (fun token htoken => (hfront token htoken).1)
    hother rfl hlast' hfirst hsecond⟩

end Reading

/-- The diagnostic on another line. -/
def Diagnostic.onLine (line : Nat → Nat) : Diagnostic → Diagnostic
  | lexical n message => lexical (line n) message
  | syntactic n location message => syntactic (line n) location message
  | resolution n location message => resolution (line n) location message
  | runtime n message => runtime (line n) message
  | inputOutput message => inputOutput message

namespace Outcome

/-- What a run shows, with its diagnostics on other lines. -/
def onLines (line : Nat → Nat) (shown : Outcome) : Outcome :=
  { shown with diagnostics := shown.diagnostics.map (Diagnostic.onLine line) }

/-- What a run shows, behind what was printed before. -/
def after (printed : String) (shown : Outcome) : Outcome :=
  { shown with output := printed ++ shown.output }

@[simp] theorem onLines_id (shown : Outcome) : shown.onLines id = shown := by
  have hline : Diagnostic.onLine id = id := by
    funext diagnostic
    cases diagnostic <;> rfl
  unfold onLines
  rw [hline, List.map_id]

@[simp] theorem after_empty (shown : Outcome) : shown.after "" = shown := by
  unfold after
  rw [String.empty_append]

end Outcome

namespace Evaluation.Lexical

/-- What is shown of a run with the result `r`. -/
def shown (r : EStateM.Result Halt Lexical Unit) : Outcome :=
  Session.outcome (resultOf r) (stateOf r).output

theorem shown_resultOnLines (line : Nat → Nat) (printed : String)
    (r : EStateM.Result Halt Lexical Unit) :
    shown (resultOnLines line printed r) = ((shown r).onLines line).after printed := by
  match r with
  | .ok () l => rfl
  | .error (.fault reason) l => rfl
  | .error .outOfFuel l => rfl
  | .error (.failure error) l => rfl

/-- An error of a program whose lines are told apart is in the program, or it is in an earlier
function, whatever lines the program is on. -/
theorem shown_untagged (r : EStateM.Result Halt Lexical Unit) :
    (∀ line, (shown r).onLines (untagged line) =
      ((shown r).onLines (untagged id)).onLines line) ∨
    (∃ line, ((shown r).onLines (untagged id)).onLines line ≠ (shown r).onLines (untagged id)) ∧
      ∀ line, (shown r).onLines (untagged line) = (shown r).onLines (untagged id) := by
  match r with
  | .ok () l => exact .inl fun line => rfl
  | .error (.fault reason) l => exact .inl fun line => rfl
  | .error .outOfFuel l => exact .inl fun line => rfl
  | .error (.failure error) l =>
    have hfailure : shown (.error (.failure error) l) =
        { status := .runtimeError, diagnostics := [error.diagnostic], output := l.output } := rfl
    rw [hfailure]
    by_cases heven : error.line % 2 = 0
    · refine .inr ⟨⟨(· + 1), ?_⟩, fun line => ?_⟩
      · simp [Outcome.onLines, RuntimeError.diagnostic, Diagnostic.onLine]
      · simp [Outcome.onLines, RuntimeError.diagnostic, Diagnostic.onLine, untagged, heven]
    · refine .inl fun line => ?_
      simp [Outcome.onLines, RuntimeError.diagnostic, Diagnostic.onLine, untagged, heven]

end Evaluation.Lexical

namespace Session
open Lexical

variable {session : Session} {l : Lexical} {first second source : String} {program : List Stmt}

/-- A source without a static error is accepted. -/
theorem exists_accept? (h : (session.run source).1.status ≠ .staticError) :
    ∃ program, session.accept? source = some program := by
  cases haccept : session.accept? source with
  | none => exact absurd (run_of_reject haccept).1 h
  | some program => exact ⟨program, rfl⟩

/-- What two sources have been accepted as one after the other, both are accepted as together. -/
theorem accept?_joined {between : Session} {program' : List Stmt}
    (hfirst : session.accept? first = some program)
    (hsecond : between.accept? second = some program')
    (hknows : ∀ other, between.knows other =
      ((Stmt.declaredByAll program).any (·.text == other) || session.knows other)) :
    ∃ both, session.accept? (first ++ "\n" ++ second) = some both ∧
      Stmt.listOnLines id both = Stmt.listOnLines id program ++
        Stmt.listOnLines (· + (lineBreaks first + 1)) program' := by
  obtain ⟨rfl, hlexical, hsyntax, hclean⟩ := accept?_eq_some.mp hfirst
  obtain ⟨rfl, hlexical', hsyntax', hclean'⟩ := accept?_eq_some.mp hsecond
  obtain ⟨hlexicals, herrors, hstatements⟩ := Reading.ofSource_joined hlexical hsyntax hsyntax'
  rw [resolve_read] at hclean hclean'
  rw [funext hknows] at hclean'
  refine ⟨_, accept?_eq_some.mpr ⟨rfl, hlexicals.mpr hlexical', herrors, ?_⟩, hstatements⟩
  rw [resolve_read]
  exact (Resolution.errors_sequence_eq_nil_iff hstatements).mpr ⟨hclean, hclean'⟩

/-- The lexical state knows the global variables of the session. -/
theorem Linked.knows (h : Linked Lexical.invariant session l) :
    session.knows = l.globals.contains := by
  obtain ⟨-, w, hagrees⟩ := h.along
  funext name
  exact congrArg Option.isSome (hagrees.memory.global name)

/-- A clean program with new numbers does in the machine of the session what it does lexically. -/
theorem Linked.performs (h : Linked Lexical.invariant session l) {hi : NodeId}
    (hnext : session.next ≤ hi) (hprogram : Parser.FitsBody session.next hi program)
    (hclean : (session.resolve program).1 = []) :
    let performed := ({ session with next := hi }.resolve program).2.perform
      (Evaluation.interpret session.fuel program)
    let reference := Lexical.operations.interpret session.fuel program l.fresh
    outcome performed.1 performed.2.1 = shown reference ∧
      Linked Lexical.invariant performed.2.2 (stateOf reference) ∧
      performed.2.2.fuel = session.fuel ∧
      ∀ v l', Evaluation.runAll (Lexical.operations.execute session.fuel) program l.fresh ≠
        .ok (.returned v) l' := by
  intro performed reference
  have hresolved := h.resolve hnext hprogram
  have hwithin := h.within hprogram fun _ => hclean
  obtain ⟨hresult, ⟨w, hagrees⟩, hlinked⟩ := hresolved.interpret hwithin session.fuel
  have hperformed : performed = _ := perform_eq _ _
  rw [hperformed]
  exact ⟨congrArg₂ outcome hresult hagrees.output, hlinked, rfl,
    runAll_ne_returned hresolved.along hwithin⟩

/-- An accepted source is run as it is lexically. -/
theorem Linked.runs (h : Linked Lexical.invariant session l)
    (haccept : session.accept? source = some program) :
    let reference := Lexical.operations.interpret session.fuel program l.fresh
    (session.run source).1 = shown reference ∧
      Linked Lexical.invariant (session.run source).2 (stateOf reference) ∧
      (session.run source).2.fuel = session.fuel ∧
      ∀ v l', Evaluation.runAll (Lexical.operations.execute session.fuel) program l.fresh ≠
        .ok (.returned v) l' := by
  intro reference
  obtain ⟨hstatements, hclean⟩ := statements_of_accept? haccept
  obtain ⟨hnext, hfits⟩ := session.fits_read source
  rw [run_of_accept? haccept, Session.resolved, hstatements]
  rw [hstatements] at hfits
  exact h.performs hnext hfits hclean

/-- What an accepted source shows if its tokens stand on other lines. -/
def runOn (session : Session) (line : Nat → Nat) (source : String) : Outcome :=
  let tokens := (Lexer.tokens (Lexer.items source)).map (Token.onLine line)
  let program := Program.ofTokens tokens session.next
  let resolved := ({ session with next := program.next }.resolve program.statements).2
  let performed := resolved.perform (Evaluation.interpret session.fuel program.statements)
  outcome performed.1 performed.2.1

/-- An accepted source is run on other lines as it is lexically, with its lines told apart from
those of earlier functions. -/
theorem Linked.runsOn (h : Linked Lexical.invariant session l)
    (haccept : session.accept? source = some program) :
    let reference := Lexical.operations.interpret session.fuel
      (Stmt.listOnLines (tagged true) program) (l.fresh.onLines (tagged false) "")
    (session.run source).1 = (shown reference).onLines (untagged id) ∧
      ∀ line, session.runOn line source = (shown reference).onLines (untagged line) := by
  intro reference
  have hshown {program' : List Stmt} {line : Nat → Nat}
      (hprogram : Stmt.listOnLines id program' = Stmt.listOnLines line program) :
      shown (Lexical.operations.interpret session.fuel program' l.fresh) =
        (shown reference).onLines (untagged line) := by
    have hmirror := congrArg shown (interpret_untagged session.fuel l.fresh hprogram)
    simpa only [shown_resultOnLines, Outcome.onLines_id, Outcome.after_empty] using hmirror
  obtain ⟨rfl, hlexical, hsyntax, hclean⟩ := accept?_eq_some.mp haccept
  refine ⟨(h.runs haccept).1.trans (hshown rfl), fun line => ?_⟩
  have hmoved := (@Program.ofTokens_onLine line (Lexer.tokens (Lexer.items source)) session.next
    session.next).1
  obtain ⟨hnext, hfits⟩ := Program.fits_ofTokens (Lexer.endsInput_onLine line source)
    (Lexer.proper_onLine line source) session.next
  have hperforms := h.performs hnext hfits
    ((Resolution.errors_eq_nil_of_onLines hmoved).mpr hclean)
  exact hperforms.1.trans (hshown hmoved)

/-- A successful run ends outside of all scopes, and its declarations have become known. -/
theorem Linked.succeeds (h : Linked Lexical.invariant session l)
    (haccept : session.accept? source = some program)
    (hsuccess : (session.run source).1.status = .success) :
    ∃ l', Evaluation.runAll (Lexical.operations.execute session.fuel) program l.fresh =
        .ok .normal l' ∧
      l'.fresh = { l' with output := "" } ∧ (session.run source).1.output = l'.output ∧
      Linked Lexical.invariant (session.run source).2 l' ∧
      ∀ other, (session.run source).2.knows other =
        ((Stmt.declaredByAll program).any (·.text == other) || session.knows other) := by
  obtain ⟨hshown, hlinked, -, hreturned⟩ := h.runs haccept
  rw [interpret_eq] at hshown hlinked
  rw [hshown] at hsuccess ⊢
  cases hrun : Evaluation.runAll (Lexical.operations.execute session.fuel) program l.fresh with
  | error halt l' =>
    rw [hrun] at hsuccess
    cases halt <;> cases hsuccess
  | ok completion l' =>
    rw [hrun] at hlinked
    cases completion with
    | returned v => exact absurd hrun (hreturned v l')
    | normal =>
      obtain ⟨hstatements, -⟩ := statements_of_accept? haccept
      have hfits := (session.fits_read source).2
      rw [hstatements] at hfits
      obtain ⟨henvironment, hglobals⟩ := globals_runAll session.fuel hfits.wellFormed rfl hrun
      refine ⟨l', rfl, ?_, rfl, hlinked, fun other => ?_⟩
      · rw [Lexical.fresh, ← henvironment]
      · rw [hlinked.knows, h.knows]
        exact hglobals other

/-- The error that the run of an accepted source shows, if any, is at a token of the source: on
whatever lines its tokens stand, it is reported there. -/
def ReportsOwnLines (session : Session) (source : String) : Prop :=
  ∀ line, session.runOn line source = (session.run source).1.onLines line

/-- The error that the run of an accepted source shows, if any, is at a token of an earlier source:
it is reported on the same line, whatever lines the tokens of the source stand on. -/
def ReportsEarlierLines (session : Session) (source : String) : Prop :=
  ∀ line, session.runOn line source = (session.run source).1

/-- A session that runs two sources as one after a successful first one shows what the first one
prints, and then what the second one shows. -/
theorem Linked.run_joined_of_success (h : Linked Lexical.invariant session l)
    (hfirst : (session.run first).1.status = .success)
    (hsecond : ((session.run first).2.run second).1.status ≠ .staticError) :
    let shown := (session.run first).1
    let between := (session.run first).2
    let shown' := (between.run second).1
    let both := (session.run (first ++ "\n" ++ second)).1
    between.ReportsOwnLines second ∧
        both = (shown'.onLines (· + (lineBreaks first + 1))).after shown.output ∨
      ¬ between.ReportsOwnLines second ∧ between.ReportsEarlierLines second ∧
        both = shown'.after shown.output := by
  dsimp only
  obtain ⟨program, haccept⟩ := exists_accept? (by rw [hfirst]; nofun)
  obtain ⟨program', haccept'⟩ := exists_accept? hsecond
  obtain ⟨l', hrun, hfresh, houtput, hlinked, hknows⟩ := h.succeeds haccept hfirst
  have hfuel := (h.runs haccept).2.2.1
  obtain ⟨both, haccepts, hsequence⟩ := accept?_joined haccept haccept' hknows
  obtain ⟨hshown, hmoved⟩ := hlinked.runsOn haccept'
  have hboth : (session.run (first ++ "\n" ++ second)).1 = _ := (h.runs haccepts).1
  have hmirror := congrArg shown (interpret_both hsequence hrun)
  rw [shown_resultOnLines, shown_resultOnLines, Outcome.onLines_id, Outcome.after_empty, ← hboth,
    ← hfresh, ← hfuel, ← houtput] at hmirror
  unfold ReportsOwnLines ReportsEarlierLines
  rw [hmirror, hshown]
  simp only [hmoved]
  rcases shown_untagged _ with hown | ⟨⟨line, hline⟩, hearlier⟩
  · exact .inl ⟨hown, congrArg (Outcome.after _) (hown _)⟩
  · exact .inr ⟨fun hown => hline ((hown line).symm.trans (hearlier line)), hearlier,
      congrArg (Outcome.after _) (hearlier _)⟩

/-- A session that runs two sources as one, of which the first one fails, shows what the first one
shows. -/
theorem Linked.run_joined_of_failure (h : Linked Lexical.invariant session l) {n : NodeId}
    (hfirst : (session.run first).1.status = .runtimeError)
    (hsecond : (Reading.ofSource second n).program.errors = [])
    (hboth : (session.run (first ++ "\n" ++ second)).1.status ≠ .staticError) :
    (session.run (first ++ "\n" ++ second)).1 = (session.run first).1 := by
  obtain ⟨program, haccept⟩ := exists_accept? (by rw [hfirst]; nofun)
  obtain ⟨both, haccepts⟩ := exists_accept? hboth
  obtain ⟨rfl, hlexical, hsyntax, -⟩ := accept?_eq_some.mp haccept
  obtain ⟨-, -, hsequence⟩ := Reading.ofSource_joined hlexical hsyntax hsecond
  obtain ⟨rfl, -⟩ := accept?_eq_some.mp haccepts
  have hshown := (h.runs haccept).1
  have hshown' := (h.runs haccepts).1
  cases hrun : Evaluation.runAll (Lexical.operations.execute session.fuel)
      (session.read first).1.program.statements l.fresh with
  | ok completion l' =>
    rw [interpret_eq, hrun] at hshown
    rw [hshown] at hfirst
    cases hfirst
  | error halt l' =>
    have hmirror := congrArg shown (interpret_both_of_error hsequence hrun)
    rw [shown_resultOnLines, shown_resultOnLines, Outcome.onLines_id, Outcome.after_empty,
      Outcome.onLines_id, Outcome.after_empty] at hmirror
    rw [interpret_eq, hrun] at hshown
    exact hshown'.trans (hmirror.trans hshown.symm)

/-- An error that is at a token of the source is on the line of one of its tokens. -/
theorem ReportsOwnLines.exists_token (h : session.ReportsOwnLines source) {n : Nat}
    {message : String} (hreport : .runtime n message ∈ (session.run source).1.diagnostics) :
    ∃ token ∈ Lexer.tokens (Lexer.items source), token.line = n := by
  by_contra hnone
  -- If no token is on line `n`, then nothing changes where the tokens of this line are moved on.
  let line (k : Nat) := if k = n then n + 1 else k
  have hsame : (Lexer.tokens (Lexer.items source)).map (Token.onLine line) =
      (Lexer.tokens (Lexer.items source)).map (Token.onLine id) := by
    refine List.map_congr_left fun token htoken => ?_
    have hline : line token.line = token.line := if_neg fun heq => hnone ⟨token, htoken, heq⟩
    exact congrArg (fun n => { token with line := n }) hline
  have hrun : session.runOn line source = session.runOn id source := by
    unfold runOn
    rw [hsame]
  rw [h, h, Outcome.onLines_id] at hrun
  rw [← hrun] at hreport
  obtain ⟨diagnostic, -, hdiagnostic⟩ := List.mem_map.mp hreport
  cases diagnostic with
  | runtime k message' =>
    have hk : line k = n := (Diagnostic.runtime.inj hdiagnostic).1
    dsimp only [line] at hk
    split at hk <;> omega
  | _ => cases hdiagnostic

/-- Splitting a source at a line break makes no difference. -/
theorem run_joined (fuel : Nat) (sources : List String) (first second : String) :
    let session : Session := ((initial fuel).runAll sources).2
    let shown := (session.run first).1
    let between := (session.run first).2
    let shown' := (between.run second).1
    let both := (session.run (first ++ "\n" ++ second)).1
    (shown.status = .success → shown'.status ≠ .staticError →
      between.ReportsOwnLines second ∧
          both = (shown'.onLines (· + (lineBreaks first + 1))).after shown.output ∨
        ¬ between.ReportsOwnLines second ∧ between.ReportsEarlierLines second ∧
          both = shown'.after shown.output) ∧
    (shown.status = .runtimeError → (Reading.ofSource second 0).program.errors = [] →
      both.status ≠ .staticError → both = shown) := by
  have hlinked := (linked_initial Lexical.invariant fuel).followAll sources
  exact ⟨hlinked.run_joined_of_success, hlinked.run_joined_of_failure⟩

/-- A function that fails on its second line. -/
def failingFunction : String := "fun f() \x7b\n  return -nil;\n\x7d"

/-- The second source calls a function of an earlier one, which fails on the line where it stands;
the second source fails itself, one line further down; and the first source fails. -/
theorem run_joined_failing :
    let session := ((initial 9).runAll [failingFunction]).2
    let between := (session.run "print nil;").2
    (between.ReportsEarlierLines "f();" ∧
      (session.run ("print nil;" ++ "\n" ++ "f();")).1 = (between.run "f();").1.after "nil\n") ∧
    (between.ReportsOwnLines "-nil;" ∧
      (session.run ("print nil;" ++ "\n" ++ "-nil;")).1 =
        ((between.run "-nil;").1.onLines (· + 1)).after "nil\n") ∧
    (session.run ("f();" ++ "\n" ++ "print nil;")).1 = (session.run "f();").1 := by
  have hsuccess : (((initial 9).runAll [failingFunction]).2.run "print nil;").1.status =
      .success := by
    decide +kernel
  have houtput : (((initial 9).runAll [failingFunction]).2.run "print nil;").1.output =
      "nil\n" := by
    decide +kernel
  have hlines : lineBreaks "print nil;" = 0 := by decide +kernel
  refine ⟨?_, ?_, ?_⟩
  · have hjoined :=
      (run_joined 9 [failingFunction] "print nil;" "f();").1 hsuccess (by decide +kernel)
    rw [houtput] at hjoined
    rcases hjoined with ⟨-, hown⟩ | ⟨-, hearlier, hboth⟩
    · exact absurd (congrArg Outcome.diagnostics hown) (by decide +kernel)
    · exact ⟨hearlier, hboth⟩
  · have hjoined :=
      (run_joined 9 [failingFunction] "print nil;" "-nil;").1 hsuccess (by decide +kernel)
    rw [hlines, houtput] at hjoined
    rcases hjoined with ⟨hown, hboth⟩ | ⟨-, -, hearlier⟩
    · exact ⟨hown, hboth⟩
    · exact absurd (congrArg Outcome.diagnostics hearlier) (by decide +kernel)
  · exact (run_joined 9 [failingFunction] "f();" "print nil;").2
      (by decide +kernel) (by decide +kernel) (by decide +kernel)

end Session
end Lox
