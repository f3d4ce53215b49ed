import Lox.CommandLine.Perform
import Lox.Proofs.Session.Statuses

/-!
# The commands agree about a file

Each of the three commands reads its file anew. They find the same in its text: `tokenize` reports
the lexical errors, `parse` these and then the syntax errors, and `run` what `parse` does. Only a
text without errors goes further. Then `parse` prints its trees, and what `run` reports is errors of
the references alone or a runtime error alone, or there is nothing to report. What stands on the
error stream is said by relations between reports and texts, in which each report has the form that
its kind calls for.
-/
namespace Lox

def Diagnostic.isLexical : Diagnostic → Bool
  | .lexical .. => true
  | .syntactic .. | .resolution .. | .runtime .. | .inputOutput _ => false

def Diagnostic.isResolution : Diagnostic → Bool
  | .resolution .. => true
  | .lexical .. | .syntactic .. | .runtime .. | .inputOutput _ => false

theorem Diagnostic.isLexical_of_isResolution {d : Diagnostic} (h : d.isResolution = true) :
    d.isLexical = false := by
  cases d with
  | resolution line location message => rfl
  | _ => cases h

/-- What is written of a report. An error of the source names its line first and then what it points
at, unless that is the whole line; a runtime error names its line last. -/
inductive Diagnostic.Written : Diagnostic → String → Prop
  | lexical (line : Nat) (message : String) :
    Written (.lexical line message) ("[line " ++ toString line ++ "] Error: " ++ message ++ "\n")
  | syntactic (line : Nat) (location message : String) :
    Written (.syntactic line location message)
      ("[line " ++ toString line ++ "] Error" ++ location ++ ": " ++ message ++ "\n")
  | resolution (line : Nat) (location message : String) :
    Written (.resolution line location message)
      ("[line " ++ toString line ++ "] Error" ++ location ++ ": " ++ message ++ "\n")
  | runtime (line : Nat) (message : String) :
    Written (.runtime line message) (message ++ "\n[line " ++ toString line ++ "]\n")
  | inputOutput (message : String) : Written (.inputOutput message) (message ++ "\n")

/-- What is written of reports: the text of each of them, in order, and nothing else. -/
inductive Diagnostic.AllWritten : List Diagnostic → String → Prop
  | nil : AllWritten [] ""
  | cons {report : Diagnostic} {reports : List Diagnostic} {text texts : String} :
    report.Written text → AllWritten reports texts → AllWritten (report :: reports) (text ++ texts)

theorem Diagnostic.written_render (report : Diagnostic) : report.Written (report.render ++ "\n") := by
  cases report with
  | lexical line message =>
    have htext := Written.lexical line message
    simpa [render, renderStatic, String.append_assoc] using htext
  | syntactic line location message => exact .syntactic line location message
  | resolution line location message => exact .resolution line location message
  | runtime line message =>
    have htext := Written.runtime line message
    simpa [render, String.append_assoc] using htext
  | inputOutput message => exact .inputOutput message

theorem Diagnostic.allWritten_renderAll (reports : List Diagnostic) :
    AllWritten reports (renderAll reports) := by
  induction reports with
  | nil => exact .nil
  | cons report reports ih =>
    have hcons := AllWritten.cons report.written_render ih
    rwa [renderAll, List.map_cons, String.join_cons]

theorem Diagnostic.renderAll_append (first second : List Diagnostic) :
    renderAll (first ++ second) = renderAll first ++ renderAll second := by
  simp [renderAll]

namespace CommandLine
open Session
variable {source : String}

/-- The errors of the text alone, which is what `parse` reports. -/
def textErrors (source : String) : List Diagnostic := (Reading.ofSource source 0).diagnostics

/-- What `run` reports. -/
def runErrors (fuel : Nat) (source : String) : List Diagnostic :=
  ((initial fuel).run source).1.diagnostics

/-- The statements at the top level, without those in which there is an error. -/
def statements (source : String) : List Stmt := (Reading.ofSource source 0).program.statements

/-- The texts stand in the output in order, each on a line of its own, and nothing else does. -/
inductive OnLines : List String → String → Prop
  | nil : OnLines [] ""
  | cons (text : String) {texts : List String} {output : String} :
    OnLines texts output → OnLines (text :: texts) (text ++ "\n" ++ output)

theorem onLines_lines (texts : List String) : OnLines texts (lines texts) := by
  induction texts with
  | nil => exact .nil
  | cons text texts ih =>
    have hcons := OnLines.cons text ih
    rwa [lines, List.map_cons, String.join_cons]

theorem textErrors_eq (source : String) :
    textErrors source = (Lexer.errors (Lexer.items source)).map LexError.diagnostic ++
      (Reading.ofSource source 0).program.errors.map SyntaxError.diagnostic := rfl

/-- The lexical ones are those that `tokenize` finds. -/
theorem exists_isLexical_iff :
    (∃ d ∈ textErrors source, d.isLexical = true) ↔ Lexer.errors (Lexer.items source) ≠ [] := by
  rw [textErrors_eq]
  constructor
  · rintro ⟨d, hd, hlexical⟩ hnone
    rw [hnone, List.map_nil, List.nil_append] at hd
    obtain ⟨error, -, rfl⟩ := List.mem_map.mp hd
    cases hlexical
  · intro hsome
    obtain ⟨error, errors, herrors⟩ := List.exists_cons_of_ne_nil hsome
    exact ⟨error.diagnostic, by simp [herrors], rfl⟩

theorem mem_errors_iff {items : List Lexer.Item} {error : LexError} :
    error ∈ Lexer.errors items ↔ Except.error error ∈ items := by
  unfold Lexer.errors
  rw [List.mem_filterMap]
  constructor
  · rintro ⟨item, hitem, heq⟩
    split at heq
    · cases heq
      exact hitem
    · cases heq
  · intro hmem
    exact ⟨_, hmem, rfl⟩

/-- The scanner has handed out an error. -/
theorem exists_error_iff :
    (∃ error, Except.error error ∈ Lexer.items source) ↔ Lexer.errors (Lexer.items source) ≠ [] := by
  simp only [← mem_errors_iff]
  exact ⟨fun ⟨_, herror⟩ => List.ne_nil_of_mem herror, List.exists_mem_of_ne_nil _⟩

theorem tokenize_exitCode_iff (json : Bool) :
    (tokenize source json).exitCode = 65 ↔ ∃ d ∈ textErrors source, d.isLexical = true := by
  rw [exists_isLexical_iff]
  unfold tokenize
  dsimp only
  split
  · next hempty => simp [List.isEmpty_iff.mp hempty]
  · next hsome => simpa [Status.exitCode] using hsome

/-- `tokenize` reports the lexical errors and no others. -/
theorem allWritten_tokenize (json : Bool) :
    Diagnostic.AllWritten ((textErrors source).filter Diagnostic.isLexical)
      (tokenize source json).errors := by
  have hlexical : ∀ d ∈ (Lexer.errors (Lexer.items source)).map LexError.diagnostic,
      d.isLexical = true := by
    intro d hd
    obtain ⟨error, -, rfl⟩ := List.mem_map.mp hd
    rfl
  have hsyntactic : ∀ d ∈ (Reading.ofSource source 0).program.errors.map SyntaxError.diagnostic,
      ¬ d.isLexical = true := by
    intro d hd
    obtain ⟨error, -, rfl⟩ := List.mem_map.mp hd
    exact nofun
  rw [textErrors_eq, List.filter_append, List.filter_eq_self.mpr hlexical,
    List.filter_eq_nil_iff.mpr hsyntactic, List.append_nil]
  exact Diagnostic.allWritten_renderAll _

/-- What `tokenize` reports comes first in what `parse` does. -/
theorem renderAll_textErrors (json : Bool) : ∃ more,
    Diagnostic.renderAll (textErrors source) = (tokenize source json).errors ++ more := by
  rw [textErrors_eq, Diagnostic.renderAll_append]
  exact ⟨_, rfl⟩

/-- Parsing a source meets no fault. -/
theorem parse_eq (source : String) : parse source =
    if textErrors source = [] then
      { exitCode := 0, output := lines ((statements source).map Stmt.prefixForm) }
    else
      { exitCode := 65, errors := Diagnostic.renderAll (textErrors source) } := by
  have hfault : (Reading.ofSource source 0).program.fault? = none :=
    Program.fault?_ofTokens (Lexer.endsInput_tokens source) 0
  unfold parse
  dsimp only
  simp only [hfault, List.isEmpty_iff]
  rfl

theorem errors_parse (source : String) :
    (parse source).errors = Diagnostic.renderAll (textErrors source) := by
  rw [parse_eq]
  split
  · next hnone =>
    rw [hnone]
    rfl
  · rfl

theorem diagnostics_read (fuel : Nat) (source : String) :
    ((initial fuel).read source).1.diagnostics = textErrors source := rfl

theorem run_eq (fuel : Nat) (source : String) : run fuel source =
    let shown := ((initial fuel).run source).1
    { exitCode := shown.status.exitCode
      output := shown.output
      errors := Diagnostic.renderAll shown.diagnostics } := rfl

/-- A text with errors is not run: these are shown and nothing else. -/
theorem run_of_textErrors (fuel : Nat) (h : textErrors source ≠ []) :
    ((initial fuel).run source).1 =
      { status := .staticError, diagnostics := textErrors source } := by
  have hstatic : (initial fuel).staticErrors source = textErrors source := by
    have hcases := staticErrors_cases (initial fuel) source
    dsimp only at hcases
    rw [diagnostics_read] at hcases
    exact hcases.elim And.right fun hnil => absurd hnil.1 h
  have hreject : (initial fuel).accept? source = none := by
    rw [accept?_eq, hstatic, if_neg h]
  rw [run_of_reject_fst hreject, hstatic]

/-- If the text has no errors, the static errors are errors of the references. -/
theorem isResolution_staticErrors {fuel : Nat} (h : textErrors source = []) :
    ∀ d ∈ (initial fuel).staticErrors source, d.isResolution = true := by
  have hcases := staticErrors_cases (initial fuel) source
  dsimp only at hcases
  rw [diagnostics_read] at hcases
  obtain ⟨hsome, -⟩ | ⟨-, hreferences⟩ := hcases
  · exact absurd h hsome
  · intro d hd
    rw [hreferences] at hd
    obtain ⟨error, -, rfl⟩ := List.mem_map.mp hd
    rfl

/-- How a run of a text without errors can end, and what is reported and written as errors then. -/
inductive RunEnds (result : Result) (reports : List Diagnostic) : Prop
  | success : result.exitCode = 0 → reports = [] → result.errors = "" → RunEnds result reports
  | rejected : result.exitCode = 65 → result.output = "" → reports ≠ [] →
      (∀ d ∈ reports, d.isResolution = true) → Diagnostic.AllWritten reports result.errors →
        RunEnds result reports
  | failed (line : Nat) (message : String) : result.exitCode = 70 →
      reports = [.runtime line message] →
        result.errors = message ++ "\n[line " ++ toString line ++ "]\n" → RunEnds result reports

theorem renderAll_runtime (line : Nat) (message : String) :
    Diagnostic.renderAll [.runtime line message] =
      message ++ "\n[line " ++ toString line ++ "]\n" := by
  simp [Diagnostic.renderAll, Diagnostic.render, String.append_assoc]

theorem runEnds_run {fuel : Nat} (htext : textErrors source = [])
    (hends : Ends (initial fuel) source) : RunEnds (run fuel source) (runErrors fuel source) := by
  have hreported : Reported (initial fuel) source ((initial fuel).run source).1 :=
    (linked_initial (Evaluation.Observed.invariant False) fuel).reported hends
  rw [run_eq, runErrors]
  generalize ((initial fuel).run source).1 = shown at hreported
  cases hreported with
  | executed output => exact .success rfl rfl rfl
  | failed line message output => exact .failed line message rfl rfl (renderAll_runtime ..)
  | rejected errors _ =>
    exact .rejected rfl rfl errors (isResolution_staticErrors htext)
      (Diagnostic.allWritten_renderAll _)

/-- No execution reports a lexical error. -/
theorem isLexical_outcome {result : Except Evaluation.Halt Unit} {output : String} :
    ∀ d ∈ (outcome result output).diagnostics, d.isLexical = false := by
  intro d hd
  unfold outcome at hd
  split at hd
  · cases hd
  · rw [List.mem_singleton.mp hd]
    rfl
  · cases hd
  · cases hd

/-- A run reports a lexical error exactly if the text has one. -/
theorem exists_isLexical_runErrors_iff (fuel : Nat) (source : String) :
    (∃ d ∈ runErrors fuel source, d.isLexical = true) ↔
      ∃ d ∈ textErrors source, d.isLexical = true := by
  by_cases htext : textErrors source = []
  · have hnone : ∀ d ∈ runErrors fuel source, d.isLexical = false := by
      unfold runErrors
      cases haccept : (initial fuel).accept? source with
      | some program =>
        rw [run_of_accept? haccept, perform_eq]
        exact isLexical_outcome
      | none =>
        rw [run_of_reject_fst haccept]
        exact fun d hd =>
          Diagnostic.isLexical_of_isResolution (isResolution_staticErrors htext d hd)
    rw [htext]
    constructor
    · rintro ⟨d, hd, hlexical⟩
      exact absurd hlexical (by simp [hnone d hd])
    · rintro ⟨d, hd, -⟩
      cases hd
  · rw [runErrors, run_of_textErrors fuel htext]

/-- The commands agree about every file that is a text. On the error stream stand the reports of each
command and nothing else: those of `tokenize` are the lexical ones of `parse`, and what `tokenize`
writes there is the start of what `parse` does. `tokenize` fails if the scanner hands out an error,
and then `parse` and `run` report lexical errors. If `parse` fails, it prints no trees, and `run` fails alike and prints
nothing. If it does not, there is no error in the text, it prints each statement at the top level on
a line of its own, and a run that ends has nothing to report, or reports errors of references alone
and prints nothing, or reports one runtime error. -/
theorem commands_agree (fuel : Nat) {read : String → Except FileFailure String}
    {file source : String} (hread : read file = .ok source) (input : ByteArray) (json : Bool) :
    let tokenized := perform fuel read input (.tokenize file json)
    let parsed := perform fuel read input (.parse file)
    let ran := perform fuel read input (.run (some file))
    Diagnostic.AllWritten ((textErrors source).filter Diagnostic.isLexical) tokenized.errors ∧
      Diagnostic.AllWritten (textErrors source) parsed.errors ∧
      Diagnostic.AllWritten (runErrors fuel source) ran.errors ∧
      (tokenized.exitCode = 65 ↔ ∃ error, Except.error error ∈ Lexer.items source) ∧
      (tokenized.exitCode = 65 ↔ ∃ d ∈ textErrors source, d.isLexical = true) ∧
      (tokenized.exitCode = 65 ↔ ∃ d ∈ runErrors fuel source, d.isLexical = true) ∧
      (∃ more, parsed.errors = tokenized.errors ++ more) ∧
      (parsed.exitCode = 0 ∨ parsed.exitCode = 65) ∧
      (parsed.exitCode = 65 →
        parsed.output = "" ∧ ran.exitCode = 65 ∧ ran.errors = parsed.errors ∧ ran.output = "") ∧
      (parsed.exitCode = 0 →
        textErrors source = [] ∧ OnLines ((statements source).map Stmt.prefixForm) parsed.output ∧
          (Ends (initial fuel) source → RunEnds ran (runErrors fuel source))) := by
  have htokenize : perform fuel read input (.tokenize file json) = tokenize source json := by
    simp only [perform, perform.onFile, hread]
  have hparse : perform fuel read input (.parse file) = parse source := by
    simp only [perform, perform.onFile, hread]
  have hrun : perform fuel read input (.run (some file)) = run fuel source := by
    simp only [perform, perform.onFile, hread]
  have htokenized := @tokenize_exitCode_iff source json
  dsimp only
  rw [htokenize, hparse, hrun]
  refine ⟨allWritten_tokenize json, ?_, Diagnostic.allWritten_renderAll _,
    htokenized.trans (exists_isLexical_iff.trans exists_error_iff.symm), htokenized,
    htokenized.trans (exists_isLexical_runErrors_iff fuel source).symm, ?_, ?_⟩
  · rw [errors_parse]
    exact Diagnostic.allWritten_renderAll _
  · rw [errors_parse]
    exact renderAll_textErrors json
  by_cases htext : textErrors source = []
  · have hparsed : parse source =
        { exitCode := 0, output := lines ((statements source).map Stmt.prefixForm) } := by
      rw [parse_eq, if_pos htext]
    rw [hparsed]
    exact ⟨.inl rfl, nofun, fun _ => ⟨htext, onLines_lines _, runEnds_run htext⟩⟩
  · have hparsed : parse source =
        { exitCode := 65, errors := Diagnostic.renderAll (textErrors source) } := by
      rw [parse_eq, if_neg htext]
    have hran : run fuel source =
        { exitCode := 65, errors := Diagnostic.renderAll (textErrors source) } := by
      rw [run_eq, run_of_textErrors fuel htext]
      rfl
    rw [hparsed, hran]
    exact ⟨.inr rfl, fun _ => ⟨rfl, rfl, rfl, rfl⟩, nofun⟩

/-- Three files: one with a character that is in no token, one whose references have an error, and
one that prints before it fails. -/
def failingFiles : String → Except FileFailure String
  | "cut.lox" => .ok "print 1 # 2"
  | "rejected.lox" => .ok "print nil; return;"
  | "failing.lox" => .ok "print nil; print a;"
  | _ => .error .missing

/-- The first one has a syntax error besides, and none of its trees is printed. The trees of the
others are, but only the last one is run. -/
theorem commands_agree_failing :
    let tokenized := perform 9 failingFiles .empty (.tokenize "cut.lox" true)
    let parsed file := perform 9 failingFiles .empty (.parse file)
    let ran file := perform 9 failingFiles .empty (.run (some file))
    (tokenized.exitCode = 65 ∧ (parsed "cut.lox").exitCode = 65 ∧
        tokenized.errors = "[line 1] Error: Unexpected character.\n" ∧
        (parsed "cut.lox").errors =
          tokenized.errors ++ "[line 1] Error at '2': Expect ';' after value.\n" ∧
        (ran "cut.lox").errors = (parsed "cut.lox").errors) ∧
      ((parsed "rejected.lox").exitCode = 0 ∧ Ends (initial 9) "print nil; return;" ∧
        (ran "rejected.lox").output = "" ∧ (ran "rejected.lox").errors =
          "[line 1] Error at 'return': Can't return from top-level code.\n" ∧
        RunEnds (ran "rejected.lox") (runErrors 9 "print nil; return;")) ∧
      (parsed "failing.lox").exitCode = 0 ∧ Ends (initial 9) "print nil; print a;" ∧
        (parsed "failing.lox").output = "(print nil)\n(print a)\n" ∧
        (ran "failing.lox").output = "nil\n" ∧
        (ran "failing.lox").errors = "Undefined variable 'a'.\n[line 1]\n" ∧
        RunEnds (ran "failing.lox") (runErrors 9 "print nil; print a;") := by
  intro tokenized parsed ran
  have hcut : (parsed "cut.lox").exitCode = 65 := by decide +kernel
  have hrejected : (parsed "rejected.lox").exitCode = 0 := by decide +kernel
  have hrejectedEnds : Ends (initial 9) "print nil; return;" := ends_of_status (by decide +kernel)
  have hfailing : (parsed "failing.lox").exitCode = 0 := by decide +kernel
  have hfailingEnds : Ends (initial 9) "print nil; print a;" := ends_of_status (by decide +kernel)
  have hfirst := commands_agree 9 (rfl : failingFiles "cut.lox" = _) .empty true
  have hsecond := commands_agree 9 (rfl : failingFiles "rejected.lox" = _) .empty true
  have hthird := commands_agree 9 (rfl : failingFiles "failing.lox" = _) .empty true
  refine ⟨⟨by decide +kernel, hcut, by decide +kernel, by decide +kernel, ?_⟩,
    ⟨hrejected, hrejectedEnds, by decide +kernel, by decide +kernel, ?_⟩, hfailing, hfailingEnds,
    by decide +kernel, by decide +kernel, by decide +kernel, ?_⟩
  · obtain ⟨-, -, -, -, -, -, -, -, hbroken, -⟩ := hfirst
    exact (hbroken hcut).2.2.1
  · obtain ⟨-, -, -, -, -, -, -, -, -, hclean⟩ := hsecond
    exact (hclean hrejected).2.2 hrejectedEnds
  · obtain ⟨-, -, -, -, -, -, -, -, -, hclean⟩ := hthird
    exact (hclean hfailing).2.2 hfailingEnds

end CommandLine
end Lox
