import Lox.Proofs.Session.Joined

/-!
# Sessions and sources that differ in lines alone

Lines do nothing in a session but tell where errors are. So two sessions that keep the same up to
lines, and up to the numbers of references and the distances that belong to them, run two sources
alike that have the same tokens up to lines: they print the same, end alike and report the same up
to lines, and they keep the same up to lines afterwards. Which lines are told apart is left open.
With `id` all of them are, and then the sessions differ in numbers alone.
-/
namespace Lox
open Evaluation Resolution

/-- The sources have the same tokens and the same lexical errors, up to lines that `line` maps to
the same. -/
structure SameText (line : Nat → Nat) (source source' : String) : Prop where
  tokens : (Lexer.tokens (Lexer.items source)).map (Token.onLine line) =
    (Lexer.tokens (Lexer.items source')).map (Token.onLine line)
  errors : (Lexer.errors (Lexer.items source)).map (·.diagnostic.onLine line) =
    (Lexer.errors (Lexer.items source')).map (·.diagnostic.onLine line)

theorem SameText.refl (line : Nat → Nat) (source : String) : SameText line source source :=
  ⟨rfl, rfl⟩

theorem SameText.all_refl (line : Nat → Nat) (sources : List String) :
    List.Forall₂ (SameText line) sources sources :=
  List.forall₂_same.mpr fun source _ => .refl line source

variable {line : Nat → Nat} {source source' : String}

/-- The same text is read alike, whatever numbers the references get. -/
theorem Reading.ofSource_sameText (h : SameText line source source') (n n' : NodeId) :
    (ofSource source n).diagnostics.map (Diagnostic.onLine line) =
        (ofSource source' n').diagnostics.map (Diagnostic.onLine line) ∧
      Stmt.listOnLines line (ofSource source n).program.statements =
        Stmt.listOnLines line (ofSource source' n').program.statements := by
  obtain ⟨hstatements, herrors, -⟩ :=
    @Program.ofTokens_onLine line (Lexer.tokens (Lexer.items source)) n 0
  obtain ⟨hstatements', herrors', -⟩ :=
    @Program.ofTokens_onLine line (Lexer.tokens (Lexer.items source')) n' 0
  rw [h.tokens] at hstatements herrors
  have hsyntax := congrArg (List.map SyntaxError.diagnostic) (herrors.symm.trans herrors')
  rw [List.map_map, List.map_map] at hsyntax
  refine ⟨?_, hstatements.symm.trans hstatements'⟩
  unfold diagnostics
  rw [List.map_append, List.map_append, List.map_map, List.map_map, List.map_map, List.map_map]
  exact congrArg₂ (· ++ ·) h.errors hsyntax

/-- Programs that are the same up to lines have the same errors up to lines. -/
theorem Resolution.errors_sameOnLines {known : String → Bool} {table table' : Distances}
    {program program' : List Stmt}
    (h : Stmt.listOnLines line program = Stmt.listOnLines line program') :
    (ofProgram known table program).errors.map (ResolutionError.onLine line) =
      (ofProgram known table' program').errors.map (ResolutionError.onLine line) := by
  have hmoved (program : List Stmt) (other : Distances) :
      (ofProgram known table (Stmt.listOnLines line program)).errors =
        (ofProgram known other program).errors.map (ResolutionError.onLine line) :=
    errors_onLines (Stmt.listOnLines_onLines program)
  rw [← hmoved program table, ← hmoved program' table', h]

namespace Session
open Lexical

variable {a b : Session} {l l' : Lexical}

/-- The static errors of a source: those of its text, or else those of its references. -/
def staticErrors (session : Session) (source : String) : List Diagnostic :=
  let (reading, next) := session.read source
  if reading.diagnostics.isEmpty then
    (next.resolve reading.program.statements).1.map ResolutionError.diagnostic
  else
    reading.diagnostics

theorem staticErrors_eq_nil {session : Session} : session.staticErrors source = [] ↔
    (session.read source).1.diagnostics.isEmpty ∧
      ((session.read source).2.resolve (session.read source).1.program.statements).1.isEmpty := by
  unfold staticErrors
  dsimp only
  split
  · next hempty => simp [hempty]
  · next hempty => simp_all

/-- A source is accepted if it has no static errors. -/
theorem accept?_eq (session : Session) (source : String) : session.accept? source =
    if session.staticErrors source = [] then some (session.read source).1.program.statements
    else none := by
  simp only [accept?, staticErrors_eq_nil]

/-- The run of a source that is not accepted shows its static errors and nothing else. -/
theorem run_of_reject_fst {session : Session} (h : session.accept? source = none) :
    (session.run source).1 =
      { status := .staticError, diagnostics := session.staticErrors source } := by
  have hnot : ¬ session.staticErrors source = [] := by
    rw [accept?_eq] at h
    exact fun hnil => by simp [hnil] at h
  rw [staticErrors_eq_nil] at hnot
  unfold run staticErrors
  have hfault := session.fault?_read source
  dsimp only
  rw [hfault]
  dsimp only
  split
  · next hreading => simp_all
  · next hreading =>
    split
    · simp_all
    · next herrors => simp_all

theorem accept?_of_static {session : Session}
    (h : (session.run source).1.status = .staticError) : session.accept? source = none := by
  cases haccept : session.accept? source with
  | none => rfl
  | some program =>
    rw [run_of_accept? haccept] at h
    dsimp only [outcome] at h
    split at h <;> cases h

theorem fuel_run_of_reject {session : Session} (h : session.accept? source = none) :
    (session.run source).2.fuel = session.fuel := by
  obtain ⟨-, -, hafter | hafter⟩ := run_of_reject h
  · rw [hafter]
    rfl
  · rw [hafter]
    rfl

/-- Two sessions keep the same, up to lines that `line` maps to the same, and up to numbers and the
distances that belong to them. -/
structure AlikeOn (line : Nat → Nat) (a b : Session) (l l' : Lexical) : Prop where
  fuel : a.fuel = b.fuel
  left : Linked Lexical.invariant a l
  right : Linked Lexical.invariant b l'
  same : l.onLines line "" = l'.onLines line ""

theorem AlikeOn.knows (h : AlikeOn line a b l l') : a.knows = b.knows := by
  have hglobals : (l.onLines line "").globals = (l'.onLines line "").globals := by rw [h.same]
  rw [h.left.knows, h.right.knows]
  exact congrArg Bindings.contains hglobals

/-- The same text has the same static errors in both. -/
theorem AlikeOn.staticErrors (h : AlikeOn line a b l l') (htext : SameText line source source') :
    (a.staticErrors source).map (Diagnostic.onLine line) =
      (b.staticErrors source').map (Diagnostic.onLine line) := by
  obtain ⟨hdiagnostics, hstatements⟩ := Reading.ofSource_sameText htext a.next b.next
  have hempty : (a.read source).1.diagnostics.isEmpty =
      (b.read source').1.diagnostics.isEmpty := by
    have hmapped := congrArg List.isEmpty hdiagnostics
    rwa [List.isEmpty_map, List.isEmpty_map] at hmapped
  unfold Session.staticErrors
  dsimp only
  rw [hempty, resolve_read, resolve_read, h.knows]
  split
  · have herrors := congrArg (List.map ResolutionError.diagnostic)
      (@errors_sameOnLines line b.knows a.machine.distances b.machine.distances _ _ hstatements)
    rw [List.map_map, List.map_map] at herrors ⊢
    exact herrors
  · exact hdiagnostics

theorem AlikeOn.accept? (h : AlikeOn line a b l l') (htext : SameText line source source') :
    a.accept? source = none ∧ b.accept? source' = none ∨
      ∃ program program', a.accept? source = some program ∧ b.accept? source' = some program' ∧
        Stmt.listOnLines line program = Stmt.listOnLines line program' := by
  have hnil : a.staticErrors source = [] ↔ b.staticErrors source' = [] := by
    rw [← List.map_eq_nil_iff, h.staticErrors htext, List.map_eq_nil_iff]
  rw [accept?_eq, accept?_eq]
  by_cases hclean : b.staticErrors source' = []
  · rw [if_pos (hnil.mpr hclean), if_pos hclean]
    exact .inr ⟨_, _, rfl, rfl, (Reading.ofSource_sameText htext a.next b.next).2⟩
  · rw [if_neg (hclean ∘ hnil.mp), if_neg hclean]
    exact .inl ⟨rfl, rfl⟩

theorem stateOf_resultOnLines (r : EStateM.Result Halt Lexical Unit) :
    stateOf (resultOnLines line "" r) = (stateOf r).onLines line "" := by
  cases r <;> rfl

/-- The same program does the same in both, up to lines and numbers. -/
theorem interpret_alike (fuel : Nat) {program program' : List Stmt}
    (hprogram : Stmt.listOnLines line program = Stmt.listOnLines line program')
    (hsame : l.onLines line "" = l'.onLines line "") :
    resultOnLines line "" (Lexical.operations.interpret fuel program l.fresh) =
      resultOnLines line "" (Lexical.operations.interpret fuel program' l'.fresh) := by
  have hfresh : l.fresh.onLines line "" = l'.fresh.onLines line "" := congrArg Lexical.fresh hsame
  rw [← mirrors_interpret fuel program l.fresh, ← mirrors_interpret fuel program' l'.fresh,
    hprogram, hfresh]

/-- The same text is run alike in both, and both keep the same afterwards. -/
theorem AlikeOn.run (h : AlikeOn line a b l l') (htext : SameText line source source') :
    (a.run source).1.onLines line = (b.run source').1.onLines line ∧
      ∃ l l', AlikeOn line (a.run source).2 (b.run source').2 l l' := by
  obtain ⟨hreject, hreject'⟩ | ⟨program, program', haccept, haccept', hprogram⟩ := h.accept? htext
  · refine ⟨?_, l, l', ?_, ?_, ?_, h.same⟩
    · rw [run_of_reject_fst hreject, run_of_reject_fst hreject']
      simp only [Outcome.onLines, h.staticErrors htext]
    · rw [fuel_run_of_reject hreject, fuel_run_of_reject hreject', h.fuel]
    · exact h.left.rejected hreject
    · exact h.right.rejected hreject'
  · obtain ⟨hshown, hlinked, hfuel, -⟩ := h.left.runs haccept
    obtain ⟨hshown', hlinked', hfuel', -⟩ := h.right.runs haccept'
    rw [h.fuel] at hshown hlinked
    have hmirror := interpret_alike b.fuel hprogram h.same
    refine ⟨?_, _, _, ?_, hlinked, hlinked', ?_⟩
    · have hboth := congrArg shown hmirror
      rw [shown_resultOnLines, shown_resultOnLines] at hboth
      simpa only [hshown, hshown', Outcome.after_empty] using hboth
    · rw [hfuel, hfuel', h.fuel]
    · have hboth := congrArg stateOf hmirror
      rwa [stateOf_resultOnLines, stateOf_resultOnLines] at hboth

/-- Sources that are pairwise the same text are run alike one after another. -/
theorem AlikeOn.runAll (h : AlikeOn line a b l l') {sources sources' : List String}
    (htexts : List.Forall₂ (SameText line) sources sources') :
    (a.runAll sources).1.map (Outcome.onLines line) =
      (b.runAll sources').1.map (Outcome.onLines line) := by
  induction htexts generalizing a b l l' with
  | nil => rfl
  | cons htext _ ih =>
    obtain ⟨hshown, m, m', hafter⟩ := h.run htext
    exact congrArg₂ List.cons hshown (ih hafter)

end Session
end Lox
