import Lox.Proofs.Resolution.Pass
import Lox.Proofs.Syntax.Lines

/-!
# Static errors on other lines

Whether an occurrence is forbidden depends neither on its line nor on a number. So a program has
static errors exactly if it has some on other lines; and two programs in sequence have none exactly
if the first one has none, and the second one has none where the names of the first are declared.
-/
namespace Lox
open Resolution
variable {line : Nat → Nat}

def Reference.onLine (line : Nat → Nat) (r : Reference) : Reference :=
  ⟨r.kind, 0, r.name.onLine line⟩

def ResolutionError.onLine (line : Nat → Nat) (error : ResolutionError) : ResolutionError :=
  { error with name := error.name.onLine line }

namespace Resolution

def Item.onLine (line : Nat → Nat) : Item → Item
  | .reference r => .reference (r.onLine line)
  | .declaration name => .declaration (name.onLine line)
  | .exit n hasValue => .exit (line n) hasValue

def Occurrence.onLine (line : Nat → Nat) (o : Occurrence) : Occurrence :=
  ⟨o.site, o.item.onLine line⟩

theorem Occurrence.violation?_onLine (o : Occurrence) :
    (o.onLine line).violation? = o.violation?.map (ResolutionError.onLine line) := by
  obtain ⟨site, item⟩ := o
  unfold violation?
  cases item with
  | reference r =>
    obtain ⟨kind, id, name⟩ := r
    dsimp only [onLine, Item.onLine, Reference.onLine, Site.referenceError?, Name.onLine]
    match kind with
    | .variable =>
      dsimp only
      split
      · split <;> rfl
      · split <;> rfl
      · rfl
    | .assign => rfl
    | .this =>
      dsimp only
      split <;> rfl
    | .super =>
      dsimp only
      split <;> rfl
  | declaration name =>
    dsimp only [onLine, Item.onLine, Name.onLine]
    split
    · rfl
    · split <;> rfl
  | exit n hasValue =>
    dsimp only [onLine, Item.onLine]
    split <;> rfl

theorem Occurrence.clean_onLine {o : Occurrence} : (o.onLine line).Clean ↔ o.Clean := by
  rw [Clean, Clean, violation?_onLine, Option.map_eq_none_iff]

theorem Context.declareAll_onLine (ctx : Context) (names : List Name) :
    ctx.declareAll (names.map (Name.onLine line)) = ctx.declareAll names :=
  List.foldl_map

theorem kindOfMethod_onLines (f : FunctionDecl) :
    kindOfMethod (Stmt.functionOnLines line f) = kindOfMethod f := by
  obtain ⟨name, parameters, body⟩ := f
  rfl

theorem kindOf_map {α β : Type} (superclass : Option α) (k : α → β) :
    kindOf (superclass.map k) = kindOf superclass := by
  unfold kindOf
  rw [Option.isSome_map]

end Resolution

mutual

theorem Expr.visited_onLines : (e : Expr) →
    (e.onLines line).visited = e.visited.map (Reference.onLine line)
  | .literal _ | .variable _ _ | .this _ _ | .super _ _ _ => rfl
  | .grouping inner => inner.visited_onLines
  | .unary _ _ operand => operand.visited_onLines
  | .binary _ _ left right | .logical _ left right => by
    rw [onLines, visited, visited, left.visited_onLines, right.visited_onLines, List.map_append]
  | .assign id name value => by
    rw [onLines, visited, visited, value.visited_onLines, List.map_append]
    rfl
  | .call callee _ arguments => by
    rw [onLines, visited, visited, callee.visited_onLines, listVisited_onLines arguments,
      List.map_append]
  | .get object _ => object.visited_onLines
  | .set object _ value => by
    rw [onLines, visited, visited, value.visited_onLines, object.visited_onLines, List.map_append]

theorem Expr.listVisited_onLines : (es : List Expr) →
    visited.listVisited (onLines.listOnLines line es) =
      (visited.listVisited es).map (Reference.onLine line)
  | [] => rfl
  | e :: es => by
    rw [onLines.listOnLines, visited.listVisited, visited.listVisited, e.visited_onLines,
      listVisited_onLines es, List.map_append]

end

theorem Expr.occurrences_onLines (site : Site) (e : Expr) :
    (e.onLines line).occurrences site = (e.occurrences site).map (Occurrence.onLine line) := by
  unfold occurrences
  rw [e.visited_onLines, List.map_map, List.map_map]
  rfl

theorem Expr.occurrences?_onLines (site : Site) (e : Option Expr) :
    occurrences? site (e.map (onLines line)) =
      (occurrences? site e).map (Occurrence.onLine line) := by
  cases e with
  | none => rfl
  | some e => exact e.occurrences_onLines site

theorem Superclass.occurrences?_onLines (site : Site) (superclass : Option Superclass) :
    occurrences? site (superclass.map (onLines line)) =
      (occurrences? site superclass).map (Occurrence.onLine line) := by
  cases superclass with
  | none => rfl
  | some superclass => rfl

namespace Stmt

theorem declaredNames_onLines : (s : Stmt) →
    (s.onLines line).declaredNames = s.declaredNames.map (Name.onLine line)
  | .expression _ | .print _ | .block _ | .returnWith _ _ | .varDecl _ _ | .classDecl _ _ _ => rfl
  | .funDecl f => by
    rw [onLines, declaredNames, declaredNames, functionOnLines_name]
    rfl
  | .ifElse _ thenBranch none => declaredNames_onLines thenBranch
  | .ifElse _ thenBranch (some elseBranch) => by
    rw [onLines, declaredNames, declaredNames, declaredNames_onLines thenBranch,
      declaredNames_onLines elseBranch, List.map_append]
  | .whileLoop _ body => declaredNames_onLines body

theorem declaredByAll_onLines (body : List Stmt) :
    declaredByAll (listOnLines line body) = (declaredByAll body).map (Name.onLine line) := by
  induction body with
  | nil => rfl
  | cons s ss ih =>
    rw [listOnLines, declaredByAll, List.flatMap_cons, declaredNames_onLines, declaredByAll,
      List.flatMap_cons, List.map_append]
    exact congrArg _ ih

theorem declareAll_onLines (ctx : Context) (s : Stmt) :
    ctx.declareAll (s.onLines line).declaredNames = ctx.declareAll s.declaredNames := by
  rw [declaredNames_onLines, Context.declareAll_onLine]

theorem parameterOccurrences_onLine (ctx : Context) (names : List Name) :
    parameterOccurrences ctx (names.map (Name.onLine line)) =
      (parameterOccurrences ctx names).map (Occurrence.onLine line) := by
  induction names generalizing ctx with
  | nil => rfl
  | cons name names ih => exact congrArg (List.cons _) (ih _)

mutual

theorem occurrences_onLines (ctx : Context) : (s : Stmt) →
    (s.onLines line).occurrences ctx = (s.occurrences ctx).map (Occurrence.onLine line)
  | .expression value | .print value => value.occurrences_onLines ctx
  | .varDecl name initializer =>
    congrArg (List.cons _) (Expr.occurrences?_onLines (ctx.initializer name.text) initializer)
  | .block body => listOccurrences_onLines (ctx.enter []) body
  | .ifElse condition thenBranch none => by
    rw [onLines, occurrences, occurrences, condition.occurrences_onLines,
      occurrences_onLines ctx thenBranch, List.map_append]
  | .ifElse condition thenBranch (some elseBranch) => by
    rw [onLines, occurrences, occurrences, condition.occurrences_onLines,
      occurrences_onLines ctx thenBranch, declareAll_onLines, occurrences_onLines _ elseBranch,
      List.map_append, List.map_append]
  | .whileLoop condition body => by
    rw [onLines, occurrences, occurrences, condition.occurrences_onLines,
      occurrences_onLines ctx body, List.map_append]
  | .funDecl f => by
    rw [onLines, occurrences, occurrences, functionOnLines_name]
    exact congrArg (List.cons _) (functionOccurrences_onLines _ f)
  | .returnWith n value => by
    rw [onLines, occurrences, occurrences, Expr.occurrences?_onLines, Option.isSome_map]
    rfl
  | .classDecl name superclass methods => by
    rw [onLines, occurrences, occurrences, Superclass.occurrences?_onLines, kindOf_map,
      methodOccurrences_onLines _ methods, List.map_cons, List.map_append]
    rfl

/-- What occurs in a program on other lines occurs at the same sites. -/
theorem listOccurrences_onLines (ctx : Context) : (body : List Stmt) →
    listOccurrences ctx (listOnLines line body) =
      (listOccurrences ctx body).map (Occurrence.onLine line)
  | [] => rfl
  | s :: ss => by
    rw [listOnLines, listOccurrences, listOccurrences, occurrences_onLines ctx s,
      declareAll_onLines, listOccurrences_onLines _ ss, List.map_append]

theorem functionOccurrences_onLines (ctx : Context) : (f : FunctionOf Stmt) →
    functionOccurrences ctx (functionOnLines line f) =
      (functionOccurrences ctx f).map (Occurrence.onLine line)
  | ⟨name, parameters, body⟩ => by
    have hctx : ctx.function (parameters.map (Name.onLine line)) = ctx.function parameters :=
      Context.declareAll_onLine _ _
    rw [functionOnLines, functionOccurrences, functionOccurrences, parameterOccurrences_onLine,
      hctx, listOccurrences_onLines _ body, List.map_append]

theorem methodOccurrences_onLines (ctx : Context) : (methods : List (FunctionOf Stmt)) →
    methodOccurrences ctx (methodsOnLines line methods) =
      (methodOccurrences ctx methods).map (Occurrence.onLine line)
  | [] => rfl
  | f :: fs => by
    rw [methodsOnLines, methodOccurrences, methodOccurrences, kindOfMethod_onLines,
      functionOccurrences_onLines _ f, methodOccurrences_onLines ctx fs, List.map_append]

end

theorem listOccurrences_append (ctx : Context) (a b : List Stmt) :
    listOccurrences ctx (a ++ b) =
      listOccurrences ctx a ++ listOccurrences (ctx.declareAll (declaredByAll a)) b := by
  induction a generalizing ctx with
  | nil => rfl
  | cons s ss ih =>
    have hnames : declaredByAll (s :: ss) = s.declaredNames ++ declaredByAll ss :=
      List.flatMap_cons
    rw [List.cons_append, listOccurrences, listOccurrences, ih, hnames, Context.declareAll_append,
      List.append_assoc]

end Stmt

namespace Resolution
variable {known : String → Bool} {table table' table'' : Distances}
  {a b program program' : List Stmt}

/-- A program has no errors exactly if all that occurs in it is clean. -/
theorem errors_eq_nil_iff : (ofProgram known table program).errors = [] ↔
    ∀ o ∈ Stmt.listOccurrences { globals := known } program, o.Clean := by
  rw [errors_ofProgram]
  exact List.filterMap_eq_nil_iff

/-- What occurs in a program is clean exactly if it is on other lines. -/
theorem clean_onLines (line : Nat → Nat) (ctx : Context) (body : List Stmt) :
    (∀ o ∈ Stmt.listOccurrences ctx (Stmt.listOnLines line body), o.Clean) ↔
      ∀ o ∈ Stmt.listOccurrences ctx body, o.Clean := by
  rw [Stmt.listOccurrences_onLines, List.forall_mem_map]
  exact forall₂_congr fun o _ => Occurrence.clean_onLine

/-- The errors of a program are those that it has on other lines, each on the other line. -/
theorem errors_onLines (h : Stmt.listOnLines id program = Stmt.listOnLines line program') :
    (ofProgram known table program).errors =
      (ofProgram known table' program').errors.map (ResolutionError.onLine line) := by
  have hviolations (line : Nat → Nat) (body : List Stmt) :
      (Stmt.listOccurrences { globals := known } (Stmt.listOnLines line body)).filterMap
          Occurrence.violation? =
        ((Stmt.listOccurrences { globals := known } body).filterMap
          Occurrence.violation?).map (ResolutionError.onLine line) := by
    rw [Stmt.listOccurrences_onLines, List.filterMap_map, List.map_filterMap]
    exact congrArg (List.filterMap · _) (funext Occurrence.violation?_onLine)
  have hid : (ofProgram known table program).errors.map (ResolutionError.onLine id) =
      (ofProgram known table program).errors := List.map_id _
  rw [← hid, errors_ofProgram, errors_ofProgram, ← hviolations, ← hviolations, h]

/-- Whether a program has errors does not depend on its lines, nor on its numbers. -/
theorem errors_eq_nil_of_onLines
    (h : Stmt.listOnLines id program = Stmt.listOnLines line program') :
    (ofProgram known table program).errors = [] ↔
      (ofProgram known table' program').errors = [] := by
  have herrors : (ofProgram known table program).errors =
      (ofProgram known table' program').errors.map (ResolutionError.onLine line) := errors_onLines h
  rw [herrors, List.map_eq_nil_iff]

/-- The global names after declarations outside of all local scopes. -/
theorem declareAll_global (known : String → Bool) (names : List Name) :
    ({ globals := known } : Context).declareAll names =
      { globals := fun other => names.any (·.text == other) || known other } := by
  induction names generalizing known with
  | nil => rfl
  | cons name names ih =>
    refine (ih _).trans ?_
    congr 1
    funext other
    rw [List.any_cons, Bool.beq_comm, ← Bool.or_assoc, Bool.or_comm (List.any _ _)]

/-- Two programs in sequence have no errors exactly if the first one has none, and the second one
has none where the global names are those from before and those of the first. -/
theorem errors_sequence_eq_nil_iff {both : List Stmt}
    (h : Stmt.listOnLines id both = Stmt.listOnLines id a ++ Stmt.listOnLines line b) :
    (ofProgram known table both).errors = [] ↔
      (ofProgram known table' a).errors = [] ∧
        (ofProgram (fun other => (Stmt.declaredByAll a).any (·.text == other) || known other)
          table'' b).errors = [] := by
  have hnames (other : String) : (Stmt.declaredByAll (Stmt.listOnLines id a)).any
      (·.text == other) = (Stmt.declaredByAll a).any (·.text == other) := by
    rw [Stmt.declaredByAll_onLines, List.any_map]
    rfl
  rw [errors_eq_nil_iff, errors_eq_nil_iff, errors_eq_nil_iff, ← clean_onLines id, h,
    Stmt.listOccurrences_append, List.forall_mem_append, clean_onLines, clean_onLines,
    declareAll_global]
  simp only [hnames]

end Resolution
end Lox
