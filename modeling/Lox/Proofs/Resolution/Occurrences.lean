import Lox.Proofs.Syntax.WellFormed
import Lox.Resolution.State

/-!
# What occurs in a program, with what surrounds it

A context holds what is known at a place of a program from the text alone: the names that are
declared so far in each scope around, and the kinds of the function and the class around. Inside of
a declaration a site adds which name is not ready yet. The occurrences of a tree are its
references, declarations and `return` statements, each with the site it stands at, in the order in
which the static pass meets them. What a reference means and what is forbidden follows from the
site and from nothing else.
-/
namespace Lox
namespace Resolution

/-- What is known at a place of a program. -/
structure Context where
  /-- The names of the local scopes around, the innermost scope first. -/
  scopes : List (List String) := []
  /-- Whether a name is that of a global variable. -/
  globals : String → Bool := fun _ => false
  /-- The kind of the innermost function around. -/
  functionKind : Option FunctionKind := none
  /-- The kind of the innermost class around. -/
  classKind : Option ClassKind := none

/-- A part of a declaration in which the declared name is not ready. -/
inductive Opening where
  /-- The initializer of a variable whose name is new in its scope. -/
  | initializer (name : String)
  /-- The superclass clause of a class. -/
  | superclass (name : String)
  deriving DecidableEq, Repr

/-- A place of a program, which may be in a part of a declaration. -/
structure Site extends Context where
  opening : Option Opening := none

instance : Coe Context Site := ⟨fun ctx => ⟨ctx, none⟩⟩

namespace Context

/-- The number of scopes between a place and the innermost one that has the name. -/
def distance? (ctx : Context) (name : String) : Option Nat := ctx.scopes.findIdx? (·.contains name)

/-- Whether the scope that a declaration goes into has the name already. -/
def declares (ctx : Context) (name : String) : Bool :=
  match ctx.scopes with
  | [] => ctx.globals name
  | scope :: _ => scope.contains name

/-- After a declaration of the name. -/
def declare (ctx : Context) (name : String) : Context :=
  match ctx.scopes with
  | [] => { ctx with globals := fun other => other == name || ctx.globals other }
  | scope :: outer => { ctx with scopes := (name :: scope) :: outer }

/-- After declarations of the names in order. -/
def declareAll (ctx : Context) (names : List Name) : Context :=
  names.foldl (fun ctx name => ctx.declare name.text) ctx

/-- In the initializer of a variable, which is declared already. -/
def initializer (ctx : Context) (name : String) : Site where
  toContext := ctx.declare name
  opening := if ctx.declares name then none else some (.initializer name)

/-- In the superclass clause of a class, which is declared already. -/
def superclass (ctx : Context) (name : String) : Site where
  toContext := ctx.declare name
  opening := some (.superclass name)

/-- Inside a new scope. -/
def enter (ctx : Context) (names : List String) : Context :=
  { ctx with scopes := names :: ctx.scopes }

/-- In a function of the kind, outside of its scope. -/
def inFunction (ctx : Context) (kind : FunctionKind) : Context :=
  { ctx with functionKind := some kind }

/-- At the start of the body of a function, which has one scope with its parameters. -/
def function (ctx : Context) (parameters : List Name) : Context :=
  (ctx.enter []).declareAll parameters

/-- Around the methods of a class, which have a scope with `super` if there is a superclass. -/
def inherit (ctx : Context) : ClassKind → Context
  | .base => { ctx with classKind := some .base }
  | .derived => { ctx with scopes := ["super"] :: ctx.scopes, classKind := some .derived }

/-- Where the methods of a class stand: in a scope with `this`. -/
def method (ctx : Context) (kind : ClassKind) : Context := (ctx.inherit kind).enter ["this"]

@[simp] theorem declare_classKind (ctx : Context) (name : String) :
    (ctx.declare name).classKind = ctx.classKind := by
  unfold declare
  split <;> rfl

@[simp] theorem declare_functionKind (ctx : Context) (name : String) :
    (ctx.declare name).functionKind = ctx.functionKind := by
  unfold declare
  split <;> rfl

@[simp] theorem declare_tail (ctx : Context) (name : String) :
    (ctx.declare name).scopes.tail = ctx.scopes.tail := by
  unfold declare
  split <;> simp [*]

@[simp] theorem length_declare (ctx : Context) (name : String) :
    (ctx.declare name).scopes.length = ctx.scopes.length := by
  unfold declare
  split <;> simp [*]

/-- In a local scope declarations do not add global names. -/
theorem declare_globals {ctx : Context} (h : ctx.scopes ≠ []) (name : String) :
    (ctx.declare name).globals = ctx.globals := by
  unfold declare
  split
  · next hnil => exact absurd hnil h
  · rfl

/-- Outside of all local scopes a declaration adds none of them. -/
theorem declare_scopes_nil {ctx : Context} (h : ctx.scopes = []) (name : String) :
    (ctx.declare name).scopes = [] := by
  unfold declare
  rw [h]

theorem declare_scopes_ne_nil {ctx : Context} (h : ctx.scopes ≠ []) (name : String) :
    (ctx.declare name).scopes ≠ [] := by
  intro hnil
  have hlength := ctx.length_declare name
  rw [hnil] at hlength
  exact h (List.length_eq_zero_iff.mp hlength.symm)

@[simp] theorem declareAll_classKind (ctx : Context) (names : List Name) :
    (ctx.declareAll names).classKind = ctx.classKind := by
  unfold declareAll
  induction names generalizing ctx with
  | nil => rfl
  | cons name names ih => rw [List.foldl_cons, ih, declare_classKind]

@[simp] theorem declareAll_functionKind (ctx : Context) (names : List Name) :
    (ctx.declareAll names).functionKind = ctx.functionKind := by
  unfold declareAll
  induction names generalizing ctx with
  | nil => rfl
  | cons name names ih => rw [List.foldl_cons, ih, declare_functionKind]

@[simp] theorem declareAll_tail (ctx : Context) (names : List Name) :
    (ctx.declareAll names).scopes.tail = ctx.scopes.tail := by
  unfold declareAll
  induction names generalizing ctx with
  | nil => rfl
  | cons name names ih => rw [List.foldl_cons, ih, declare_tail]

theorem declareAll_scopes_ne_nil {ctx : Context} (h : ctx.scopes ≠ []) (names : List Name) :
    (ctx.declareAll names).scopes ≠ [] := by
  unfold declareAll
  induction names generalizing ctx with
  | nil => exact h
  | cons name names ih => exact ih (declare_scopes_ne_nil h _)

theorem declareAll_globals {ctx : Context} (h : ctx.scopes ≠ []) (names : List Name) :
    (ctx.declareAll names).globals = ctx.globals := by
  unfold declareAll
  induction names generalizing ctx with
  | nil => rfl
  | cons name names ih =>
    rw [List.foldl_cons, ih (declare_scopes_ne_nil h _), declare_globals h]

theorem declareAll_append (ctx : Context) (a b : List Name) :
    ctx.declareAll (a ++ b) = (ctx.declareAll a).declareAll b := List.foldl_append

/-- The distance of a reference. There is none for a global name, nor for `this` and `super` where
they must not stand. -/
def expected? (ctx : Context) (r : Reference) : Option Nat :=
  match r.kind with
  | .variable | .assign => ctx.distance? r.name.text
  | .this => if ctx.classKind.isSome then ctx.distance? "this" else none
  | .super => if ctx.classKind = some .derived then ctx.distance? "super" else none

end Context

/-- The kind of a class, which has a superclass or has none. -/
def kindOf {α : Type} (superclass : Option α) : ClassKind :=
  if superclass.isSome then .derived else .base

/-- The kind of a method. One that is named `init` is an initializer, others are not. -/
def kindOfMethod (method : FunctionDecl) : FunctionKind :=
  if method.name.text = "init" then .initializer else .ordinary

inductive Item where
  | reference (reference : Reference)
  | declaration (name : Name)
  /-- A `return`, with a value or without one. -/
  | exit (line : Nat) (hasValue : Bool)

structure Occurrence where
  site : Site
  item : Item

def Occurrence.reference? (o : Occurrence) : Option Reference :=
  match o.item with
  | .reference r => some r
  | .declaration _ | .exit _ _ => none

end Resolution

open Resolution

/-- The references of an expression in the order in which the static pass meets them: the value of
an assignment comes before its target. -/
def Expr.visited : Expr → List Reference
  | .literal _ => []
  | .grouping inner => inner.visited
  | .unary _ _ operand => operand.visited
  | .binary _ _ left right | .logical _ left right => left.visited ++ right.visited
  | .variable id name => [⟨.variable, id, name⟩]
  | .assign id name value => value.visited ++ [⟨.assign, id, name⟩]
  | .call callee _ arguments => callee.visited ++ listVisited arguments
  | .get object _ => object.visited
  | .set object _ value => value.visited ++ object.visited
  | .this id line => [⟨.this, id, ⟨"this", line⟩⟩]
  | .super id line method => [⟨.super, id, ⟨method.text, line⟩⟩]
where
  listVisited : List Expr → List Reference
    | [] => []
    | e :: es => e.visited ++ listVisited es

def Expr.occurrences (site : Site) (e : Expr) : List Occurrence :=
  e.visited.map fun r => ⟨site, .reference r⟩

/-- The occurrences of an optional expression. -/
def Expr.occurrences? (site : Site) : Option Expr → List Occurrence
  | none => []
  | some e => e.occurrences site

def Superclass.occurrences? (site : Site) : Option Superclass → List Occurrence
  | none => []
  | some superclass => superclass.toExpr.occurrences site

namespace Stmt

/-- The names that a statement adds to the scope it stands in. -/
def declaredNames : Stmt → List Name
  | .varDecl name _ | .classDecl name _ _ => [name]
  | .funDecl function => [function.name]
  | .ifElse _ thenBranch none => thenBranch.declaredNames
  | .ifElse _ thenBranch (some elseBranch) => thenBranch.declaredNames ++ elseBranch.declaredNames
  | .whileLoop _ body => body.declaredNames
  | .expression _ | .print _ | .block _ | .returnWith _ _ => []

/-- The parameters of a function, each declared after those before it. -/
def parameterOccurrences (ctx : Context) : List Name → List Occurrence
  | [] => []
  | name :: names => ⟨ctx, .declaration name⟩ :: parameterOccurrences (ctx.declare name.text) names

mutual

/-- The references, declarations and exits of a statement. A name is declared before what its
declaration consists of. -/
def occurrences (ctx : Context) : Stmt → List Occurrence
  | .expression value | .print value => value.occurrences ctx
  | .varDecl name initializer =>
    ⟨ctx, .declaration name⟩ :: Expr.occurrences? (ctx.initializer name.text) initializer
  | .block body => listOccurrences (ctx.enter []) body
  | .ifElse condition thenBranch none => condition.occurrences ctx ++ thenBranch.occurrences ctx
  | .ifElse condition thenBranch (some elseBranch) =>
    condition.occurrences ctx ++ thenBranch.occurrences ctx ++
      elseBranch.occurrences (ctx.declareAll thenBranch.declaredNames)
  | .whileLoop condition body => condition.occurrences ctx ++ body.occurrences ctx
  | .funDecl function =>
    ⟨ctx, .declaration function.name⟩ ::
      functionOccurrences ((ctx.declare function.name.text).inFunction .ordinary) function
  | .returnWith line value => ⟨ctx, .exit line value.isSome⟩ :: Expr.occurrences? ctx value
  | .classDecl name superclass methods =>
    ⟨ctx, .declaration name⟩ :: (Superclass.occurrences? (ctx.superclass name.text) superclass ++
      methodOccurrences ((ctx.declare name.text).method (kindOf superclass)) methods)

def listOccurrences (ctx : Context) : List Stmt → List Occurrence
  | [] => []
  | s :: ss => s.occurrences ctx ++ listOccurrences (ctx.declareAll s.declaredNames) ss

def functionOccurrences (ctx : Context) : FunctionOf Stmt → List Occurrence
  | ⟨_, parameters, body⟩ =>
    parameterOccurrences (ctx.enter []) parameters ++ listOccurrences (ctx.function parameters) body

def methodOccurrences (ctx : Context) : List (FunctionOf Stmt) → List Occurrence
  | [] => []
  | f :: fs => functionOccurrences (ctx.inFunction (kindOfMethod f)) f ++ methodOccurrences ctx fs

end

/-- The names that statements add to the scope they stand in. -/
def declaredByAll (body : List Stmt) : List Name := body.flatMap declaredNames

/-- What stands in a branch or as the body of a loop adds no name. -/
theorem declaredNames_eq_nil : (s : Stmt) → s.WellFormed → s.declaredName? = none →
    s.declaredNames = []
  | .expression _, _, _ | .print _, _, _ | .block _, _, _ | .returnWith _ _, _, _ => rfl
  | .varDecl _ _, _, h | .funDecl _, _, h | .classDecl _ _ _, _, h => nomatch h
  | .ifElse _ thenBranch none, h, _ => declaredNames_eq_nil thenBranch h.2 h.1
  | .ifElse _ thenBranch (some elseBranch), h, _ => by
    rw [declaredNames, declaredNames_eq_nil thenBranch h.1.2 h.1.1,
      declaredNames_eq_nil elseBranch h.2.2 h.2.1]
    rfl
  | .whileLoop _ body, h, _ => declaredNames_eq_nil body h.2 h.1

/-- A well-formed statement adds one name or none. -/
theorem declaredNames_eq_toList (s : Stmt) (h : s.WellFormed) :
    s.declaredNames = s.declaredName?.toList := by
  cases hname : s.declaredName? with
  | none => exact s.declaredNames_eq_nil h hname
  | some name =>
    cases s with
    | varDecl | funDecl | classDecl =>
      obtain rfl := Option.some.inj hname
      rfl
    | _ => cases hname

end Stmt

mutual

theorem Expr.visited_perm : (e : Expr) → e.visited.Perm e.references
  | .literal _ | .variable _ _ | .this _ _ | .super _ _ _ => .refl _
  | .grouping inner => inner.visited_perm
  | .unary _ _ operand => operand.visited_perm
  | .binary _ _ left right | .logical _ left right => left.visited_perm.append right.visited_perm
  | .assign id name value => by
    refine (value.visited_perm.append_right [⟨.assign, id, name⟩]).trans ?_
    exact List.perm_append_singleton _ _
  | .call callee _ arguments => callee.visited_perm.append (listVisited_perm arguments)
  | .get object _ => object.visited_perm
  | .set object _ value =>
    (value.visited_perm.append object.visited_perm).trans List.perm_append_comm

theorem Expr.listVisited_perm : (es : List Expr) →
    (visited.listVisited es).Perm (references.listReferences es)
  | [] => .refl _
  | e :: es => e.visited_perm.append (listVisited_perm es)

end

theorem Expr.references_occurrences (site : Site) (e : Expr) :
    ((e.occurrences site).filterMap Occurrence.reference?).Perm e.references := by
  unfold occurrences
  rw [List.filterMap_map]
  refine .trans (.of_eq ?_) e.visited_perm
  exact List.filterMap_some

theorem Expr.references_occurrences? (site : Site) (e : Option Expr) :
    ((occurrences? site e).filterMap Occurrence.reference?).Perm
      ((e.map Expr.references).getD []) := by
  cases e with
  | none => exact .refl _
  | some e => exact e.references_occurrences site

theorem Superclass.references_occurrences? (site : Site) (superclass : Option Superclass) :
    ((occurrences? site superclass).filterMap Occurrence.reference?).Perm
      ((superclass.map Superclass.references).getD []) := by
  cases superclass with
  | none => exact .refl _
  | some superclass => exact superclass.toExpr.references_occurrences site

namespace Stmt

theorem references_parameterOccurrences (ctx : Context) (names : List Name) :
    (parameterOccurrences ctx names).filterMap Occurrence.reference? = [] := by
  induction names generalizing ctx with
  | nil => rfl
  | cons name names ih => exact ih _

mutual

theorem references_occurrences (ctx : Context) : (s : Stmt) →
    ((s.occurrences ctx).filterMap Occurrence.reference?).Perm s.references
  | .expression value | .print value => value.references_occurrences ctx
  | .varDecl name initializer =>
    Expr.references_occurrences? (ctx.initializer name.text) initializer
  | .block body => references_listOccurrences (ctx.enter []) body
  | .ifElse condition thenBranch none => by
    rw [occurrences, references, List.filterMap_append]
    exact (condition.references_occurrences ctx).append (references_occurrences ctx thenBranch)
  | .ifElse condition thenBranch (some elseBranch) => by
    rw [occurrences, references, List.filterMap_append, List.filterMap_append]
    exact ((condition.references_occurrences ctx).append
      (references_occurrences ctx thenBranch)).append (references_occurrences _ elseBranch)
  | .whileLoop condition body => by
    rw [occurrences, references, List.filterMap_append]
    exact (condition.references_occurrences ctx).append (references_occurrences ctx body)
  | .funDecl function => references_functionOccurrences _ function
  | .returnWith _ value => Expr.references_occurrences? ctx value
  | .classDecl name superclass methods => by
    rw [occurrences, references, List.filterMap_cons_none rfl, List.filterMap_append]
    exact (Superclass.references_occurrences? _ superclass).append
      (references_methodOccurrences _ methods)

/-- The references that occur in statements are those of the statements. -/
theorem references_listOccurrences (ctx : Context) : (body : List Stmt) →
    ((listOccurrences ctx body).filterMap Occurrence.reference?).Perm (listReferences body)
  | [] => .refl _
  | first :: rest => by
    rw [listOccurrences, listReferences, List.filterMap_append]
    exact (references_occurrences ctx first).append (references_listOccurrences _ rest)

theorem references_functionOccurrences (ctx : Context) : (f : FunctionOf Stmt) →
    ((functionOccurrences ctx f).filterMap Occurrence.reference?).Perm (functionReferences f)
  | ⟨_, parameters, body⟩ => by
    rw [functionOccurrences, functionReferences, List.filterMap_append,
      references_parameterOccurrences, List.nil_append]
    exact references_listOccurrences _ body

theorem references_methodOccurrences (ctx : Context) : (methods : List (FunctionOf Stmt)) →
    ((methodOccurrences ctx methods).filterMap Occurrence.reference?).Perm
      (methodReferences methods)
  | [] => .refl _
  | first :: rest => by
    rw [methodOccurrences, methodReferences, List.filterMap_append]
    exact (references_functionOccurrences _ first).append (references_methodOccurrences ctx rest)

end

/-- The reference of an occurrence is one of the statements. -/
theorem mem_listReferences {ctx : Context} {body : List Stmt} {o : Occurrence} {r : Reference}
    (h : o ∈ listOccurrences ctx body) (ho : o.item = .reference r) : r ∈ listReferences body := by
  rw [← (references_listOccurrences ctx body).mem_iff, List.mem_filterMap]
  exact ⟨o, h, by rw [Occurrence.reference?, ho]⟩

end Stmt

section
variable (admits : Occurrence → Prop) (site : Site) (ctx : Context)

def Expr.Within (e : Expr) : Prop := ∀ r ∈ e.references, admits ⟨site, .reference r⟩

structure Stmt.Within (s : Stmt) : Prop where
  wellFormed : s.WellFormed
  occurrences : ∀ o ∈ s.occurrences ctx, admits o

structure Stmt.BodyWithin (body : List Stmt) : Prop where
  wellFormed : AllWellFormed body
  occurrences : ∀ o ∈ listOccurrences ctx body, admits o

structure Stmt.FunctionWithin (f : FunctionDecl) : Prop where
  wellFormed : FunctionWellFormed f
  occurrences : ∀ o ∈ functionOccurrences ctx f, admits o

def Stmt.MethodsWithin (methods : List FunctionDecl) : Prop :=
  ∀ f ∈ methods, FunctionWithin admits (ctx.inFunction (kindOfMethod f)) f

end

section
variable {admits : Occurrence → Prop} {site : Site} {ctx : Context}

theorem Expr.within_of_occurrences {e : Expr} (h : ∀ o ∈ e.occurrences site, admits o) :
    e.Within admits site :=
  fun _ hr => h _ (List.mem_map_of_mem (e.visited_perm.mem_iff.mpr hr))

theorem Expr.within_of_listReferences {es : List Expr}
    (h : ∀ r ∈ references.listReferences es, admits ⟨site, .reference r⟩) :
    ∀ e ∈ es, e.Within admits site := by
  induction es with
  | nil => exact nofun
  | cons e es ih =>
    obtain ⟨he, hes⟩ := List.forall_mem_append.mp h
    exact List.forall_mem_cons.mpr ⟨he, ih hes⟩

namespace Stmt

theorem BodyWithin.head {first : Stmt} {rest : List Stmt}
    (h : BodyWithin admits ctx (first :: rest)) : first.Within admits ctx :=
  ⟨h.wellFormed.1, (List.forall_mem_append.mp h.occurrences).1⟩

theorem BodyWithin.tail {first : Stmt} {rest : List Stmt}
    (h : BodyWithin admits ctx (first :: rest)) :
    BodyWithin admits (ctx.declareAll first.declaredNames) rest :=
  ⟨h.wellFormed.2, (List.forall_mem_append.mp h.occurrences).2⟩

theorem FunctionWithin.body : {f : FunctionDecl} → FunctionWithin admits ctx f →
    BodyWithin admits (ctx.function f.parameters) f.body
  | ⟨_, _, _⟩, h => ⟨h.wellFormed.2, (List.forall_mem_append.mp h.occurrences).2⟩

theorem FunctionWithin.parameters : {f : FunctionDecl} → FunctionWithin admits ctx f →
    ∀ o ∈ parameterOccurrences (ctx.enter []) f.parameters, admits o
  | ⟨_, _, _⟩, h => (List.forall_mem_append.mp h.occurrences).1

theorem FunctionWithin.ordinary : {f : FunctionDecl} → FunctionWithin admits ctx f →
    ∀ parameter ∈ f.parameters, parameter.Ordinary
  | ⟨_, _, _⟩, h => h.wellFormed.1

theorem FunctionWithin.imp {admits' : Occurrence → Prop} {f : FunctionDecl}
    (h : FunctionWithin admits ctx f) (himp : ∀ o, admits o → admits' o) :
    FunctionWithin admits' ctx f :=
  ⟨h.wellFormed, fun o ho => himp o (h.occurrences o ho)⟩

theorem methodsWithin {methods : List FunctionDecl} (hw : MethodsWellFormed methods)
    (h : ∀ o ∈ methodOccurrences ctx methods, admits o) : MethodsWithin admits ctx methods := by
  induction methods with
  | nil => exact nofun
  | cons first rest ih =>
    obtain ⟨hfirst, hrest⟩ := List.forall_mem_append.mp h
    exact List.forall_mem_cons.mpr ⟨⟨hw.1, hfirst⟩, ih hw.2 hrest⟩

end Stmt
end

end Lox
