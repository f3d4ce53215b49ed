import Lox.Proofs.Resolution.Violations
import Mathlib.Data.List.Forall2

/-!
# What the static pass does

The pass keeps the scopes of a site, up to the order of their names, and marks the name that is not
ready there. It gives every reference the distance that follows from its context, reports exactly
the occurrences that are forbidden, in order, and changes no other entry of the table. `Walks` says
this of a part of the pass; parts that follow each other or stand in scopes of their own are put
together by its lemmas.
-/
namespace Lox
namespace Resolution

/-- The state has the scopes of the site. Only the variable in whose initializer the site is may be
marked as not ready. -/
structure Models (known : String → Bool) (site : Site) (s : State) : Prop where
  scopes : List.Forall₂ (fun b names => ∀ name, b.contains name = true ↔ name ∈ names)
    s.scopes site.scopes
  globals : ∀ name, s.globals.contains name = true ∨ known name = true ↔ site.globals name = true
  innermost : ∀ name, s.innermost.find? name = some false ↔
    site.opening = some (.initializer name)
  outer : ∀ b ∈ (s.scopes ++ [s.globals]).tail, ∀ name, b.find? name ≠ some false
  functionKind : s.functionKind = site.functionKind
  classKind : s.classKind = site.classKind

/-- The table has the distance that follows from the context, if the occurrence is a reference. -/
def Occurrence.Settled (table : Distances) (o : Occurrence) : Prop :=
  match o.item with
  | .reference r => table.find? r.id = o.site.expected? r
  | .declaration _ | .exit _ _ => True

/-- The numbers of the references. -/
def ids (os : List Occurrence) : List NodeId := (os.filterMap Occurrence.reference?).map (·.id)

/-- What a part of the pass does between two sites. -/
structure Walks (known : String → Bool) (before after : Site) (os : List Occurrence)
    (walk : State → State) : Prop where
  models : ∀ s, Models known before s → Models known after (walk s)
  errors : ∀ s, Models known before s →
    (walk s).errors.toList = s.errors.toList ++ os.filterMap Occurrence.violation?
  frame : ∀ s, Models known before s → ∀ id ∉ ids os,
    (walk s).distances.find? id = s.distances.find? id
  settled : ∀ s, Models known before s → (ids os).Nodup →
    (∀ id ∈ ids os, s.distances.find? id = none) → ∀ o ∈ os, o.Settled (walk s).distances

theorem mem_ids {os : List Occurrence} {o : Occurrence} {r : Reference} (h : o ∈ os)
    (ho : o.item = .reference r) : r.id ∈ ids os := by
  rw [ids, List.mem_map]
  exact ⟨r, List.mem_filterMap.mpr ⟨o, h, by rw [Occurrence.reference?, ho]⟩, rfl⟩

theorem ids_append (a b : List Occurrence) : ids (a ++ b) = ids a ++ ids b := by
  rw [ids, List.filterMap_append, List.map_append]
  rfl

/-- Tables that agree on the number of a reference settle it alike. -/
theorem Occurrence.Settled.congr {table table' : Distances} {os : List Occurrence} {o : Occurrence}
    (ho : o ∈ os) (h : ∀ id ∈ ids os, table'.find? id = table.find? id) (hs : o.Settled table) :
    o.Settled table' := by
  unfold Settled at hs ⊢
  split
  · next r hr =>
    rw [hr] at hs
    rw [h r.id (mem_ids ho hr)]
    exact hs
  · trivial
  · trivial

theorem forall₂_tail {α β : Type} {r : α → β → Prop} {as : List α} {bs : List β}
    (h : List.Forall₂ r as bs) : List.Forall₂ r as.tail bs.tail := by
  cases h with
  | nil => exact .nil
  | cons _ hrest => exact hrest

/-- Reports an error, if there is one. -/
def State.raise (s : State) : Option ResolutionError → State
  | none => s
  | some e => s.report e.cause e.name

theorem State.errors_raise (s : State) (e? : Option ResolutionError) :
    (s.raise e?).errors.toList = s.errors.toList ++ e?.toList := by
  cases e? with
  | none => simp [raise]
  | some e => simp [raise, report]

namespace Models
variable {known : String → Bool} {site : Site} {ctx : Context} {s : State}

/-- Errors and distances do not matter. -/
theorem raise (h : Models known site s) (e? : Option ResolutionError) :
    Models known site (s.raise e?) := by
  cases e? with
  | none => exact h
  | some e => exact ⟨h.scopes, h.globals, h.innermost, h.outer, h.functionKind, h.classKind⟩

/-- Where no initializer is open, all names are ready. -/
theorem ready (h : Models known ctx s) :
    ∀ b ∈ s.scopes ++ [s.globals], ∀ name, b.find? name ≠ some false := by
  have hinnermost (name : String) : s.innermost.find? name ≠ some false :=
    fun hfalse => nomatch (h.innermost name).mp hfalse
  have houter := h.outer
  unfold State.innermost at hinnermost
  cases hscopes : s.scopes with
  | nil =>
    rw [hscopes] at hinnermost
    intro b hb
    rw [List.nil_append, List.mem_singleton] at hb
    exact hb ▸ hinnermost
  | cons b bs =>
    rw [hscopes] at hinnermost houter
    exact List.forall_mem_cons.mpr ⟨hinnermost, houter⟩

theorem scopes_eq_nil (h : Models known site s) (hscopes : site.scopes = []) : s.scopes = [] := by
  have hall := h.scopes
  rw [hscopes] at hall
  exact List.forall₂_nil_right_iff.mp hall

/-- In a new scope nothing is declared. -/
theorem beginScope (h : Models known ctx s) : Models known (ctx.enter []) s.beginScope := by
  have hempty (name : String) : (Bindings.empty : Bindings Bool).find? name = none := rfl
  constructor
  · refine .cons (fun name => ?_) h.scopes
    change (Bindings.empty : Bindings Bool).contains name = true ↔ _
    simp [Bindings.contains]
  · exact h.globals
  · exact fun name => ⟨fun hfalse => (nomatch (hempty name).symm.trans hfalse), nofun⟩
  · exact h.ready
  · exact h.functionKind
  · exact h.classKind

/-- After a scope the state is as before it. -/
theorem endScope {names : List Name}
    (h : Models known ((ctx.enter []).declareAll names : Context) s) :
    Models known ctx s.endScope := by
  have hready := h.ready
  have hlocal : (ctx.enter []).scopes ≠ [] := List.cons_ne_nil _ _
  have hnonempty : s.scopes ≠ [] := by
    intro hnil
    have hall := h.scopes
    rw [hnil, List.forall₂_nil_left_iff] at hall
    exact Context.declareAll_scopes_ne_nil hlocal names hall
  obtain ⟨b, bs, hscopes⟩ := List.exists_cons_of_ne_nil hnonempty
  rw [hscopes] at hready
  have houter : ∀ b ∈ bs ++ [s.globals], ∀ name, b.find? name ≠ some false :=
    (List.forall_mem_cons.mp hready).2
  have hend : s.endScope = { s with scopes := bs } := by
    unfold State.endScope
    rw [hscopes]
    rfl
  rw [hend]
  constructor
  · have htail := forall₂_tail h.scopes
    rw [hscopes, Context.declareAll_tail] at htail
    exact htail
  · intro name
    have hglobals := h.globals name
    rw [Context.declareAll_globals hlocal] at hglobals
    exact hglobals
  · intro name
    refine ⟨fun hfalse => ?_, nofun⟩
    refine absurd hfalse (houter _ ?_ name)
    cases bs with
    | nil => exact List.mem_singleton_self _
    | cons b bs => exact List.mem_cons_self
  · exact fun b hb => houter b (List.mem_of_mem_tail hb)
  · have hkind := h.functionKind
    rw [Context.declareAll_functionKind] at hkind
    exact hkind
  · have hkind := h.classKind
    rw [Context.declareAll_classKind] at hkind
    exact hkind

theorem contains_insert (b : Bindings Bool) (name other : String) (value : Bool) :
    (b.insert name value).contains other = true ↔ other = name ∨ b.contains other = true := by
  unfold Bindings.contains
  rw [Bindings.find?_insert]
  split
  · next h => simp [h]
  · next h => simp [h]

/-- A name is inserted into the innermost scope with a mark. -/
theorem insert (h : Models known site s) (name : String) {value : Bool} {opening : Option Opening}
    (hopening : ∀ other, opening = some (.initializer other) ↔
      if other = name then value = false else site.opening = some (.initializer other)) :
    Models known ⟨site.toContext.declare name, opening⟩
      (s.modifyInnermost (·.insert name value)) := by
  obtain ⟨⟨scopes, globals, functionKind, classKind⟩, opened⟩ := site
  have hmark (b : Bindings Bool) (hb : b = s.innermost) (other : String) :
      (b.insert name value).find? other = some false ↔
        opening = some (.initializer other) := by
    rw [Bindings.find?_insert, hopening]
    split
    · rw [Option.some.injEq]
    · rw [hb]
      exact h.innermost other
  have hscopes := h.scopes
  unfold State.modifyInnermost Context.declare
  cases scopes with
  | nil =>
    have hnil := h.scopes_eq_nil rfl
    rw [hnil]
    constructor
    · exact .nil
    · intro other
      dsimp only
      rw [contains_insert, Bool.or_eq_true, beq_iff_eq, or_assoc]
      exact or_congr_right (h.globals other)
    · refine hmark _ ?_
      unfold State.innermost
      rw [hnil]
      rfl
    · exact nofun
    · exact h.functionKind
    · exact h.classKind
  | cons names outer =>
    obtain ⟨b, bs, hb, hbs, heq⟩ := List.forall₂_cons_right_iff.mp hscopes
    have houter := h.outer
    rw [heq] at houter ⊢
    constructor
    · refine .cons (fun other => ?_) hbs
      rw [contains_insert, hb other, List.mem_cons]
    · exact h.globals
    · refine hmark b ?_
      unfold State.innermost
      rw [heq]
      rfl
    · exact houter
    · exact h.functionKind
    · exact h.classKind

/-- Declaring a name that the scope has already changes nothing. -/
theorem declares_iff (h : Models known ctx s) (name : String) :
    ctx.declares name = true ↔
      match s.scopes with
      | [] => s.isKnownGlobal known name = true
      | b :: _ => b.contains name = true := by
  obtain ⟨scopes, globals, functionKind, classKind⟩ := ctx
  have hscopes := h.scopes
  unfold Context.declares
  cases scopes with
  | nil =>
    rw [h.scopes_eq_nil rfl]
    have hready := h.ready s.globals (List.mem_append_right _ (List.mem_singleton_self _)) name
    have hglobals := h.globals name
    dsimp only at hglobals ⊢
    rw [← hglobals]
    unfold State.isKnownGlobal Bindings.contains
    rw [Bool.or_eq_true, beq_iff_eq]
    cases hfind : s.globals.find? name with
    | none => simp
    | some ready =>
      cases ready with
      | false => exact absurd hfind hready
      | true => simp
  | cons names outer =>
    obtain ⟨b, bs, hb, hbs, heq⟩ := List.forall₂_cons_right_iff.mp hscopes
    rw [heq]
    exact List.contains_iff_mem.trans (hb name).symm

theorem of_declared (h : Models known ctx s) {name : String} (hname : ctx.declares name = true) :
    Models known (ctx.declare name) s := by
  obtain ⟨scopes, globals, functionKind, classKind⟩ := ctx
  unfold Context.declares at hname
  cases scopes with
  | nil =>
    refine ⟨h.scopes, fun other => ?_, h.innermost, h.outer, h.functionKind, h.classKind⟩
    refine (h.globals other).trans ?_
    change _ ↔ (other == name || globals other) = true
    rw [Bool.or_eq_true, beq_iff_eq]
    constructor
    · exact .inr
    · rintro (rfl | hother)
      · exact hname
      · exact hother
  | cons names outer =>
    obtain ⟨b, bs, hb, hbs, heq⟩ := List.forall₂_cons_right_iff.mp h.scopes
    refine ⟨?_, h.globals, h.innermost, h.outer, h.functionKind, h.classKind⟩
    rw [heq]
    refine .cons (fun other => (hb other).trans ?_) hbs
    rw [List.mem_cons]
    constructor
    · exact .inr
    · rintro (rfl | hother)
      · exact List.contains_iff_mem.mp hname
      · exact hother

/-- Declaring a name twice is declaring it once. -/
theorem of_twice {name : String} (h : Models known ((ctx.declare name).declare name : Context) s) :
    Models known (ctx.declare name) s := by
  obtain ⟨scopes, globals, functionKind, classKind⟩ := ctx
  cases scopes with
  | nil =>
    refine ⟨h.scopes, fun other => ?_, h.innermost, h.outer, h.functionKind, h.classKind⟩
    refine (h.globals other).trans ?_
    simp [Context.declare]
  | cons names outer =>
    obtain ⟨b, bs, hb, hbs, heq⟩ := List.forall₂_cons_right_iff.mp h.scopes
    refine ⟨?_, h.globals, h.innermost, h.outer, h.functionKind, h.classKind⟩
    rw [heq]
    refine .cons (fun other => (hb other).trans ?_) hbs
    simp

end Models

namespace Walks
variable {known : String → Bool} {a b c site after : Site} {ctx : Context}
  {os os' : List Occurrence} {walk walk' : State → State}

theorem seq (h : Walks known a b os walk) (h' : Walks known b c os' walk') :
    Walks known a c (os ++ os') fun s => walk' (walk s) := by
  constructor
  · intro s hs
    exact h'.models _ (h.models s hs)
  · intro s hs
    rw [h'.errors _ (h.models s hs), h.errors s hs, List.filterMap_append, List.append_assoc]
  · intro s hs id hid
    rw [ids_append, List.mem_append, not_or] at hid
    rw [h'.frame _ (h.models s hs) id hid.2, h.frame s hs id hid.1]
  · intro s hs hnodup hfresh o ho
    rw [ids_append] at hnodup hfresh
    obtain ⟨hnodup₁, hnodup₂, hdisjoint⟩ := List.nodup_append.mp hnodup
    have hfresh' : ∀ id ∈ ids os', (walk s).distances.find? id = none := by
      intro id hid
      rw [h.frame s hs id fun hmem => hdisjoint id hmem id hid rfl]
      exact hfresh id (List.mem_append_right _ hid)
    rcases List.mem_append.mp ho with ho | ho
    · have hsettled := h.settled s hs hnodup₁ (fun id hid => hfresh id (List.mem_append_left _ hid)) o ho
      refine hsettled.congr ho fun id hid => ?_
      exact h'.frame _ (h.models s hs) id fun hmem => hdisjoint id hid id hmem rfl
    · exact h'.settled _ (h.models s hs) hnodup₂ hfresh' o ho

/-- A part of the pass that has no occurrences and finds no distances. -/
theorem quiet (hmodels : ∀ s, Models known a s → Models known b (walk s))
    (herrors : ∀ s, (walk s).errors = s.errors)
    (hdistances : ∀ s, (walk s).distances = s.distances) : Walks known a b [] walk := by
  constructor
  · exact hmodels
  · intro s _
    rw [herrors]
    exact (List.append_nil _).symm
  · intro s _ id _
    rw [hdistances]
  · intro s _ _ _ o ho
    exact absurd ho List.not_mem_nil

theorem nil (site : Site) : Walks known site site [] id :=
  quiet (fun _ => id) (fun _ => rfl) fun _ => rfl

/-- Only what is done in a state that models the site counts. -/
theorem congr (h : Walks known a b os walk) (heq : ∀ s, Models known a s → walk' s = walk s) :
    Walks known a b os walk' := by
  constructor
  · intro s hs
    rw [heq s hs]
    exact h.models s hs
  · intro s hs
    rw [heq s hs]
    exact h.errors s hs
  · intro s hs
    rw [heq s hs]
    exact h.frame s hs
  · intro s hs
    rw [heq s hs]
    exact h.settled s hs

/-- What stands in a scope of its own changes nothing around. -/
theorem inScope (names : List Name)
    (h : Walks known (ctx.enter []) ((ctx.enter []).declareAll names : Context) os walk) :
    Walks known ctx ctx os (State.inScope walk) := by
  constructor
  · exact fun s hs => (h.models _ hs.beginScope).endScope
  · exact fun s hs => h.errors _ hs.beginScope
  · exact fun s hs => h.frame _ hs.beginScope
  · exact fun s hs => h.settled _ hs.beginScope

theorem inFunction (kind : FunctionKind)
    (h : Walks known (ctx.inFunction kind) (ctx.inFunction kind) os walk) :
    Walks known ctx ctx os (State.inFunction kind walk) := by
  have hbegin (s : State) (hs : Models known ctx s) :
      Models known (ctx.inFunction kind) { s with functionKind := some kind } :=
    ⟨hs.scopes, hs.globals, hs.innermost, hs.outer, rfl, hs.classKind⟩
  constructor
  · intro s hs
    have hafter := h.models _ (hbegin s hs)
    exact ⟨hafter.scopes, hafter.globals, hafter.innermost, hafter.outer, hs.functionKind,
      hafter.classKind⟩
  · exact fun s hs => h.errors _ (hbegin s hs)
  · exact fun s hs => h.frame _ (hbegin s hs)
  · exact fun s hs => h.settled _ (hbegin s hs)

theorem inClass (kind : ClassKind)
    (h : Walks known ({ ctx with classKind := some kind } : Context)
      ({ ctx with classKind := some kind } : Context) os walk) :
    Walks known ctx ctx os (State.inClass kind walk) := by
  have hbegin (s : State) (hs : Models known ctx s) :
      Models known ({ ctx with classKind := some kind } : Context)
        { s with classKind := some kind } :=
    ⟨hs.scopes, hs.globals, hs.innermost, hs.outer, hs.functionKind, rfl⟩
  constructor
  · intro s hs
    have hafter := h.models _ (hbegin s hs)
    exact ⟨hafter.scopes, hafter.globals, hafter.innermost, hafter.outer, hafter.functionKind,
      hs.classKind⟩
  · exact fun s hs => h.errors _ (hbegin s hs)
  · exact fun s hs => h.frame _ (hbegin s hs)
  · exact fun s hs => h.settled _ (hbegin s hs)

theorem findIdx?_eq {s : State} (h : Models known site s) (name : String) :
    s.scopes.findIdx? (·.contains name) = site.distance? name := by
  have hscopes := h.scopes
  unfold Context.distance?
  revert hscopes
  generalize s.scopes = as, site.scopes = bs
  intro hscopes
  induction hscopes with
  | nil => rfl
  | cons hfirst _ ih =>
    rw [List.findIdx?_cons, List.findIdx?_cons, ih]
    have hiff := hfirst name
    rw [← List.contains_iff_mem] at hiff
    rw [Bool.eq_iff_iff.mpr hiff]

theorem distances_reference {s : State} (h : Models known site s) (id : NodeId) (name : String) :
    (s.reference id name).distances.find? id =
      (site.distance? name).or (s.distances.find? id) := by
  unfold State.reference
  rw [findIdx?_eq h]
  split
  · next distance hd => rw [hd, Distances.find?_record_self, Option.some_or]
  · next hd => rw [hd, Option.none_or]

theorem frame_reference (s : State) {id other : NodeId} (name : String) (h : other ≠ id) :
    (s.reference id name).distances.find? other = s.distances.find? other := by
  unfold State.reference
  split
  · exact Distances.find?_record_of_ne _ _ h
  · rfl

theorem models_reference {s : State} (h : Models known site s) (id : NodeId) (name : String) :
    Models known site (s.reference id name) := by
  unfold State.reference
  split
  · exact ⟨h.scopes, h.globals, h.innermost, h.outer, h.functionKind, h.classKind⟩
  · exact h

theorem errors_reference (s : State) (id : NodeId) (name : String) :
    (s.reference id name).errors = s.errors := by
  unfold State.reference
  split <;> rfl

theorem distances_raise (s : State) (e? : Option ResolutionError) :
    (s.raise e?).distances = s.distances := by
  cases e? with
  | none => rfl
  | some e => rfl

theorem filterMap_singleton (o : Occurrence) :
    [o].filterMap Occurrence.violation? = o.violation?.toList := by
  rw [List.filterMap_cons]
  cases o.violation? with
  | none => rfl
  | some e => rfl

/-- A part of the pass that reports what is forbidden of one occurrence and finds no distances. -/
theorem raise {o : Occurrence} (hmodels : ∀ s, Models known a s → Models known b (walk s))
    (herrors : ∀ s, Models known a s →
      (walk s).errors.toList = s.errors.toList ++ o.violation?.toList)
    (hdistances : ∀ s, (walk s).distances = s.distances)
    (hsettled : ∀ r, o.item = .reference r → o.site.expected? r = none) :
    Walks known a b [o] walk := by
  constructor
  · exact hmodels
  · intro s hs
    rw [herrors s hs, filterMap_singleton]
  · intro s _ id _
    rw [hdistances]
  · intro s _ _ hfresh o' ho
    obtain rfl := List.mem_singleton.mp ho
    unfold Occurrence.Settled
    split
    · next r hr =>
      rw [hdistances, hsettled r hr]
      exact hfresh r.id (mem_ids ho hr)
    · trivial
    · trivial

/-- A reference that is looked up under the name that its site expects. -/
theorem reference (site place : Site) (r : Reference) (name : String)
    (hname : place.expected? r = site.distance? name) :
    Walks known site site [⟨place, .reference r⟩]
      fun s => (s.raise (place.referenceError? r)).reference r.id name := by
  constructor
  · exact fun s hs => models_reference (hs.raise _) r.id name
  · intro s _
    rw [errors_reference, State.errors_raise, filterMap_singleton]
    rfl
  · intro s _ id hid
    rw [frame_reference, distances_raise]
    intro heq
    rw [heq] at hid
    exact hid (mem_ids (List.mem_singleton_self _) rfl)
  · intro s hs _ hfresh o ho
    obtain rfl := List.mem_singleton.mp ho
    change ((s.raise _).reference r.id name).distances.find? r.id = place.expected? r
    rw [distances_reference (hs.raise _), distances_raise, hname,
      hfresh r.id (mem_ids (List.mem_singleton_self _) rfl), Option.or_none]

/-- A reference that must not stand here is reported, and it is given no distance. -/
theorem forbidden (site : Site) (r : Reference) (hnone : site.expected? r = none) :
    Walks known site site [⟨site, .reference r⟩] (·.raise (site.referenceError? r)) := by
  apply raise
  · exact fun s hs => hs.raise _
  · exact fun s _ => s.errors_raise _
  · exact fun s => distances_raise s _
  · rintro _ ⟨⟩
    exact hnone

theorem distances_modifyInnermost (s : State) (f : Bindings Bool → Bindings Bool) :
    (s.modifyInnermost f).distances = s.distances := by
  unfold State.modifyInnermost
  split <;> rfl

theorem errors_modifyInnermost (s : State) (f : Bindings Bool → Bindings Bool) :
    (s.modifyInnermost f).errors = s.errors := by
  unfold State.modifyInnermost
  split <;> rfl

/-- Declaring a name that is new, or not. -/
theorem declare_eq {s : State} (h : Models known ctx s) (name : Name) :
    s.declare known name =
      if ctx.declares name.text = true then s.raise (Occurrence.violation? ⟨ctx, .declaration name⟩)
      else s.modifyInnermost (·.insert name.text false) := by
  have hdeclares := h.declares_iff name.text
  have hscopes := h.scopes
  unfold State.declare
  unfold Context.declares at hdeclares ⊢
  unfold Occurrence.violation?
  dsimp only
  cases hctx : ctx.scopes with
  | nil =>
    rw [h.scopes_eq_nil hctx] at hdeclares ⊢
    rw [hctx] at hdeclares
    simp only [hdeclares]
    rfl
  | cons names outer =>
    rw [hctx] at hscopes hdeclares
    obtain ⟨b, bs, hb, hbs, heq⟩ := List.forall₂_cons_right_iff.mp hscopes
    rw [heq] at hdeclares ⊢
    dsimp only at hdeclares ⊢
    rw [← Bool.eq_iff_iff] at hdeclares
    simp only [hdeclares]
    split
    · rfl
    · rfl

/-- A name that is new is not reported. -/
theorem violation?_of_new (ctx : Context) {name : Name} (h : ctx.declares name.text = false) :
    Occurrence.violation? ⟨ctx, .declaration name⟩ = none := by
  unfold Context.declares at h
  unfold Occurrence.violation?
  dsimp only
  split
  · rfl
  · next scope outer hscopes =>
    rw [hscopes] at h
    dsimp only at h
    rw [h]
    rfl

theorem declare (ctx : Context) (name : Name) :
    Walks known ctx (ctx.initializer name.text) [⟨ctx, .declaration name⟩]
      (·.declare known name) := by
  apply raise
  · intro s hs
    rw [declare_eq hs]
    unfold Context.initializer
    split
    · next hname => exact (hs.of_declared hname).raise _
    · refine hs.insert name.text fun other => ?_
      split
      · next heq => simp [heq]
      · next hne => simp [Ne.symm hne]
  · intro s hs
    rw [declare_eq hs]
    split
    · exact s.errors_raise _
    · next hnew =>
      rw [violation?_of_new ctx (Bool.eq_false_iff.mpr hnew), errors_modifyInnermost]
      exact (List.append_nil _).symm
  · intro s
    unfold State.declare State.modifyInnermost State.report
    repeat' split
    all_goals rfl
  · exact nofun

/-- A name is ready for use from now on. -/
theorem define (site : Site) (name : String)
    (h : ∀ other, site.opening = some (.initializer other) → other = name) :
    Walks known site (site.toContext.declare name) [] (·.define name) := by
  apply quiet
  · refine fun s hs => hs.insert name fun other => ⟨nofun, fun hother => ?_⟩
    split at hother
    · cases hother
    · next hne => exact absurd (h other hother) hne
  · exact fun s => errors_modifyInnermost s _
  · exact fun s => distances_modifyInnermost s _

/-- A variable is ready after its initializer. -/
theorem redefine (ctx : Context) (name : String) :
    Walks known (ctx.initializer name) (ctx.declare name) [] (·.define name) := by
  have hdefine : Walks known (ctx.initializer name) _ [] (·.define name) :=
    define _ name fun other hother => by
      unfold Context.initializer at hother
      dsimp only at hother
      split at hother
      · cases hother
      · cases hother
        rfl
  constructor
  · exact fun s hs => (hdefine.models s hs).of_twice
  · exact hdefine.errors
  · exact hdefine.frame
  · exact hdefine.settled

theorem introduce (ctx : Context) (name : Name) :
    Walks known ctx (ctx.declare name.text) [⟨ctx, .declaration name⟩]
      (·.introduce known name) :=
  (declare ctx name).seq (redefine ctx name.text)

end Walks

end Resolution
end Lox
