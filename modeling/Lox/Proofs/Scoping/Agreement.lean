import Lox.Proofs.Evaluation.Lockstep
import Lox.Proofs.Evaluation.Steps
import Lox.Proofs.Scoping.Layout

/-!
# Machines and lexical states that agree

A machine and a lexical state agree if they have the same objects, their variables have the same
values, and the functions that they keep close over scopes and environments that agree. Each change
that both make in its own way keeps the agreement: new scopes and locations, values written to
variables, new functions and classes.
-/
namespace Lox.Evaluation
open Resolution

namespace Lexical

/-- The states agree, wherever the evaluation is. -/
structure Agrees (setting : Setting) (globals p : ScopeId) (w : Layout) (m : Machine)
    (l : Lexical) : Prop where
  store : w.store = m.store
  objects : w.objects = l.objects
  environments : w.environments = l.environments
  alike : m.store.Alike l.objects
  holds : w.store.Holds (w.ValueOk setting) (w.IsMethod setting)
  memory : Memory globals m.store w.slots l.cells l.globals
  globals : m.globals = globals
  scope : m.scope = p
  distances : m.distances = setting.table
  callDepth : m.callDepth = l.callDepth
  output : m.output = l.output

/-- The scope `p` and the environment are those of code in the context. -/
structure Runs (globals p : ScopeId) (w : Layout) (ctx : Context) (environment : Environment) :
    Prop where
  sees : w.Sees ctx p environment.locations
  layered : ctx.Layered
  exact : ∀ {location : Location} {name}, w.slots[location]? = some ⟨p, name⟩ →
    ∃ names ∈ ctx.scopes.head?, name ∈ names
  isLocal : environment.isLocal = !ctx.scopes.isEmpty
  outermost : ctx.scopes = [] ↔ p = globals
  known : p < w.store.scopes.size

variable {setting : Setting} {globals p q : ScopeId} {w w' : Layout} {ctx : Context} {m : Machine}
  {l : Lexical} {environment : Environment} {store : Store} {name : String} {v? : Option Value}

theorem Runs.grows (h : Runs globals p w ctx environment) (hw : Layout.Grows q w w')
    (hexact : ∀ {location : Location} {name}, w'.slots[location]? = some ⟨p, name⟩ →
      w.slots[location]? = some ⟨p, name⟩) : Runs globals p w' ctx environment := by
  constructor
  · exact h.sees.grows hw
  · exact h.layered
  · exact fun hslot => h.exact (hexact hslot)
  · exact h.isLocal
  · exact h.outermost
  · exact Nat.lt_of_lt_of_le h.known hw.store.scopes

/-- What happens in new scopes changes nothing. -/
theorem Runs.anew (h : Runs globals p w ctx environment) (hw : Layout.Grows q w w')
    (hq : w.store.scopes.size ≤ q) : Runs globals p w' ctx environment := by
  refine h.grows hw fun hslot => hw.old hslot ?_ h.known
  exact Nat.ne_of_lt (Nat.lt_of_lt_of_le h.known hq)

theorem Runs.inner (h : Runs globals p w ctx environment) (hscopes : ctx.scopes ≠ []) :
    p ≠ globals := fun heq => hscopes (h.outermost.mpr heq)

/-- Only the local scopes and the class matter. -/
theorem Runs.of_scopes (h : Runs globals p w ctx environment) {ctx' : Context}
    (hscopes : ctx'.scopes = ctx.scopes) (hkind : ctx'.classKind = ctx.classKind) :
    Runs globals p w ctx' environment := by
  obtain ⟨scopes, declared, functionKind, classKind⟩ := ctx
  obtain ⟨scopes', declared', functionKind', classKind'⟩ := ctx'
  obtain rfl : scopes' = scopes := hscopes
  obtain rfl : classKind' = classKind := hkind
  refine ⟨h.sees.of_scopes rfl, h.layered, h.exact, h.isLocal, h.outermost, h.known⟩

/-- A name that is not declared twice has no location yet. -/
theorem Runs.fresh (h : Runs globals p w ctx environment) {name : Name}
    (hclean : Occurrence.Clean ⟨ctx, .declaration name⟩) (location : Location) :
    w.slots[location]? ≠ some ⟨p, name.text⟩ := by
  intro hslot
  obtain ⟨names, hnames, hmem⟩ := h.exact hslot
  exact hclean.undeclared names hnames hmem

namespace Agrees
variable (h : Agrees setting globals p w m l)
include h

/-- The running environment does not matter. -/
theorem placed (environment : Environment) : Agrees setting globals p w m { l with environment } :=
  ⟨h.store, h.objects, h.environments, h.alike, h.holds, h.memory, h.globals, h.scope, h.distances,
    h.callDepth, h.output⟩

/-- Neither does the running scope. -/
theorem moved (q : ScopeId) (environment : Environment) :
    Agrees setting globals q w { m with scope := q } { l with environment } :=
  ⟨h.store, h.objects, h.environments, h.alike, h.holds, h.memory, h.globals, rfl, h.distances,
    h.callDepth, h.output⟩

/-- What was held before is so still. -/
theorem held (hw : Layout.Grows q w w') :
    w.store.Holds (w'.ValueOk setting) (w'.IsMethod setting) :=
  h.holds.imp (fun _ hv => hv.grows hw) fun _ hf => hf.grows hw

/-- One name of one scope was bound, and the memory has kept up. -/
theorem bound {s : ScopeId} (hbinds : m.store.Binds store s name v?)
    (hv : ∀ v ∈ v?, w.ValueOk setting v) {slots : Array Slot} {cells : Array (Option Value)}
    {table : Bindings Value} (hw : Layout.Grows q w { w with store, slots })
    (hmemory : Memory globals store slots cells table) :
    Agrees setting globals p { w with store, slots } { m with store }
      { l with cells, globals := table } := by
  constructor
  · rfl
  · exact h.objects
  · exact h.environments
  · refine ⟨?_, ?_, ?_⟩
    · rw [hbinds.functions]
      exact h.alike.functions
    · exact hbinds.classes.trans h.alike.classes
    · exact hbinds.instances.trans h.alike.instances
  · have hheld := h.held hw
    rw [h.store] at hheld
    exact hbinds.holds hheld fun v hmem => (hv v hmem).grows hw
  · exact hmemory
  · exact h.globals
  · exact h.scope
  · exact h.distances
  · exact h.callDepth
  · exact h.output

theorem grows_write {s : ScopeId} (hbinds : m.store.Binds store s name v?) (q : ScopeId) :
    Layout.Grows q w { w with store } := by
  have hextends := hbinds.extends
  rw [← h.store] at hextends
  exact Layout.grows_objects q hextends (.refl _)

/-- The variable at a location gets another value. -/
theorem write {location : Location} {s : ScopeId} (hslot : w.slots[location]? = some ⟨s, name⟩)
    {v : Value} (hv : w.ValueOk setting v) :
    Layout.Grows p w { w with store := m.store.define s name v } ∧
      Agrees setting globals p { w with store := m.store.define s name v }
        { m with store := m.store.define s name v }
        { l with cells := l.cells.setIfInBounds location (some v) } := by
  have hbinds := m.store.binds_define (h.memory.inner hslot).2 name v
  have hgrows := h.grows_write hbinds p
  refine ⟨hgrows, h.bound hbinds ?_ hgrows (h.memory.write hslot hbinds)⟩
  rintro _ ⟨⟩
  exact hv

/-- A global variable gets a value. -/
theorem writeGlobal (name : String) {v : Value} (hv : w.ValueOk setting v) :
    Layout.Grows p w { w with store := m.store.define globals name v } ∧
      Agrees setting globals p { w with store := m.store.define globals name v }
        { m with store := m.store.define globals name v }
        { l with globals := l.globals.insert name v } := by
  have hbinds := m.store.binds_define h.memory.known name v
  have hgrows := h.grows_write hbinds p
  refine ⟨hgrows, h.bound hbinds ?_ hgrows (h.memory.writeGlobal hbinds)⟩
  rintro _ ⟨⟩
  exact hv

/-- A name of a local scope gets a location. -/
theorem extend (hbinds : m.store.Binds store q name v?) (hv : ∀ v ∈ v?, w.ValueOk setting v)
    (hlocal : q ≠ globals) (hlt : q < m.store.scopes.size)
    (hfresh : ∀ location : Location, w.slots[location]? ≠ some ⟨q, name⟩) :
    Layout.Grows q w { w with store, slots := w.slots.push ⟨q, name⟩ } ∧
      Agrees setting globals p { w with store, slots := w.slots.push ⟨q, name⟩ } { m with store }
        { l with cells := l.cells.push v? } := by
  have hextends := hbinds.extends
  rw [← h.store] at hextends
  have hgrows := Layout.grows_slot (w := w) q hextends name
  exact ⟨hgrows, h.bound hbinds hv hgrows (h.memory.extend hbinds hlocal hlt hfresh)⟩

/-- The slot of the location that is made next. -/
theorem getElem?_push_slot (slot : Slot) : (w.slots.push slot)[l.cells.size]? = some slot := by
  rw [h.memory.size]
  exact Array.getElem?_push_size

/-- The scope that is added next has no slots yet. -/
theorem unused (location : Location) (name : String) :
    w.slots[location]? ≠ some ⟨m.store.scopes.size, name⟩ := by
  intro hslot
  exact Nat.lt_irrefl _ (h.memory.inner hslot).2

theorem newScope (enclosing : Option ScopeId) (q : ScopeId) :
    Layout.Grows q w { w with store := (m.store.newScope { enclosing }).1 } ∧
      Agrees setting globals p { w with store := (m.store.newScope { enclosing }).1 }
        { m with store := (m.store.newScope { enclosing }).1 } l := by
  obtain ⟨store, objects, environments, slots⟩ := w
  obtain rfl : store = m.store := h.store
  have hgrows : Layout.Grows q ⟨m.store, objects, environments, slots⟩
      ⟨(m.store.newScope { enclosing }).1, objects, environments, slots⟩ :=
    Layout.grows_objects q (.newScope m.store _) (.refl _)
  refine ⟨hgrows, ?_⟩
  constructor
  · rfl
  · exact h.objects
  · exact h.environments
  · exact ⟨h.alike.functions, h.alike.classes, h.alike.instances⟩
  · exact (h.held hgrows).newScope nofun
  · exact h.memory.newScope enclosing
  · exact h.globals
  · exact h.scope
  · exact h.distances
  · exact h.callDepth
  · exact h.output

/-- Code starts in a new scope. -/
theorem enter {outer : ScopeId} (hsees : w.Sees ctx outer environment.locations)
    (hlayered : ctx.Layered) :
    Runs globals m.store.scopes.size
      { w with store := (m.store.newScope { enclosing := some outer }).1 } (ctx.enter [])
      { environment with isLocal := true } := by
  have hgrows := (h.newScope (some outer) p).1
  constructor
  · refine (hsees.grows hgrows).enter ?_
    change (m.store.newScope _).1.enclosing? _ = _
    rw [Store.enclosing?_newScope, if_pos rfl]
  · exact hlayered.enter
  · exact fun hslot => absurd hslot (h.unused _ _)
  · rfl
  · constructor
    · exact nofun
    · intro heq
      exact absurd heq.symm (Nat.ne_of_lt h.memory.known)
  · exact Nat.lt_of_lt_of_eq (Nat.lt_succ_self _) (Array.size_push ..).symm

/-- A scope with a single name around the closure of a function. -/
theorem open_ {outer : ScopeId} {locations : Bindings Location} (hsees : w.Sees ctx outer locations)
    (name : String) {v : Value} (hv : w.ValueOk setting v) :
    let new : Scope := { bindings := Bindings.empty.insert name v, enclosing := some outer }
    let w' : Layout :=
      { w with
        store := (m.store.newScope new).1, slots := w.slots.push ⟨m.store.scopes.size, name⟩ }
    Layout.Grows m.store.scopes.size w w' ∧
      Agrees setting globals p w' { m with store := (m.store.newScope new).1 }
        { l with cells := l.cells.push (some v) } ∧
      w'.Sees ((ctx.enter []).declare name) m.store.scopes.size
        (locations.insert name l.cells.size) := by
  intro new w'
  obtain ⟨hgrows, hagrees⟩ := h.newScope (some outer) m.store.scopes.size
  have hbinds : (m.store.newScope { enclosing := some outer }).1.Binds (m.store.newScope new).1
      m.store.scopes.size name (some v) :=
    m.store.binds_newScope _ fun other => Bindings.find?_insert _ _ _ _
  have hv' := hv.grows hgrows
  have hlt : m.store.scopes.size < (m.store.newScope { enclosing := some outer }).1.scopes.size :=
    Nat.lt_of_lt_of_eq (Nat.lt_succ_self _) (Array.size_push ..).symm
  have hlocal : m.store.scopes.size ≠ globals := Nat.ne_of_gt h.memory.known
  obtain ⟨hgrows', hagrees'⟩ :=
    hagrees.extend hbinds (by rintro _ ⟨⟩; exact hv') hlocal hlt fun _ => h.unused _ _
  have hopened : Layout.Grows m.store.scopes.size w w' := hgrows.trans hgrows'
  refine ⟨hopened, hagrees', ?_⟩
  refine ((hsees.grows hopened).enter ?_).declare (List.cons_ne_nil _ _) (h.getElem?_push_slot _)
  change (m.store.newScope new).1.enclosing? _ = _
  rw [Store.enclosing?_newScope, if_pos rfl]

/-- A name that is not declared twice has no value yet. -/
theorem unbound (hruns : Runs globals q w ctx environment) (hscopes : ctx.scopes ≠ []) {name : Name}
    (hclean : Occurrence.Clean ⟨ctx, .declaration name⟩) :
    m.store.findLocal? q name.text = none :=
  h.memory.findLocal?_eq_none (hruns.inner hscopes) (hruns.fresh hclean)

/-- A declared name has a fresh location. -/
theorem declared (hruns : Runs globals q w ctx environment) (hscopes : ctx.scopes ≠ [])
    {name : Name} (hname : name.Ordinary) (hclean : Occurrence.Clean ⟨ctx, .declaration name⟩)
    (hbinds : m.store.Binds store q name.text v?) (hv : ∀ v ∈ v?, w.ValueOk setting v) :
    let w' : Layout := { w with store, slots := w.slots.push ⟨q, name.text⟩ }
    Layout.Grows q w w' ∧
      Agrees setting globals p w' { m with store } { l with cells := l.cells.push v? } ∧
      Runs globals q w' (ctx.declare name.text) (l.extend environment name.text v?).1 := by
  intro w'
  have hlocal := hruns.inner hscopes
  have hlt : q < m.store.scopes.size :=
    Nat.lt_of_lt_of_eq hruns.known (congrArg (·.scopes.size) h.store)
  obtain ⟨hgrows, hagrees⟩ := h.extend hbinds hv hlocal hlt (hruns.fresh hclean)
  refine ⟨hgrows, hagrees, ?_⟩
  obtain ⟨scopes, declared, functionKind, classKind⟩ := ctx
  cases scopes with
  | nil => exact absurd rfl hscopes
  | cons scope outer =>
    constructor
    · exact (hruns.sees.grows hgrows).declare hscopes (h.getElem?_push_slot _)
    · exact hruns.layered.declare hname
    · intro location other hslot
      refine ⟨_, rfl, ?_⟩
      rw [Array.getElem?_push] at hslot
      split at hslot
      · cases hslot
        exact List.mem_cons_self
      · obtain ⟨names, hnames, hmem⟩ := hruns.exact hslot
        cases hnames
        exact List.mem_cons_of_mem _ hmem
    · rfl
    · exact ⟨nofun, fun heq => absurd heq hlocal⟩
    · exact Nat.lt_of_lt_of_le hruns.known hgrows.store.scopes

omit h in
/-- The names of parameters get locations one after the other. -/
theorem parameters (hstrict : setting.strict) {base : Store} {enclosing : Option ScopeId}
    {bindings : Bindings Value} {names : List Name} {arguments : List Value}
    (h : Agrees setting globals p w { m with store := (base.newScope ⟨bindings, enclosing⟩).1 } l)
    (hruns : Runs globals base.scopes.size w ctx environment) (hscopes : ctx.scopes ≠ [])
    (hnames : ∀ o ∈ Stmt.parameterOccurrences ctx names, setting.Admits o)
    (hordinary : ∀ name ∈ names, name.Ordinary) (harguments : ∀ v ∈ arguments, w.ValueOk setting v) :
    let all := (names.zip arguments).foldl (fun b (name, v) => b.shadow name.text v) bindings
    ∃ w', Layout.Grows base.scopes.size w w' ∧
      Agrees setting globals p w' { m with store := (base.newScope ⟨all, enclosing⟩).1 }
        (l.bindParameters environment names arguments).2 ∧
      Runs globals base.scopes.size w' (ctx.declareAll names)
        (l.bindParameters environment names arguments).1 := by
  induction names generalizing w l ctx environment bindings arguments with
  | nil => exact ⟨w, .refl _ w, h, hruns⟩
  | cons name names ih =>
    obtain ⟨hadmits, hnames⟩ := List.forall_mem_cons.mp hnames
    obtain ⟨hname, hordinary⟩ := List.forall_mem_cons.mp hordinary
    have hclean := hadmits.clean hstrict
    have hscopes' : (ctx.declare name.text).scopes ≠ [] := by
      have hlength := ctx.length_declare name.text
      intro hnil
      rw [hnil] at hlength
      exact hscopes (List.length_eq_zero_iff.mp hlength.symm)
    cases arguments with
    | nil =>
      have hbinds := Store.binds_none (h.unbound hruns hscopes hclean)
      obtain ⟨hgrows, hagrees, hruns'⟩ := h.declared hruns hscopes hname hclean hbinds nofun
      obtain ⟨w', hgrows', hrest⟩ :=
        ih hagrees hruns' hscopes' hnames hordinary (List.forall_mem_nil _)
      rw [List.zip_nil_right] at hrest ⊢
      exact ⟨w', hgrows.trans hgrows', hrest⟩
    | cons v arguments =>
      obtain ⟨hv, harguments⟩ := List.forall_mem_cons.mp harguments
      have hbinds : (base.newScope ⟨bindings, enclosing⟩).1.Binds
          (base.newScope ⟨bindings.shadow name.text v, enclosing⟩).1 base.scopes.size name.text
          (some v) :=
        base.binds_newScope enclosing fun other => Bindings.find?_shadow _ _ _ _
      obtain ⟨hgrows, hagrees, hruns'⟩ :=
        h.declared hruns hscopes hname hclean hbinds (by rintro _ ⟨⟩; exact hv)
      have harguments' := fun u hu => (harguments u hu).grows hgrows
      obtain ⟨w', hgrows', hrest⟩ := ih hagrees hruns' hscopes' hnames hordinary harguments'
      exact ⟨w', hgrows.trans hgrows', hrest⟩

/-- Both have more objects and environments, in the same scopes. -/
theorem replace {store objects : Store} {environments : Array Environment}
    (hstore : m.store.Extends store) (hobjects : l.objects.Extends objects)
    (henvironments : ∀ {i : Nat} {environment}, l.environments[i]? = some environment →
      environments[i]? = some environment)
    (halike : store.Alike objects) (hscopes : store.scopes = m.store.scopes)
    (hholds : ∀ {valueOk methodOk}, m.store.Holds valueOk methodOk →
      (∀ v, w.ValueOk setting v → valueOk v) → (∀ f, w.IsMethod setting f → methodOk f) →
        store.Holds valueOk methodOk) :
    Layout.Grows p w ⟨store, objects, environments, w.slots⟩ ∧
      Agrees setting globals p ⟨store, objects, environments, w.slots⟩ { m with store }
        { l with objects, environments } := by
  obtain ⟨oldStore, oldObjects, oldEnvironments, slots⟩ := w
  obtain rfl : oldStore = m.store := h.store
  obtain rfl : oldObjects = l.objects := h.objects
  obtain rfl : oldEnvironments = l.environments := h.environments
  have hgrows : Layout.Grows p ⟨m.store, l.objects, l.environments, slots⟩
      ⟨store, objects, environments, slots⟩ :=
    ⟨hstore, hobjects, henvironments, id, fun h _ _ => h⟩
  refine ⟨hgrows, ?_⟩
  constructor
  · rfl
  · rfl
  · rfl
  · exact halike
  · exact hholds (h.held hgrows) (fun _ hv => hv.grows hgrows) fun _ hf => hf.grows hgrows
  · exact h.memory.of_scopes hscopes
  · exact h.globals
  · exact h.scope
  · exact h.distances
  · exact h.callDepth
  · exact h.output

theorem functions_size : l.objects.functions.size = m.store.functions.size := by
  have hsize := congrArg Array.size h.alike.functions
  rw [Array.size_map, Array.size_map] at hsize
  exact hsize.symm

/-- Functions are made that keep an environment. -/
theorem addFunctions {functions functions' : Array FunctionObject}
    (htext : functions.map FunctionObject.text = functions'.map FunctionObject.text)
    (environment : Environment) :
    let store : Store := { m.store with functions := m.store.functions ++ functions }
    let objects : Store := { l.objects with functions := l.objects.functions ++ functions' }
    let environments := l.environments.push environment
    Layout.Grows p w ⟨store, objects, environments, w.slots⟩ ∧
      Agrees setting globals p ⟨store, objects, environments, w.slots⟩ { m with store }
        { l with objects, environments } := by
  refine h.replace (.addFunctions _ _) (.addFunctions _ _) Store.Extends.getElem?_push
    ⟨?_, h.alike.classes, h.alike.instances⟩ rfl fun hholds _ _ => hholds.withFunctions _
  rw [Array.map_append, Array.map_append, htext, h.alike.functions]

/-- The functions that were added have the numbers that follow. -/
theorem both_addFunctions {functions functions' : Array FunctionObject} {environments}
    {holds : FunctionObject → FunctionObject → Prop} {i : Nat} {object object' : FunctionObject}
    (hobject : functions[i]? = some object) (hobject' : functions'[i]? = some object')
    (hholds : holds object object') :
    let store : Store := { m.store with functions := m.store.functions ++ functions }
    let objects : Store := { l.objects with functions := l.objects.functions ++ functions' }
    Layout.Both ⟨store, objects, environments, w.slots⟩ (m.store.functions.size + i) holds := by
  refine ⟨object, object', ?_, ?_, hholds⟩
  · rw [Array.getElem?_append_right (Nat.le_add_right _ _), Nat.add_sub_cancel_left]
    exact hobject
  · rw [← h.functions_size, Array.getElem?_append_right (Nat.le_add_right _ _),
      Nat.add_sub_cancel_left]
    exact hobject'

/-- A function is made that can be called. -/
theorem addFunction {object object' : FunctionObject} (htext : object.text = object'.text)
    (hclosure : object'.closure = l.environments.size)
    (hwithin : Stmt.FunctionWithin setting.Admits ctx object.declaration)
    (hsees : w.Sees ctx object.closure environment.locations) (hlayered : ctx.Layered)
    (hinitializer : object.isInitializer = true → ctx.distance? "this" = some 0) :
    let store := (m.store.newFunction object).1
    let objects := (l.objects.newFunction object').1
    let environments := l.environments.push environment
    let w' : Layout := ⟨store, objects, environments, w.slots⟩
    Layout.Grows p w w' ∧
      Agrees setting globals p w' { m with store } { l with objects, environments } ∧
      w'.ValueOk setting (.functionRef m.store.functions.size) := by
  intro store objects environments w'
  have htexts : #[object].map FunctionObject.text = #[object'].map FunctionObject.text := by
    rw [List.map_toArray, List.map_toArray, List.map_singleton, List.map_singleton, htext]
  obtain ⟨hgrows, hagrees⟩ := h.addFunctions htexts environment
  have hkeeps : w'.Keeps ctx object object' := by
    refine ⟨environment, ?_, hsees.grows hgrows⟩
    rw [hclosure]
    exact Array.getElem?_push_size
  have hcloses := Layout.Closes.mk hwithin hkeeps hlayered hinitializer
  have hboth := @both_addFunctions _ _ _ _ _ _ h #[object] #[object'] environments
    (fun object object' => ∃ ctx, w'.Closes setting object object' ctx) 0 object object' rfl rfl
    ⟨ctx, hcloses⟩
  exact ⟨hgrows, hagrees, hboth⟩

theorem newClass {c : ClassObject}
    (hmethods : ∀ {name f}, c.methods.find? name = some f → w.IsMethod setting f) :
    let store := (m.store.newClass c).1
    let objects := (l.objects.newClass c).1
    Layout.Grows p w ⟨store, objects, l.environments, w.slots⟩ ∧
      Agrees setting globals p ⟨store, objects, l.environments, w.slots⟩ { m with store }
        { l with objects } := by
  refine h.replace (.newClass _ c) (.newClass _ c) id
    ⟨h.alike.functions, ?_, h.alike.instances⟩ rfl fun hholds _ hmethod => ?_
  · exact congrArg (·.push c) h.alike.classes
  · exact hholds.newClass fun hf => hmethod _ (hmethods hf)

theorem newInstance (c : ClassId) :
    let store := (m.store.newInstance c).1
    let objects := (l.objects.newInstance c).1
    Layout.Grows p w ⟨store, objects, l.environments, w.slots⟩ ∧
      Agrees setting globals p ⟨store, objects, l.environments, w.slots⟩ { m with store }
        { l with objects } := by
  refine h.replace (.newInstance _ c) (.newInstance _ c) id
    ⟨h.alike.functions, h.alike.classes, ?_⟩ rfl fun hholds _ _ => hholds.newInstance c
  exact congrArg (·.push ⟨c, {}⟩) h.alike.instances

theorem setField (i : InstanceId) (name : String) {v : Value} (hv : w.ValueOk setting v) :
    let store := m.store.setField i name v
    let objects := l.objects.setField i name v
    Layout.Grows p w ⟨store, objects, l.environments, w.slots⟩ ∧
      Agrees setting globals p ⟨store, objects, l.environments, w.slots⟩ { m with store }
        { l with objects } := by
  refine h.replace (.setField _ i name v) (.setField _ i name v) id
    ⟨h.alike.functions, h.alike.classes, ?_⟩ rfl fun hholds hvalue _ => ?_
  · exact congrArg (·.modify i fun o => { o with fields := o.fields.insert name v })
      h.alike.instances
  · exact hholds.setField i name (hvalue v hv)

end Agrees
end Lexical
end Lox.Evaluation
