import Lox.Proofs.Dispatch.Shape
import Lox.Proofs.Evaluation.Steps
import Lox.Proofs.Store.Holds

/-!
# Sound objects

What holds of the objects of every observed machine: each function closes over scopes of the shape
that was around its declaration, values lead to objects that exist, and superclasses are older than
their subclasses. Every operation of the store keeps this.
-/
namespace Lox.Evaluation
open Resolution

/-- A store with the homes of its functions. -/
structure Objects where
  store : Store
  homes : Array Home

namespace Objects

/-- The function is declared where the context is `ctx`, in scopes of that shape. An initializer
closes over a scope in which `this` is an instance. -/
structure Closes (setting : Setting) (w : Objects) (f : FunctionId) (object : FunctionObject)
    (home : Home) (ctx : Context) : Prop where
  function : w.store.functions[f]? = some object
  homeOf : w.homes[f]? = some home
  within : Stmt.FunctionWithin setting.Admits ctx object.declaration
  fits : Fits w.store ctx object.closure home
  initializer : object.isInitializer = true →
    ∃ i, w.store.findLocal? object.closure "this" = some (.instanceRef i)

/-- The function is a method that is not bound. -/
structure Unbound (setting : Setting) (w : Objects) (f : FunctionId) (object : FunctionObject)
    (home : Home) (around : Context) (kind : ClassKind) : Prop where
  function : w.store.functions[f]? = some object
  homeOf : w.homes[f]? = some home
  within : Stmt.FunctionWithin setting.Admits
    ((around.method kind).inFunction (kindOfMethod object.declaration)) object.declaration
  fits : FitsClass w.store around kind object.closure home

def IsMethod (setting : Setting) (w : Objects) (f : FunctionId) : Prop :=
  ∃ object home around kind, w.Unbound setting f object home around kind

def ValueOk (setting : Setting) (w : Objects) : Value → Prop
  | .functionRef f => ∃ object home ctx, w.Closes setting f object home ctx
  | .classRef c => c < w.store.classes.size
  | .instanceRef i => i < w.store.instances.size
  | .nil | .bool _ | .number _ | .string _ => True

structure Grows (a b : Objects) : Prop where
  store : Preserves a.store b.store
  homes : ∀ {f : FunctionId} {home}, a.homes[f]? = some home → b.homes[f]? = some home

/-- A method is declared under the name that its class has it under. It is an initializer if that is
the name of initializers. -/
def Named (store : Store) (name : String) (f : FunctionId) : Prop :=
  ∃ object, store.functions[f]? = some object ∧ object.declaration.name.text = name ∧
    object.isInitializer = object.declaration.isInitializer

structure Sound (setting : Setting) (w : Objects) : Prop where
  holds : w.store.Holds (w.ValueOk setting) (w.IsMethod setting)
  named : ∀ {c name f}, w.store.ownMethod? c name = some f → Named w.store name f
  superclasses : ∀ {c d}, w.store.superclass? c = some d → d < c
  homes : w.homes.size = w.store.functions.size
  known : outermostScope < w.store.scopes.size
  top : w.store.enclosing? outermostScope = none

variable {setting : Setting} {a b c w : Objects}

theorem Grows.refl (a : Objects) : a.Grows a := ⟨.refl a.store, id⟩

theorem Grows.trans (h : a.Grows b) (h' : b.Grows c) : a.Grows c :=
  ⟨h.store.trans h'.store, fun hf => h'.homes (h.homes hf)⟩

theorem Named.grows {name : String} {f : FunctionId} (h : Named a.store name f) (hab : a.Grows b) :
    Named b.store name f := by
  obtain ⟨object, hobject, hname⟩ := h
  exact ⟨object, hab.store.store.functions hobject, hname⟩

theorem Closes.grows {f : FunctionId} {object : FunctionObject} {home : Home} {ctx : Context}
    (h : a.Closes setting f object home ctx) (hab : a.Grows b) :
    b.Closes setting f object home ctx := by
  constructor
  · exact hab.store.store.functions h.function
  · exact hab.homes h.homeOf
  · exact h.within
  · exact h.fits.preserved hab.store
  · intro hinitializer
    obtain ⟨i, hi⟩ := h.initializer hinitializer
    exact ⟨i, hab.store.special (.inl rfl) hi⟩

theorem IsMethod.grows {f : FunctionId} (h : a.IsMethod setting f) (hab : a.Grows b) :
    b.IsMethod setting f := by
  obtain ⟨object, home, around, kind, hmethod⟩ := h
  refine ⟨object, home, around, kind, ?_⟩
  constructor
  · exact hab.store.store.functions hmethod.function
  · exact hab.homes hmethod.homeOf
  · exact hmethod.within
  · exact hmethod.fits.preserved hab.store

theorem ValueOk.grows {v : Value} (h : a.ValueOk setting v) (hab : a.Grows b) :
    b.ValueOk setting v := by
  cases v with
  | functionRef f =>
    obtain ⟨object, home, ctx, hcloses⟩ := h
    exact ⟨object, home, ctx, hcloses.grows hab⟩
  | classRef c =>
    have hclass := hab.store.store.classes (Array.getElem?_eq_getElem h)
    exact (Array.getElem?_eq_some_iff.mp hclass).1
  | instanceRef i => exact hab.store.store.instances_lt h
  | nil | bool _ | number _ | string _ => trivial

section
variable {next : Setting} (hlater : setting.Later next)
include hlater

theorem IsMethod.later {f : FunctionId} (h : w.IsMethod setting f) : w.IsMethod next f := by
  obtain ⟨object, home, around, kind, hmethod⟩ := h
  have hwithin := hmethod.within.imp fun _ ho => ho.later hlater
  exact ⟨object, home, around, kind, hmethod.function, hmethod.homeOf, hwithin, hmethod.fits⟩

theorem ValueOk.later {v : Value} (h : w.ValueOk setting v) : w.ValueOk next v := by
  cases v with
  | functionRef f =>
    obtain ⟨object, home, ctx, hcloses⟩ := h
    have hwithin := hcloses.within.imp fun _ ho => ho.later hlater
    exact ⟨object, home, ctx, hcloses.function, hcloses.homeOf, hwithin, hcloses.fits,
      hcloses.initializer⟩
  | classRef c => exact h
  | instanceRef i => exact h
  | nil | bool _ | number _ | string _ => trivial

theorem Sound.later (h : w.Sound setting) : w.Sound next :=
  ⟨h.holds.imp (fun _ hv => hv.later hlater) fun _ hf => hf.later hlater, h.named, h.superclasses,
    h.homes, h.known, h.top⟩

end

theorem nearest_of_findMethod? {store : Store} {c : ClassId} {name : String} {f : FunctionId}
    (h : store.findMethod? c name = some f) : Nearest store name c f := by
  unfold Store.findMethod? at h
  revert h
  generalize store.classes.size = limit
  intro h
  induction limit generalizing c with
  | zero => cases h
  | succ limit ih =>
    unfold firstAlong at h
    split at h
    · next g hg =>
      cases h
      exact .own hg
    · next hnone =>
      split at h
      · next d hd => exact .inherited hnone hd (ih h)
      · cases h

/-- Since superclasses are older, the search does not stop before the last of them. -/
theorem Sound.findMethod?_of_nearest (h : w.Sound setting) {c : ClassId} {name : String}
    {f : FunctionId} (hf : Nearest w.store name c f) : w.store.findMethod? c name = some f := by
  have hlimit (limit : Nat) (hc : c < limit) :
      firstAlong w.store.superclass? (w.store.ownMethod? · name) limit c = some f := by
    induction hf generalizing limit with
    | own hown =>
      obtain ⟨limit, rfl⟩ := Nat.exists_eq_add_of_lt hc
      unfold firstAlong
      rw [hown]
    | inherited hnone hsuper _ ih =>
      obtain ⟨limit, rfl⟩ := Nat.exists_eq_add_of_lt hc
      have hlt := h.superclasses hsuper
      unfold firstAlong
      rw [hnone, hsuper]
      exact ih _ (by lia)
  refine hlimit _ ?_
  have hclass {x : Option ClassObject} (hx : w.store.classes[c]? = x) (hsome : x ≠ none) :
      c < w.store.classes.size := by
    obtain ⟨o, rfl⟩ := Option.ne_none_iff_exists'.mp hsome
    exact (Array.getElem?_eq_some_iff.mp hx).1
  cases hf with
  | own hown =>
    refine hclass rfl fun hnone => ?_
    rw [Store.ownMethod?, hnone] at hown
    cases hown
  | inherited _ hsuper _ =>
    refine hclass rfl fun hnone => ?_
    rw [Store.superclass?, hnone] at hsuper
    cases hsuper

/-- What was held before is so still. -/
theorem Sound.held (h : a.Sound setting) (hab : a.Grows b) :
    a.store.Holds (b.ValueOk setting) (b.IsMethod setting) :=
  h.holds.imp (fun _ hv => hv.grows hab) fun _ hf => hf.grows hab

theorem Sound.outermost (h : a.Sound setting) (hab : a.Grows b) :
    outermostScope < b.store.scopes.size :=
  Nat.lt_of_lt_of_le h.known hab.store.store.scopes

theorem grows_define (w : Objects) (scope : ScopeId) {name : String} (hname : ¬ Special name)
    (v : Value) : w.Grows { w with store := w.store.define scope name v } :=
  ⟨.define w.store scope hname v, id⟩

theorem Sound.define (h : w.Sound setting) (scope : ScopeId) {name : String} (hname : ¬ Special name)
    {v : Value} (hv : ValueOk setting { w with store := w.store.define scope name v } v) :
    Sound setting { w with store := w.store.define scope name v } :=
  have hgrows := grows_define w scope hname v
  ⟨(h.held hgrows).define scope name hv, h.named, h.superclasses, h.homes, h.outermost hgrows,
    (Store.enclosing?_define ..).trans h.top⟩

theorem grows_newScope (w : Objects) (new : Scope) :
    w.Grows { w with store := (w.store.newScope new).1 } :=
  ⟨.newScope w.store new, id⟩

theorem Sound.newScope (h : w.Sound setting) {new : Scope}
    (hnew : ∀ {name v}, new.bindings.find? name = some v → w.ValueOk setting v) :
    Sound setting { w with store := (w.store.newScope new).1 } := by
  have hgrows := grows_newScope w new
  refine ⟨(h.held hgrows).newScope fun hv => (hnew hv).grows hgrows, h.named, h.superclasses,
    h.homes, h.outermost hgrows, ?_⟩
  rw [Store.enclosing?_newScope, if_neg (Nat.ne_of_lt h.known)]
  exact h.top

/-- The objects after functions and their homes were added. -/
def addFunctions (w : Objects) (functions : Array FunctionObject) (homes : Array Home) : Objects :=
  ⟨{ w.store with functions := w.store.functions ++ functions }, w.homes ++ homes⟩

theorem grows_addFunctions (w : Objects) (functions : Array FunctionObject) (homes : Array Home) :
    w.Grows (addFunctions w functions homes) := by
  constructor
  · exact .of_scopes (.addFunctions w.store functions) rfl
  · exact Store.Extends.getElem?_append

theorem Sound.addFunctions (h : w.Sound setting) {functions : Array FunctionObject}
    {homes : Array Home} (hsize : homes.size = functions.size) :
    Sound setting (addFunctions w functions homes) := by
  have hgrows := grows_addFunctions w functions homes
  refine ⟨(h.held hgrows).withFunctions _, fun hf => (h.named hf).grows hgrows, h.superclasses, ?_,
    h.outermost hgrows, h.top⟩
  change (w.homes ++ homes).size = (w.store.functions ++ functions).size
  rw [Array.size_append, Array.size_append, h.homes, hsize]

theorem grows_newClass (w : Objects) (c : ClassObject) :
    w.Grows { w with store := (w.store.newClass c).1 } :=
  ⟨.of_scopes (.newClass w.store c) rfl, id⟩

theorem Sound.newClass (h : w.Sound setting) {new : ClassObject}
    (hsuperclass : ∀ d, new.superclass = some d → d < w.store.classes.size)
    (hmethods : ∀ {name f}, new.methods.find? name = some f →
      w.IsMethod setting f ∧ Named w.store name f) :
    Sound setting { w with store := (w.store.newClass new).1 } := by
  have hgrows := grows_newClass w new
  refine ⟨(h.held hgrows).newClass fun hf => (hmethods hf).1.grows hgrows, fun {c name f} hf => ?_,
    fun {c d} hd => ?_, h.homes, h.outermost hgrows, h.top⟩
  · unfold Store.ownMethod? at hf
    rw [Store.getElem?_newClass] at hf
    split at hf
    · exact (hmethods hf).2.grows hgrows
    · exact (h.named hf).grows hgrows
  unfold Store.superclass? at hd
  rw [Store.getElem?_newClass] at hd
  split at hd
  · next heq =>
    rw [heq]
    exact hsuperclass d hd
  · exact h.superclasses hd

theorem grows_newInstance (w : Objects) (c : ClassId) :
    w.Grows { w with store := (w.store.newInstance c).1 } :=
  ⟨.of_scopes (.newInstance w.store c) rfl, id⟩

theorem Sound.newInstance (h : w.Sound setting) (c : ClassId) :
    Sound setting { w with store := (w.store.newInstance c).1 } :=
  have hgrows := grows_newInstance w c
  ⟨(h.held hgrows).newInstance c, h.named, h.superclasses, h.homes, h.outermost hgrows, h.top⟩

theorem grows_setField (w : Objects) (i : InstanceId) (name : String) (v : Value) :
    w.Grows { w with store := w.store.setField i name v } :=
  ⟨.of_scopes (.setField w.store i name v) rfl, id⟩

theorem Sound.setField (h : w.Sound setting) (i : InstanceId) (name : String) {v : Value}
    (hv : w.ValueOk setting v) :
    Sound setting { w with store := w.store.setField i name v } := by
  have hgrows := grows_setField w i name v
  exact ⟨(h.held hgrows).setField i name (hv.grows hgrows), h.named, h.superclasses, h.homes,
    h.outermost hgrows, h.top⟩

/-- A function that was made can be called once the scope that it closes over fits. -/
theorem closes_addFunctions {ctx : Context} {scope : ScopeId} {home : Home} {after : Objects}
    (hw : w.Sound setting) {object : FunctionObject}
    (hafter : (w.addFunctions #[object] #[home]).Grows after) (hclosure : object.closure = scope)
    (hwithin : Stmt.FunctionWithin setting.Admits ctx object.declaration)
    (hfits : Fits after.store ctx scope home)
    (hinitializer : object.isInitializer = true →
      ∃ i, after.store.findLocal? scope "this" = some (.instanceRef i)) :
    after.ValueOk setting (.functionRef w.store.functions.size) := by
  refine ⟨object, home, ctx, ?_⟩
  constructor
  · exact hafter.store.store.functions Array.getElem?_push_size
  · refine hafter.homes ?_
    change (w.homes ++ #[home])[w.store.functions.size]? = some home
    rw [← hw.homes]
    exact Array.getElem?_push_size
  · exact hwithin
  · rw [hclosure]
    exact hfits
  · rw [hclosure]
    exact hinitializer

/-- The objects after a method was bound. -/
def bind (w : Objects) (object : FunctionObject) (home : Home) (i : InstanceId) : Objects :=
  ⟨(w.store.bindMethod object i).1, w.homes ++ #[{ home with receiver := some i }]⟩

/-- The scope of a bound method. -/
def thisScope (object : FunctionObject) (i : InstanceId) : Scope :=
  { bindings := Bindings.empty.insert "this" (.instanceRef i), enclosing := some object.closure }

theorem bind_eq (w : Objects) (object : FunctionObject) (home : Home) (i : InstanceId) :
    w.bind object home i =
      addFunctions { w with store := (w.store.newScope (thisScope object i)).1 }
        #[{ object with closure := w.store.scopes.size }] #[{ home with receiver := some i }] :=
  rfl

theorem grows_bind (w : Objects) (object : FunctionObject) (home : Home) (i : InstanceId) :
    w.Grows (w.bind object home i) := by
  rw [bind_eq]
  exact (w.grows_newScope _).trans (grows_addFunctions _ _ _)

theorem find?_thisScope {object : FunctionObject} {i : InstanceId} {name : String} {v : Value}
    (h : (thisScope object i).bindings.find? name = some v) : v = .instanceRef i := by
  unfold thisScope at h
  rw [Bindings.find?_insert] at h
  split at h
  · cases h
    rfl
  · cases h

theorem Sound.bind (h : w.Sound setting) {object : FunctionObject} {i : InstanceId}
    (hi : i < w.store.instances.size) (home : Home) : (w.bind object home i).Sound setting := by
  rw [bind_eq]
  refine (h.newScope fun hv => ?_).addFunctions rfl
  rw [find?_thisScope hv]
  exact hi

/-- A bound method can be called. -/
theorem Sound.bound (h : w.Sound setting) {f : FunctionId} {object : FunctionObject} {home : Home}
    {around : Context} {kind : ClassKind} (hf : w.Unbound setting f object home around kind)
    {i : InstanceId} (hi : i < w.store.instances.size) :
    (w.bind object home i).ValueOk setting (.functionRef (w.store.bindMethod object i).2) := by
  have hscope : Sound setting { w with store := (w.store.newScope (thisScope object i)).1 } := by
    refine h.newScope fun hv => ?_
    rw [find?_thisScope hv]
    exact hi
  have hfits := (@FitsClass.bind _ _ _ _ _ hf.fits i (thisScope object i) rfl
    (Bindings.find?_insert_self _ _ _)).inFunction (kindOfMethod object.declaration)
  let opened : Objects := { w with store := (w.store.newScope (thisScope object i)).1 }
  let bound : FunctionObject := { object with closure := w.store.scopes.size }
  have hgrows := opened.grows_addFunctions #[bound] #[{ home with receiver := some i }]
  refine @closes_addFunctions _ opened _ _ _ _ hscope bound (.refl _) rfl hf.within
    (hfits.preserved hgrows.store) fun _ => ⟨i, ?_⟩
  exact w.store.findLocal?_bindMethod object i

/-- A function runs in a scope with its arguments inside the one that it closes over. -/
theorem Closes.enter {f : FunctionId} {object : FunctionObject} {home : Home} {around : Context}
    (h : w.Closes setting f object home around) {arguments : List Value}
    (harity : object.declaration.arity = arguments.length) :
    Fits (w.store.newScope
        { bindings := bindArguments object.declaration.parameters arguments
          enclosing := some object.closure }).1
      (around.function object.declaration.parameters) w.store.scopes.size home := by
  refine (@Fits.enter _ _ _ _ h.fits _ rfl).declareAll h.within.ordinary fun parameter hmem => ?_
  obtain ⟨v, hv⟩ := exists_find?_bindArguments harity hmem
  exact w.store.has_newScope hv

/-- Around the methods of a class the scopes have the shape that the static pass saw. -/
theorem Sound.withMethodScope (h : w.Sound setting) {ctx : Context} {scope : ScopeId} {home : Home}
    (hfits : Fits w.store ctx scope home) {superclass : Option ClassId}
    (hsuperclass : ∀ c ∈ superclass, w.ValueOk setting (.classRef c)) :
    w.Grows { w with store := (withMethodScope w.store scope superclass).1 } ∧
      Sound setting { w with store := (withMethodScope w.store scope superclass).1 } ∧
        FitsClass (Evaluation.withMethodScope w.store scope superclass).1 ctx (kindOf superclass)
          (Evaluation.withMethodScope w.store scope superclass).2 { superclass } := by
  cases superclass with
  | none => exact ⟨.refl w, h, hfits.base _⟩
  | some c =>
    refine ⟨w.grows_newScope _, h.newScope fun {name v} hv => ?_, ?_⟩
    · rw [Bindings.find?_insert] at hv
      split at hv
      · cases hv
        exact hsuperclass c rfl
      · cases hv
    · exact hfits.inherit rfl (Bindings.find?_insert_self _ _ _)

/-- A method that is made for a class. -/
theorem getElem?_addFunctions_method (w : Objects) (closure : ScopeId) {methods : List FunctionDecl}
    (homes : Array Home) {i : Nat} (hi : i < methods.length) :
    (w.addFunctions (methodObjects closure methods).toArray homes).store.functions[
      w.store.functions.size + i]? = some ⟨methods[i], closure, methods[i].isInitializer⟩ := by
  change (w.store.functions ++ (methodObjects closure methods).toArray)[_]? = _
  rw [Array.getElem?_append_right (Nat.le_add_right _ _), Nat.add_sub_cancel_left]
  simp [methodObjects, hi]

/-- The functions that are made for the methods of a class are methods. -/
theorem isMethod_addFunctions (h : w.Sound setting) {around : Context} {kind : ClassKind}
    {closure : ScopeId} {home : Home} (hfits : FitsClass w.store around kind closure home)
    {methods : List FunctionDecl}
    (hmethods : Stmt.MethodsWithin setting.Admits (around.method kind) methods) {f : FunctionId}
    (hle : w.store.functions.size ≤ f) (hlt : f < w.store.functions.size + methods.length) :
    (w.addFunctions (methodObjects closure methods).toArray
      (Array.replicate methods.length home)).IsMethod setting f := by
  obtain ⟨i, rfl⟩ := Nat.exists_eq_add_of_le hle
  have hi : i < methods.length := by lia
  refine ⟨⟨methods[i], closure, methods[i].isInitializer⟩, home, around, kind, ?_⟩
  constructor
  · exact getElem?_addFunctions_method w closure _ hi
  · change (w.homes ++ Array.replicate methods.length home)[_]? = some home
    rw [← h.homes, Array.getElem?_append_right (Nat.le_add_right _ _), Nat.add_sub_cancel_left]
    simp [hi]
  · exact hmethods _ (List.getElem_mem hi)
  · exact hfits.preserved (w.grows_addFunctions _ _).store

theorem Sound.withClass (h : w.Sound setting) {ctx : Context} {scope : ScopeId} {home : Home}
    {name : Name} (hfits : Fits w.store (ctx.superclass name.text) scope home)
    (hname : name.Ordinary) {superclass : Option ClassId}
    (hsuperclass : ∀ c ∈ superclass, w.ValueOk setting (.classRef c)) {methods : List FunctionDecl}
    (hmethods : Stmt.MethodsWithin setting.Admits
      ((ctx.declare name.text).method (kindOf superclass)) methods) :
    let made := Evaluation.withClass w.store scope name superclass methods
    let inner : Home := { superclass }
    let after : Objects := ⟨made.1, w.homes ++ Array.replicate methods.length inner⟩
    w.Grows after ∧ after.Sound setting ∧ after.ValueOk setting (.classRef made.2) ∧
      Fits made.1 (ctx.declare name.text) scope home := by
  have hspecial := not_special hname
  have hgrows₁ := w.grows_define scope hspecial .nil
  have hsound₁ := h.define scope hspecial (v := .nil) trivial
  have hsuper₁ := fun c hc => (hsuperclass c hc).grows hgrows₁
  have hfits₁ := (hfits.preserved hgrows₁.store).inherited (w.store.has_define hfits.known _ .nil)
  obtain ⟨hgrows₂, hsound₂, hfits₂⟩ := hsound₁.withMethodScope hfits₁ hsuper₁
  have hsuper₂ := fun c hc => (hsuper₁ c hc).grows hgrows₂
  let opened := Evaluation.withMethodScope (w.store.define scope name.text .nil) scope superclass
  let w₂ : Objects := { w with store := opened.1 }
  let functions := (methodObjects opened.2 methods).toArray
  let homes : Array Home := Array.replicate methods.length { superclass }
  have hgrows₃ := w₂.grows_addFunctions functions homes
  have hsize : homes.size = functions.size := by simp [homes, functions, methodObjects]
  have hsound₃ := hsound₂.addFunctions hsize
  let numbers := methodNumbers opened.1.functions.size methods .empty
  let new : ClassObject := ⟨name.text, superclass, numbers⟩
  have hgrows₄ := grows_newClass (w₂.addFunctions functions homes) new
  have hgrows := (hgrows₂.trans hgrows₃).trans hgrows₄
  refine ⟨hgrows₁.trans hgrows, ?_, ?_, hfits₁.preserved hgrows.store⟩
  · refine @Sound.newClass _ _ hsound₃ new (fun d hd => (hsuper₂ d hd).grows hgrows₃) ?_
    intro name f hf
    rcases exists_of_find?_methodNumbers hf with hempty | ⟨i, declaration, rfl, hi, hname⟩
    · cases hempty
    · obtain ⟨hlt, rfl⟩ := List.getElem?_eq_some_iff.mp hi
      refine ⟨isMethod_addFunctions hsound₂ hfits₂ hmethods (Nat.le_add_right _ _)
        (Nat.add_lt_add_left hlt _), ?_⟩
      exact ⟨_, getElem?_addFunctions_method w₂ opened.2 homes hlt, hname, rfl⟩
  · exact Nat.lt_of_lt_of_eq (Nat.lt_succ_self _) (Array.size_push ..).symm

end Objects
end Lox.Evaluation
