import Lox.Proofs.Evaluation.Steps
import Lox.Proofs.Store.Binds
import Lox.Proofs.Store.Chains

/-!
# Access by name and by distance

A variable is read and written in the nearest scope that binds its name, or in the scope that is a
given number of steps out. If the number is that of the nearest scope with the name, both are the
same: they read one value, and they write one binding and nothing else. Scopes are made inside older
ones only, so the way outwards ends and the nearest scope is found.
-/
namespace Lox

/-- What is done to scopes. -/
inductive ScopeOperation where
  /-- Makes a scope with none around it. -/
  | create
  /-- Makes a scope inside another. -/
  | nest (outer : ScopeId)
  | define (scope : ScopeId) (name : String) (value : Value)
  /-- Assigns in the nearest scope that binds the name. -/
  | assign (scope : ScopeId) (name : String) (value : Value)
  /-- Assigns in the scope that is `distance` steps out. -/
  | assignAt (scope : ScopeId) (distance : Nat) (name : String) (value : Value)

/-- The scopes after an operation; they stay as they are if it cannot be done. -/
def ScopeOperation.perform (store : Store) : ScopeOperation → Store
  | create => (store.newScope {}).1
  | nest outer =>
    if outer < store.scopes.size then (store.newScope { enclosing := some outer }).1 else store
  | define scope name value => store.define scope name value
  | assign scope name value => (store.assign? scope name value).getD store
  | assignAt scope distance name value =>
    match store.ancestor? distance scope with
    | some target => store.define target name value
    | none => store

namespace Store
variable {a b store : Store} {s scope outer holder : ScopeId} {name : String} {d : Nat}
  {v value old : Value}

/-- The scopes that some operations make, one after the other. -/
def ofOperations (operations : List ScopeOperation) : Store :=
  operations.foldl ScopeOperation.perform {}

/-- The value that a name has in the scope `distance` steps out. -/
def valueAt? (store : Store) (distance : Nat) (scope : ScopeId) (name : String) : Option Value :=
  (store.ancestor? distance scope).bind (store.findLocal? · name)

/-- The scope `distance` steps out is the nearest that binds the name. -/
structure NearestAt (store : Store) (scope : ScopeId) (name : String) (distance : Nat) : Prop where
  binds : store.valueAt? distance scope name ≠ none
  first : ∀ d < distance, store.valueAt? d scope name = none

/-- Each scope stands inside an older one. -/
def Nested (store : Store) : Prop := ∀ s outer, store.enclosing? s = some outer → outer < s

theorem Nested.define (h : store.Nested) (scope : ScopeId) (name : String) (value : Value) :
    (store.define scope name value).Nested := by
  intro s outer hs
  rw [enclosing?_define] at hs
  exact h s outer hs

theorem Nested.newScope (h : store.Nested) {new : Scope}
    (hnew : ∀ outer, new.enclosing = some outer → outer < store.scopes.size) :
    (store.newScope new).1.Nested := by
  intro s outer hs
  rw [enclosing?_newScope] at hs
  split at hs
  · next heq => exact heq ▸ hnew outer hs
  · exact h s outer hs

theorem Nested.perform (h : store.Nested) (operation : ScopeOperation) :
    (operation.perform store).Nested := by
  cases operation with
  | create => exact h.newScope nofun
  | nest outer =>
    change (if _ then _ else _ : Store).Nested
    split
    · next hlt =>
      refine h.newScope fun other hother => ?_
      cases hother
      exact hlt
    · exact h
  | define scope name value => exact h.define scope name value
  | assign scope name value =>
    change ((store.assign? scope name value).getD store).Nested
    unfold assign?
    cases store.holder? scope name with
    | none => exact h
    | some holder => exact h.define holder name value
  | assignAt scope distance name value =>
    change (match store.ancestor? distance scope with
      | some target => store.define target name value
      | none => store : Store).Nested
    cases store.ancestor? distance scope with
    | none => exact h
    | some target => exact h.define target name value

theorem nested_ofOperations (operations : List ScopeOperation) :
    (ofOperations operations).Nested := by
  suffices hall : ∀ store : Store, store.Nested →
      (operations.foldl ScopeOperation.perform store).Nested by
    exact hall {} fun _ _ hs => by cases hs
  induction operations with
  | nil => exact fun _ h => h
  | cons operation operations ih => exact fun store h => ih _ (h.perform operation)

theorem ancestor?_eq_along (store : Store) (d : Nat) (s : ScopeId) :
    store.ancestor? d s = along store.enclosing? d s := by
  induction d generalizing s with
  | zero => rfl
  | succ d ih =>
    rw [ancestor?_succ, along]
    exact congrArg _ (funext ih)

/-- Each step outwards leads to an older scope. -/
theorem Nested.add_le (h : store.Nested) (hd : store.ancestor? d s = some outer) :
    d + outer ≤ s := by
  rw [ancestor?_eq_along] at hd
  exact Descends.add_le h hd

/-- A way outwards is shorter than there are scopes. -/
theorem Nested.distance_lt (h : store.Nested) (hd : store.ancestor? d s = some outer)
    (houter : outer < store.scopes.size) : d < store.scopes.size := by
  cases d with
  | zero => exact Nat.zero_lt_of_lt houter
  | succ d =>
    have hle := h.add_le hd
    rw [ancestor?_succ, Option.bind_eq_some_iff] at hd
    obtain ⟨next, hnext, -⟩ := hd
    exact Nat.lt_of_le_of_lt (Nat.le_of_add_right_le hle) (lt_of_enclosing? hnext)

/-- What is looked for from the inside out is found in the first place that has it. -/
theorem firstAlong_eq_some {α : Type} {find? : ScopeId → Option α} {limit : Nat} {x : α}
    (hlimit : d < limit) (hd : store.ancestor? d s = some outer) (hfound : find? outer = some x)
    (hfirst : ∀ e < d, ∀ between, store.ancestor? e s = some between → find? between = none) :
    firstAlong store.enclosing? find? limit s = some x := by
  induction d generalizing s limit with
  | zero =>
    cases hd
    obtain ⟨limit, rfl⟩ := Nat.exists_eq_add_of_lt hlimit
    unfold firstAlong
    rw [hfound]
  | succ d ih =>
    obtain ⟨limit, rfl⟩ : ∃ n, limit = n + 1 := ⟨limit - 1, by omega⟩
    rw [ancestor?_succ, Option.bind_eq_some_iff] at hd
    obtain ⟨next, hnext, hrest⟩ := hd
    unfold firstAlong
    rw [hfirst 0 (Nat.succ_pos d) s rfl, hnext]
    refine ih (by omega) hrest fun e he between hbetween => ?_
    refine hfirst (e + 1) (by omega) between ?_
    rw [ancestor?_succ, hnext]
    exact hbetween

/-- Where no place has it, nothing is found. -/
theorem firstAlong_eq_none {α : Type} {find? : ScopeId → Option α} (limit : Nat)
    (hnone : ∀ d outer, store.ancestor? d s = some outer → find? outer = none) :
    firstAlong store.enclosing? find? limit s = none := by
  induction limit generalizing s with
  | zero => rfl
  | succ limit ih =>
    unfold firstAlong
    rw [hnone 0 s rfl]
    cases hnext : store.enclosing? s with
    | none => rfl
    | some next =>
      refine ih fun d outer hd => hnone (d + 1) outer ?_
      rw [ancestor?_succ, hnext]
      exact hd

theorem findLocal?_of_valueAt? (hnone : store.valueAt? d s name = none)
    (hd : store.ancestor? d s = some outer) : store.findLocal? outer name = none := by
  unfold valueAt? at hnone
  rw [hd] at hnone
  exact hnone

/-- Looking from the inside out finds the scope at the least distance, and the value there. -/
theorem NearestAt.found (h : store.NearestAt scope name d) (hstore : store.Nested) :
    ∃ holder old, store.ancestor? d scope = some holder ∧ store.findLocal? holder name = some old ∧
      store.holder? scope name = some holder ∧ store.lookup? scope name = some old := by
  obtain ⟨old, hvalue⟩ := Option.ne_none_iff_exists'.mp h.binds
  obtain ⟨holder, hd, hold⟩ := Option.bind_eq_some_iff.mp hvalue
  have hlimit := hstore.distance_lt hd (lt_of_findLocal? hold)
  refine ⟨holder, old, hd, hold, firstAlong_eq_some hlimit hd ?_ ?_,
    firstAlong_eq_some hlimit hd hold ?_⟩
  · rw [hold]
    rfl
  · intro e he between hbetween
    rw [findLocal?_of_valueAt? (h.first e he) hbetween]
    rfl
  · exact fun e he between hbetween => findLocal?_of_valueAt? (h.first e he) hbetween

theorem not_found (hnone : ∀ d, store.valueAt? d scope name = none) :
    store.holder? scope name = none ∧ store.lookup? scope name = none := by
  refine ⟨firstAlong_eq_none _ fun d outer hd => ?_, firstAlong_eq_none _ fun d outer hd => ?_⟩
  · rw [findLocal?_of_valueAt? (hnone d) hd]
    rfl
  · exact findLocal?_of_valueAt? (hnone d) hd

theorem Binds.ancestor? (h : a.Binds b scope name (some v)) (d : Nat) (s : ScopeId) :
    b.ancestor? d s = a.ancestor? d s := by
  induction d generalizing s with
  | zero => rfl
  | succ d ih =>
    rw [ancestor?_succ, ancestor?_succ, h.enclosing]
    cases a.enclosing? s with
    | none => rfl
    | some outer => exact ih outer

/-- By distance the new value is read wherever the way leads to the scope that was written. -/
theorem Binds.valueAt? (h : a.Binds b scope name (some v)) (d : Nat) (s : ScopeId)
    (other : String) :
    b.valueAt? d s other =
      if a.ancestor? d s = some scope ∧ other = name then some v else a.valueAt? d s other := by
  unfold Store.valueAt?
  rw [h.ancestor?]
  cases a.ancestor? d s with
  | none => rfl
  | some outer =>
    simp only [Option.bind_some, h.findLocal, Option.some.injEq]

/-- By name the new value is read wherever the scope that was written is the nearest one. -/
theorem Binds.lookup? (h : a.Binds b scope name (some v))
    (hold : a.findLocal? scope name = some old) (s : ScopeId) (other : String) :
    b.lookup? s other =
      if a.holder? s other = some scope ∧ other = name then some v else a.lookup? s other := by
  unfold Store.lookup? Store.holder?
  rw [h.size]
  generalize a.scopes.size = limit
  induction limit generalizing s with
  | zero => rfl
  | succ limit ih =>
    unfold firstAlong
    rw [h.findLocal, h.enclosing]
    cases hs : a.findLocal? s other with
    | some u =>
      simp only [Option.isSome_some, if_true, Option.some.injEq]
      by_cases hsame : s = scope ∧ other = name
      · rw [if_pos hsame]
      · rw [if_neg hsame]
    | none =>
      have hother : ¬ (s = scope ∧ other = name) := by
        rintro ⟨rfl, rfl⟩
        rw [hs] at hold
        cases hold
      rw [if_neg hother]
      cases a.enclosing? s with
      | none => simp
      | some outer => simpa using ih outer

end Store

namespace Evaluation
open Store

/-- Whatever operations have made the scopes, a name is read and assigned to from the inside out as
it is at the least distance at which a scope binds it. Assigning changes that one binding: another
scope sees the new value if its way outwards leads there, and all else is read as before. Where no
scope binds the name, reading it and assigning to it fail at its line, and nothing changes. -/
theorem access_agrees (operations : List ScopeOperation) (m : Machine) (scope : ScopeId)
    (name : Name) (value : Value) :
    let store := ofOperations operations
    let here : Machine := { m with store, scope, globals := scope }
    (∀ distance, store.NearestAt scope name.text distance →
      ∃ holder old after, store.ancestor? distance scope = some holder ∧
        store.findLocal? holder name.text = some old ∧
        readGlobal name here = .ok old here ∧ readAt distance name here = .ok old here ∧
        store.assign? scope name.text value = some after ∧
        writeFrom scope name value here = .ok () { here with store := after } ∧
        writeAt distance name.text value here = .ok () { here with store := after } ∧
        store.Binds after holder name.text (some value) ∧
        (∀ s other, after.lookup? s other =
          if store.holder? s other = some holder ∧ other = name.text then some value
          else store.lookup? s other) ∧
        ∀ d s other, after.valueAt? d s other =
          if store.ancestor? d s = some holder ∧ other = name.text then some value
          else store.valueAt? d s other) ∧
    ((∀ distance, store.valueAt? distance scope name.text = none) →
      ∃ error : RuntimeError,
        error.diagnostic = .runtime name.line ("Undefined variable '" ++ name.text ++ "'.") ∧
        readGlobal name here = .error (.failure error) here ∧
        writeFrom scope name value here = .error (.failure error) here ∧
        store.assign? scope name.text value = none) := by
  intro store here
  have hnested : store.Nested := nested_ofOperations operations
  constructor
  · intro distance hnearest
    obtain ⟨holder, old, hd, hold, hholder, hlookup⟩ := hnearest.found hnested
    have hbinds := store.binds_define (lt_of_findLocal? hold) name.text value
    refine ⟨holder, old, store.define holder name.text value, hd, hold, ?_, ?_, ?_, ?_, ?_, hbinds,
      hbinds.lookup? hold, hbinds.valueAt?⟩
    · rw [readGlobal_apply, hlookup]
    · rw [readAt_apply, hd]
      dsimp only
      rw [hold]
    · rw [assign?, hholder]
    · rw [writeFrom_apply, hholder]
    · rw [writeAt_apply, hd]
  · intro hnone
    obtain ⟨hholder, hlookup⟩ := not_found hnone
    refine ⟨⟨.undefinedVariable name.text, name.line⟩, rfl, ?_, ?_, ?_⟩
    · rw [readGlobal_apply, hlookup]
    · rw [writeFrom_apply, hholder]
    · rw [assign?, hholder]

/-- Two scopes inside one that hides a variable of the outermost. -/
def branchingOperations : List ScopeOperation :=
  [.create, .define 0 "a" .nil, .nest 0, .define 1 "a" (.bool true), .nest 1, .nest 1]

/-- In one of the two the variable is assigned to; in the other it has the new value then, and in
the outermost the old one. A name that no scope binds is not found. -/
theorem access_agrees_branching :
    let store := ofOperations branchingOperations
    let here : Machine := { Machine.initial with store, scope := 2, globals := 2 }
    (store.NearestAt 2 "a" 1 ∧ ∀ distance, store.valueAt? distance 2 "b" = none) ∧
      (∃ after, writeFrom 2 ⟨"a", 7⟩ (.bool false) here = .ok () { here with store := after } ∧
        after.lookup? 3 "a" = some (.bool false) ∧ after.lookup? 0 "a" = some .nil) ∧
      ∃ error : RuntimeError, error.diagnostic = .runtime 7 "Undefined variable 'b'." ∧
        writeFrom 2 ⟨"b", 7⟩ (.bool false) here = .error (.failure error) here := by
  intro store here
  have hnearest : store.NearestAt 2 "a" 1 := by
    refine ⟨by decide, fun d hd => ?_⟩
    obtain rfl : d = 0 := Nat.lt_one_iff.mp hd
    rfl
  have hnone : ∀ distance, store.valueAt? distance 2 "b" = none
    | 0 | 1 | 2 | _ + 3 => rfl
  refine ⟨⟨hnearest, hnone⟩, ?_, ?_⟩
  · obtain ⟨holder, old, after, hd, -, -, -, -, hwrite, -, -, hlookup, -⟩ :=
      (access_agrees branchingOperations Machine.initial 2 ⟨"a", 7⟩ (.bool false)).1 1 hnearest
    cases hd
    exact ⟨after, hwrite, hlookup 3 "a", hlookup 0 "a"⟩
  · obtain ⟨error, hmessage, -, hwrite, -⟩ :=
      (access_agrees branchingOperations Machine.initial 2 ⟨"b", 7⟩ (.bool false)).2 hnone
    exact ⟨error, hmessage, hwrite⟩

end Evaluation
end Lox
