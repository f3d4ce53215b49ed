import Lox.Proofs.Store.Extends

/-!
# Chains of links to older objects

If every link leads to an older object, then the objects on the way from one on are all different and
the way ends. So a search along the links ends, whether or not it is told how many objects there are.
-/
namespace Lox
variable {α : Type} {link link' : Nat → Option Nat} {find? : Nat → Option α}
  {id object next n d : Nat}

/-- The object that is `d` links away. -/
def along (link : Nat → Option Nat) : (d : Nat) → Nat → Option Nat
  | 0, id => some id
  | d + 1, id => (link id).bind (along link d)

/-- Each link leads to an older object. -/
def Descends (link : Nat → Option Nat) : Prop := ∀ id next, link id = some next → next < id

/-- From the object on there are `n` links, and no object is met twice. -/
structure ChainOf (link : Nat → Option Nat) (id n : Nat) : Prop where
  ends : ∀ d, along link d id ≠ none ↔ d ≤ n
  distinct : ∀ d e object, along link d id = some object → along link e id = some object → d = e

/-- A search from the object on, without a limit, and its result: the object itself is looked at
first, and then the one that it links to if there is one. -/
inductive Searches (link : Nat → Option Nat) (find? : Nat → Option α) : Nat → Option α → Prop where
  | found {id : Nat} {a : α} : find? id = some a → Searches link find? id (some a)
  | ended {id : Nat} : find? id = none → link id = none → Searches link find? id none
  | onward {id next : Nat} {result : Option α} : find? id = none → link id = some next →
    Searches link find? next result → Searches link find? id result

theorem along_succ_of_some (h : link id = some next) (d : Nat) :
    along link (d + 1) id = along link d next := by
  rw [along, h]
  rfl

theorem along_succ_of_none (h : link id = none) (d : Nat) : along link (d + 1) id = none := by
  rw [along, h]
  rfl

theorem along_add (link : Nat → Option Nat) (d e id : Nat) :
    along link (d + e) id = (along link d id).bind (along link e) := by
  induction d generalizing id with
  | zero => rw [Nat.zero_add, along, Option.bind_some]
  | succ d ih =>
    rw [Nat.succ_add, along, along, Option.bind_assoc]
    exact congrArg _ (funext ih)

namespace Descends

/-- With each link the object is older. -/
theorem add_le (h : Descends link) (hd : along link d id = some object) : d + object ≤ id := by
  induction d generalizing id with
  | zero =>
    cases hd
    exact Nat.le_of_eq (Nat.zero_add object)
  | succ d ih =>
    obtain ⟨next, hnext, hrest⟩ := Option.bind_eq_some_iff.mp hd
    have hlt := Nat.lt_of_le_of_lt (ih hrest) (h id next hnext)
    omega

/-- A way with links does not lead back. -/
theorem along_ne_self (h : Descends link) (d id : Nat) : along link (d + 1) id ≠ some id := by
  intro hd
  have hle := h.add_le hd
  omega

theorem exists_ends (h : Descends link) (id : Nat) : ∃ n, ∀ d, along link d id ≠ none ↔ d ≤ n := by
  induction id using Nat.strongRecOn with
  | ind id ih =>
    cases hlink : link id with
    | none =>
      refine ⟨0, fun d => ?_⟩
      cases d with
      | zero => exact iff_of_true (Option.some_ne_none id) (Nat.le_refl 0)
      | succ d =>
        rw [along_succ_of_none hlink]
        exact iff_of_false (fun hne => hne rfl) (Nat.not_succ_le_zero d)
    | some next =>
      obtain ⟨n, hn⟩ := ih next (h id next hlink)
      refine ⟨n + 1, fun d => ?_⟩
      cases d with
      | zero => exact iff_of_true (Option.some_ne_none id) (Nat.zero_le _)
      | succ d =>
        rw [along_succ_of_some hlink, hn d]
        exact Nat.succ_le_succ_iff.symm

theorem exists_chain (h : Descends link) (id : Nat) : ∃ n, ChainOf link id n := by
  obtain ⟨n, hn⟩ := h.exists_ends id
  have hle {d e object : Nat} (hd : along link d id = some object)
      (he : along link e id = some object) : e ≤ d := by
    refine Nat.le_of_not_lt fun hlt => ?_
    obtain ⟨k, rfl⟩ := Nat.exists_eq_add_of_lt hlt
    rw [Nat.add_assoc, along_add, hd] at he
    exact h.along_ne_self k object he
  exact ⟨n, hn, fun d e object hd he => Nat.le_antisymm (hle he hd) (hle hd he)⟩

/-- A limit that no object reaches does not stop the search before its end. -/
theorem searches (h : Descends link) {limit : Nat}
    (hbeyond : ∀ id, limit ≤ id → find? id = none ∧ link id = none) (id : Nat) :
    Searches link find? id (firstAlong link find? limit id) := by
  have hbelow : ∀ (limit id : Nat), id < limit →
      Searches link find? id (firstAlong link find? limit id) := by
    intro limit
    induction limit with
    | zero => exact fun id hid => absurd hid (Nat.not_lt_zero id)
    | succ limit ih =>
      intro id hid
      unfold firstAlong
      cases hfind : find? id with
      | some a => exact .found hfind
      | none =>
        cases hlink : link id with
        | none => exact .ended hfind hlink
        | some next =>
          have hnext := Nat.lt_of_lt_of_le (h id next hlink) (Nat.le_of_lt_succ hid)
          exact .onward hfind hlink (ih next hnext)
  by_cases hid : id < limit
  · exact hbelow limit id hid
  · obtain ⟨hfind, hlink⟩ := hbeyond id (Nat.le_of_not_lt hid)
    have hnone : firstAlong link find? limit id = none := by
      cases limit with
      | zero => rfl
      | succ limit =>
        rw [Store.firstAlong_last (Nat.succ_pos limit) hlink]
        exact hfind
    rw [hnone]
    exact .ended hfind hlink

/-- Links of objects that are there lead to objects that are there, so the way is the same if these
objects keep their links. -/
theorem along_congr (h : Descends link) (hlink : ∀ id < n, link' id = link id) (hid : id < n)
    (d : Nat) : along link' d id = along link d id := by
  induction d generalizing id with
  | zero => rfl
  | succ d ih =>
    rw [along, along, hlink id hid]
    cases hnext : link id with
    | none => rfl
    | some next => exact ih (Nat.lt_trans (h id next hnext) hid)

end Descends

/-- A search has one result. -/
theorem Searches.unique {result result' : Option α} (h : Searches link find? id result)
    (h' : Searches link find? id result') : result = result' := by
  induction h with
  | found hfind =>
    cases h' with
    | found hfind' => exact hfind.symm.trans hfind'
    | ended hnone _ | onward hnone _ _ => exact absurd (hfind.symm.trans hnone) nofun
  | ended hnone hlink =>
    cases h' with
    | found hfind => exact absurd (hnone.symm.trans hfind) nofun
    | ended _ _ => rfl
    | onward _ hnext _ => exact absurd (hlink.symm.trans hnext) nofun
  | onward hnone hnext _ ih =>
    cases h' with
    | found hfind => exact absurd (hnone.symm.trans hfind) nofun
    | ended _ hlink => exact absurd (hlink.symm.trans hnext) nofun
    | onward _ hnext' hrest =>
      obtain rfl := Option.some.inj (hnext.symm.trans hnext')
      exact ih hrest

end Lox
