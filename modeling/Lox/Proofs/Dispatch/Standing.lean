import Lox.Proofs.Dispatch.InStep

/-!
# Where a machine stands

A machine stands at a place if an observed machine could run there as it does. In a strict setting
this tells what the machine does with `this` and `super`: it finds the receiver of the home under
`this`, and it binds the methods that it finds from the superclass on to that receiver.
-/
namespace Lox.Evaluation.Observed
open Resolution

/-- The machine runs at the place as an observed machine may. -/
def Stands (setting : Setting) (p : Place) (w : Objects) (m : Machine) : Prop :=
  Follows setting p w m ⟨m, w.homes, p.home, #[]⟩

variable {setting : Setting} {p : Place} {w : Objects} {site : Site} {m : Machine} {r : Reference}

theorem stands_of_follows {o : Observed} (h : Follows setting p w m o) : Stands setting p w m := by
  constructor
  · rfl
  · change Objects.mk m.store w.homes = w
    rw [← h.store]
  · exact h.scope
  · rfl
  · exact h.globals
  · exact h.sound
  · exact h.distances
  · exact fun _ => nofun

namespace Stands

theorem states (h : Stands setting p w m) (hfits : Fits w.store site p.scope p.home) :
    (correspondence setting).States p w site m ⟨m, w.homes, p.home, #[]⟩ :=
  ⟨h, hfits⟩

theorem moved (h : Stands setting p w m) (q : Place) :
    Stands setting q w { m with scope := q.scope } :=
  stands_of_follows (Follows.moved h q)

theorem atDepth (h : Stands setting p w m) (depth : Nat) :
    Stands setting p w { m with callDepth := depth } :=
  stands_of_follows (Follows.atDepth h depth)

theorem newScope (h : Stands setting p w m) {new : Scope}
    (hnew : ∀ {name v}, new.bindings.find? name = some v → w.ValueOk setting v) :
    Stands setting p { w with store := (w.store.newScope new).1 }
      { m with store := (m.store.newScope new).1 } :=
  stands_of_follows (Follows.newScope h hnew)

variable (hstrict : setting.strict) (hstands : Stands setting p w m)
include hstrict hstands

theorem find?_eq_expected (hr : setting.Admits ⟨site, .reference r⟩) :
    m.distances.find? r.id = site.expected? r := by
  rw [hstands.distances]
  exact (hr.reference r rfl).distance.resolve_right fun h => h.1 hstrict

variable (hfits : Fits w.store site p.scope p.home)
include hfits

/-- `this` is the receiver of the home. -/
theorem readVariable_this (hr : setting.Admits ⟨site, .reference r⟩) (hkind : r.kind = .this) :
    ∃ i, p.home.receiver = some i ∧ w.ValueOk setting (.instanceRef i) ∧
      readVariable r.id r.name m = .ok (.instanceRef i) m := by
  have hclass := (hr.clean hstrict).inClass hkind
  obtain ⟨d, hdistance, inner, i, hinner, hthis, hi⟩ := hfits.inClass hclass
  have hd : m.distances.find? r.id = some d := by
    rw [hstands.find?_eq_expected hstrict hr]
    unfold Context.expected?
    rw [hkind]
    exact (if_pos hclass).trans hdistance
  have hname : r.name.text = "this" := by
    have hproper := (hr.reference r rfl).proper
    unfold Reference.Proper at hproper
    rw [hkind] at hproper
    exact hproper
  have hvalid : w.ValueOk setting (.instanceRef i) := hstands.sound.holds.values hthis
  rw [hstands.store] at hinner hthis
  rw [← hstands.scope] at hinner
  refine ⟨i, hi, hvalid, ?_⟩
  rw [readVariable_apply, hd]
  dsimp only
  rw [readAt_apply, hinner]
  dsimp only
  rw [hname, hthis]

/-- A method that `super` finds is bound to the receiver of the home. -/
theorem superMethod_eq {id : NodeId} {line : Nat} {method : Name}
    (hr : setting.Admits ⟨site, .reference ⟨.super, id, ⟨method.text, line⟩⟩⟩) :
    (∃ f object home around kind i, w.Unbound setting f object home around kind ∧
      p.home.receiver = some i ∧ w.ValueOk setting (.instanceRef i) ∧
        Evaluation.superMethod id line method m = .ok (.functionRef (m.store.bindMethod object i).2)
          { m with store := (m.store.bindMethod object i).1 }) ∨
      Evaluation.superMethod id line method m =
        .error (.failure ⟨.undefinedProperty method.text, method.line⟩) m := by
  have hkind := (hr.clean hstrict).inDerived rfl
  obtain ⟨d, hdistance, ⟨inner, i, hinner, hthis, hi⟩, ⟨outer, c, houter, hsuper, -⟩⟩ :=
    hfits.derived hkind
  have hd : m.distances.find? id = some (d + 1) :=
    (hstands.find?_eq_expected hstrict hr).trans ((if_pos hkind).trans hdistance)
  have hvalid : w.ValueOk setting (.instanceRef i) := hstands.sound.holds.values hthis
  rw [hstands.store] at hinner hthis houter hsuper
  rw [← hstands.scope] at hinner houter
  rw [superMethod_apply m hd hinner hthis houter hsuper]
  cases hf : m.store.findMethod? c method.text with
  | none => exact .inr rfl
  | some f =>
    rw [← hstands.store] at hf
    obtain ⟨object, home, around, kind, hmethod⟩ := hstands.sound.holds.findMethod hf
    have hfunction := hmethod.function
    rw [hstands.store] at hfunction
    have hbound := map_apply_ok (f := Value.functionRef) (bindTo_apply m hfunction i)
    exact .inl ⟨f, object, home, around, kind, i, hmethod, hi, hvalid, hbound⟩

end Stands
end Lox.Evaluation.Observed
