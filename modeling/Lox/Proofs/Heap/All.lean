import Lox.Proofs.Heap.Growth

/-
  What holds of all values in a heap

  A heap holds values in its frames and in the fields of its objects. What holds of all
  of them still does after a step if it holds of the value that the step puts in.
-/

namespace Lox

/-- All that frames bind, and all fields, are like this. -/
structure Heap.All (P : Value → Prop) (h : Heap) : Prop where
  bindings : ∀ f name v, (h.bindings f).find? name = some v → P v
  fields : ∀ object name v, (h.fields object).find? name = some v → P v

namespace Heap.All

variable {P Q : Value → Prop} {h : Heap}

theorem mono (hh : h.All P) (hpq : ∀ v, P v → Q v) : h.All Q :=
  ⟨fun f name v hv => hpq v (hh.bindings f name v hv),
    fun object name v hv => hpq v (hh.fields object name v hv)⟩

theorem define (hh : h.All P) (f : FrameId) (name : String) {v : Value} (hv : P v) :
    (h.define f name v).All P := by
  refine ⟨fun e n w hw => ?_, hh.fields⟩
  rw [find?_define] at hw
  split at hw
  · cases hw
    exact hv
  · exact hh.bindings e n w hw

theorem defineAll (hh : h.All P) (f : FrameId) {values : List (String × Value)}
    (hv : ∀ v ∈ values.map Prod.snd, P v) : (h.defineAll f values).All P := by
  induction values generalizing h with
  | nil => exact hh
  | cons entry rest ih =>
    exact ih (hh.define f entry.1 (hv _ (.head _))) fun v hm => hv v (.tail _ hm)

theorem newFrame (hh : h.All P) (e : Option FrameId) : (h.newFrame e).2.All P := by
  refine ⟨fun f n w hw => ?_, hh.fields⟩
  rw [bindings_newFrame] at hw
  exact hh.bindings f n w hw

theorem setField (hh : h.All P) (object : Nat) (name : String) {v : Value} (hv : P v) :
    (h.setField object name v).All P := by
  refine ⟨hh.bindings, fun o n w hw => ?_⟩
  rw [fields_setField] at hw
  split at hw
  · rw [Bindings.find?_insert] at hw
    split at hw
    · cases hw
      exact hv
    · exact hh.fields o n w hw
  · exact hh.fields o n w hw

theorem newObject (hh : h.All P) : h.newObject.2.All P := by
  refine ⟨hh.bindings, fun o n w hw => ?_⟩
  rw [fields_newObject] at hw
  exact hh.fields o n w hw

theorem newIdentity (hh : h.All P) : h.newIdentity.2.All P := ⟨hh.bindings, hh.fields⟩

theorem getAt? (hh : h.All P) {f : FrameId} {d : Nat} {name : String} {v : Value}
    (hv : h.getAt? f d name = some v) : P v := by
  rw [Heap.getAt?] at hv
  split at hv
  · exact hh.bindings _ name v hv
  · cases hv

theorem get? (hh : h.All P) {f : FrameId} {name : String} {v : Value}
    (hv : h.get? f name = some v) : P v := by
  rw [Heap.get?, List.findSome?_eq_some_iff] at hv
  obtain ⟨_, e, _, -, hv, -⟩ := hv
  exact hh.bindings e name v hv

end Heap.All

/-- In the heap of a machine that nothing has been run on there is only the clock. -/
theorem Heap.all_start {P : Value → Prop} (hclock : P .clock) :
    ((empty.newFrame none).2.define globals "clock" .clock).All P := by
  refine All.define (.newFrame ⟨fun f name v hv => ?_, nofun⟩ none) _ _ hclock
  rw [bindings_fresh (Nat.zero_le f)] at hv
  cases hv

end Lox
