import Lox.Proofs.Eval.Run
import Lox.Proofs.Heap.Growth
import Lox.Proofs.Value.Alike

/-
  Heaps and machines that are alike

  Two heaps are alike if they have the same frames in the same places and the
  same objects, and all of these hold values that are alike. Everything that is
  looked up in them is then alike, and so are the heaps that the same change
  leads to. Machines are alike if their heaps are, nodes that stand for each
  other have the same distance, and the rest is the same.
-/

namespace Lox

/-- The first value is absent exactly if the second is, and else they are alike. -/
abbrev Value.OptionAlike (L : Likeness) : Option Value → Option Value → Prop :=
  Option.Rel (Value.Alike L)

structure Heap.Alike (L : Likeness) (h h' : Heap) : Prop where
  size : h'.frames.size = h.frames.size
  enclosing : ∀ f, h'.enclosing? f = h.enclosing? f
  bindings : ∀ f n, Value.OptionAlike L ((h.bindings f).find? n) ((h'.bindings f).find? n)
  objects : h'.objects.size = h.objects.size
  fields : ∀ o n, Value.OptionAlike L ((h.fields o).find? n) ((h'.fields o).find? n)
  identity : h'.nextIdentity = h.nextIdentity

structure Machine.Alike (L : Likeness) (m m' : Machine) : Prop where
  heap : m.heap.Alike L m'.heap
  frame : m'.frame = m.frame
  depth : m'.depth = m.depth
  distances : ∀ i j, L.ids i j → m'.distances[j]? = m.distances[i]?
  sink : m'.sink = m.sink
  clock : m'.clock = m.clock
  readings : m'.readings = m.readings

variable {L M : Likeness}

namespace Value.OptionAlike

variable {v v' : Option Value}

/-- A choice between two cases that are made alike. -/
theorem ite {c : Prop} [Decidable c] {w w' : Option Value} (h : Value.OptionAlike L v v')
    (hw : Value.OptionAlike L w w') :
    Value.OptionAlike L (if c then v else w) (if c then v' else w') := by
  split
  · exact h
  · exact hw

end Value.OptionAlike

namespace Heap.Alike

variable {h h' : Heap}

theorem mono (hle : L.Le M) (ha : h.Alike L h') : h.Alike M h' :=
  { ha with
    bindings := fun f n => Option.Rel.imp (fun _ _ hv => hv.mono hle) (ha.bindings f n)
    fields := fun o n => Option.Rel.imp (fun _ _ hv => hv.mono hle) (ha.fields o n) }

/-! ## Looking up -/

theorem chain_eq (ha : h.Alike L h') (f : FrameId) : h'.chain f = h.chain f := by
  induction f using Nat.strongRecOn with
  | _ f ih =>
    rw [Heap.chain, Heap.chain, ha.enclosing]
    cases h.enclosing? f with
    | none => rfl
    | some e =>
      dsimp only
      by_cases he : e < f
      · rw [if_pos he, if_pos he, ih e he]
      · rw [if_neg he, if_neg he]

theorem ancestor?_eq (ha : h.Alike L h') (f : FrameId) (d : Nat) :
    h'.ancestor? f d = h.ancestor? f d :=
  ancestor?_congr ha.enclosing f d

theorem getAt? (ha : h.Alike L h') (f : FrameId) (d : Nat) (n : String) :
    Value.OptionAlike L (h.getAt? f d n) (h'.getAt? f d n) := by
  rw [Heap.getAt?, Heap.getAt?, ha.ancestor?_eq]
  cases h.ancestor? f d with
  | none => exact .none
  | some e => exact ha.bindings e n

theorem get? (ha : h.Alike L h') (f : FrameId) (n : String) :
    Value.OptionAlike L (h.get? f n) (h'.get? f n) := by
  rw [Heap.get?, Heap.get?, ha.chain_eq]
  induction h.chain f with
  | nil => exact .none
  | cons e chain ih =>
    have hb := ha.bindings e n
    rw [List.findSome?_cons, List.findSome?_cons]
    generalize (h.bindings e).find? n = v at hb
    generalize (h'.bindings e).find? n = v' at hb
    cases hb with
    | none => exact ih
    | some hv => exact .some hv

theorem binds_eq (ha : h.Alike L h') (n : String) :
    (fun e => ((h'.bindings e).find? n).isSome) = fun e => ((h.bindings e).find? n).isSome :=
  funext fun e => isSome_eq_of_rel (ha.bindings e n)

theorem holder?_eq (ha : h.Alike L h') (f : FrameId) (n : String) :
    h'.holder? f n = h.holder? f n := by
  rw [Heap.holder?, Heap.holder?, ha.chain_eq, ha.binds_eq]

theorem holderAt?_eq (ha : h.Alike L h') (f : FrameId) (d : Nat) (n : String) :
    h'.holderAt? f d n = h.holderAt? f d n := by
  rw [Heap.holderAt?, Heap.holderAt?, ha.ancestor?_eq, ha.binds_eq]

/-! ## Changes -/

theorem define (ha : h.Alike L h') (f : FrameId) (name : String) {v v' : Value}
    (hv : v.Alike L v') : (h.define f name v).Alike L (h'.define f name v') := by
  refine ⟨?_, fun e => ?_, fun e n => ?_, ha.objects, ha.fields, ha.identity⟩
  · rw [size_frames_define, size_frames_define, ha.size]
  · rw [enclosing?_define, enclosing?_define, ha.enclosing]
  · rw [find?_define, find?_define, ha.size]
    exact .ite (.some hv) (ha.bindings e n)

theorem newFrame (ha : h.Alike L h') (e : Option FrameId) :
    (h.newFrame e).2.Alike L (h'.newFrame e).2 := by
  refine ⟨?_, fun f => ?_, fun f n => ?_, ha.objects, ha.fields, ha.identity⟩
  · rw [size_newFrame, size_newFrame, ha.size]
  · rw [enclosing?_newFrame, enclosing?_newFrame, ha.size, ha.enclosing]
  · rw [bindings_newFrame, bindings_newFrame]
    exact ha.bindings f n

theorem defineAll (ha : h.Alike L h') (f : FrameId) {values values' : List (String × Value)}
    (hv : List.Forall₂ (fun p p' => p'.1 = p.1 ∧ Value.Alike L p.2 p'.2) values values') :
    (h.defineAll f values).Alike L (h'.defineAll f values') := by
  induction hv generalizing h h' with
  | nil => exact ha
  | @cons p p' _ _ hp _ ih =>
    obtain ⟨name, v⟩ := p
    obtain ⟨name', v'⟩ := p'
    obtain rfl : name' = name := hp.1
    exact ih (ha.define f name' hp.2)

theorem newObject (ha : h.Alike L h') : h.newObject.2.Alike L h'.newObject.2 := by
  refine ⟨ha.size, ha.enclosing, ha.bindings, ?_, fun o n => ?_, ha.identity⟩
  · simp [Heap.newObject, ha.objects]
  · rw [fields_newObject, fields_newObject]
    exact ha.fields o n

theorem setField (ha : h.Alike L h') (o : Nat) (name : String) {v v' : Value}
    (hv : v.Alike L v') : (h.setField o name v).Alike L (h'.setField o name v') := by
  refine ⟨ha.size, ha.enclosing, ha.bindings, ?_, fun p n => ?_, ha.identity⟩
  · simp [Heap.setField, ha.objects]
  · rw [fields_setField, fields_setField, ha.objects]
    by_cases hp : p = o ∧ p < h.objects.size
    · rw [if_pos hp, if_pos hp, Bindings.find?_insert, Bindings.find?_insert]
      exact .ite (.some hv) (ha.fields p n)
    · rw [if_neg hp, if_neg hp]
      exact ha.fields p n

theorem newIdentity (ha : h.Alike L h') : h.newIdentity.2.Alike L h'.newIdentity.2 :=
  ⟨ha.size, ha.enclosing, ha.bindings, ha.objects, ha.fields, congrArg (· + 1) ha.identity⟩

end Heap.Alike

/-! ## Uses of names -/

namespace Machine.Alike

variable {m m' : Machine} {i i' : Nat}

theorem lookup? (hm : m.Alike L m') (hi : L.ids i i') (n : String) :
    Value.OptionAlike L (m.lookup? i n) (m'.lookup? i' n) := by
  rw [Machine.lookup?, Machine.lookup?, hm.distances i i' hi, hm.frame]
  cases m.distances[i]? with
  | none => exact hm.heap.get? _ n
  | some d => exact hm.heap.getAt? _ d n

theorem holder?_eq (hm : m.Alike L m') (hi : L.ids i i') (n : String) :
    m'.holder? i' n = m.holder? i n := by
  rw [Machine.holder?, Machine.holder?, hm.distances i i' hi, hm.frame]
  cases m.distances[i]? with
  | none => exact hm.heap.holder?_eq _ n
  | some d => exact hm.heap.holderAt?_eq _ d n

/-- Other distances, and more ids and lines that stand for each other. -/
theorem withDistances (hm : m.Alike L m') (hle : L.Le M) {ds ds' : Distances}
    (hd : ∀ i j, M.ids i j → ds'[j]? = ds[i]?) :
    ({ m with distances := ds } : Machine).Alike M { m' with distances := ds' } :=
  { hm with
    heap := hm.heap.mono hle
    distances := hd }

end Machine.Alike
end Lox
