import Lox.Proofs.Eval.Run
import Lox.Proofs.Heap.Growth
import Lox.Proofs.Value.Renamed

/-
  Renamed heaps and machines

  Two heaps have the same frames in the same places, and the same objects. The frames of
  the scope of the renamed variable bind it under its new name in the second heap;
  everything else is bound under the same name in both. So what is looked up at a
  distance is found in both, each time under the name that a variable with this distance
  has there. A name without a distance is looked up in the global frame, where nothing is
  renamed.
-/

namespace Lox

open Renaming (Inside)

/-- Heaps before and after a renaming, with what is known of their frames. What is known of
a frame is known of those around it. -/
structure Heap.Renamed (R : Renaming) (W : Marks) (h h' : Heap) : Prop where
  size : h'.frames.size = h.frames.size
  enclosing : ∀ f, h'.enclosing? f = h.enclosing? f
  global : W Heap.globals = some none
  known : ∀ f away, W f = some away → f < h.frames.size
  inside : ∀ f inner e, W f = some inner → h.enclosing? f = some e →
    ∃ outer, W e = some outer ∧ Inside outer inner
  bindings : ∀ f away n, W f = some away → Option.Rel (Value.Renamed R W)
    ((h.bindings f).find? n) ((h'.bindings f).find? (R.name away (some 0) n))
  objects : h'.objects.size = h.objects.size
  fields : ∀ o n, Option.Rel (Value.Renamed R W) ((h.fields o).find? n) ((h'.fields o).find? n)
  identity : h'.nextIdentity = h.nextIdentity

/-- Machines before and after a renaming that are at the same place. -/
structure Machine.Renamed (R : Renaming) (W : Marks) (away : Option Nat) (m m' : Machine) :
    Prop where
  heap : m.heap.Renamed R W m'.heap
  place : W m.frame = some away
  frame : m'.frame = m.frame
  depth : m'.depth = m.depth
  recorded : m.distances = R.distances
  distances : m'.distances = m.distances
  sink : m'.sink = m.sink
  clock : m'.clock = m.clock
  readings : m'.readings = m.readings

variable {R : Renaming} {W V : Marks} {away inner : Option Nat}

theorem Renaming.name_reserved (R : Renaming) {n : String} (h : Heap.Reserved n)
    (distance : Option Nat) : R.name away distance n = n :=
  R.name_of_ne (fun heq => R.old_free (heq ▸ h)) (fun heq => R.new_free (heq ▸ h))

namespace Heap.Renamed

variable {h h' : Heap}

/-! ## Looking up -/

/-- A frame that lies outward binds a name as the distance tells. -/
theorem mark_ancestor (hh : h.Renamed R W h') {f e : FrameId} {d : Nat} (hf : W f = some away)
    (he : h.ancestor? f d = some e) :
    ∃ mark, W e = some mark ∧ ∀ n, R.name mark (some 0) n = R.name away (some d) n := by
  induction d generalizing f away with
  | zero =>
    cases he
    exact ⟨away, hf, fun _ => rfl⟩
  | succ d ih =>
    cases hg : h.enclosing? f with
    | none =>
      rw [Heap.ancestor?, hg] at he
      cases he
    | some g =>
      rw [ancestor?_succ hg] at he
      obtain ⟨outer, houter, hinside⟩ := hh.inside f away g hf hg
      obtain ⟨mark, hmark, hname⟩ := ih houter he
      refine ⟨mark, hmark, fun n => (hname n).trans ?_⟩
      -- one frame further out the distance is one less, or the variable is not in scope there
      obtain rfl | ⟨rfl, rfl⟩ := hinside
      · exact (R.name_deeper outer (some d) n).symm
      · rw [R.name_none, R.name_of_distance_ne (by simp)]

theorem getAt? (hh : h.Renamed R W h') {f : FrameId} (hf : W f = some away) (d : Nat) (n : String) :
    Option.Rel (Value.Renamed R W) (h.getAt? f d n) (h'.getAt? f d (R.name away (some d) n)) := by
  rw [Heap.getAt?, Heap.getAt?, ancestor?_congr hh.enclosing]
  cases he : h.ancestor? f d with
  | none => exact .none
  | some e =>
    obtain ⟨mark, hmark, hname⟩ := hh.mark_ancestor hf he
    rw [← hname]
    exact hh.bindings e mark n hmark

theorem holderAt?_eq (hh : h.Renamed R W h') {f : FrameId} (hf : W f = some away) (d : Nat)
    (n : String) : h'.holderAt? f d (R.name away (some d) n) = h.holderAt? f d n := by
  rw [Heap.holderAt?, Heap.holderAt?, ancestor?_congr hh.enclosing]
  cases he : h.ancestor? f d with
  | none => rfl
  | some e =>
    obtain ⟨mark, hmark, hname⟩ := hh.mark_ancestor hf he
    have hsame := isSome_eq_of_rel (hh.bindings e mark n hmark)
    rw [hname] at hsame
    simp only [Option.filter_some, hsame]

theorem bindings_globals (hh : h.Renamed R W h') (n : String) :
    Option.Rel (Value.Renamed R W) ((h.bindings Heap.globals).find? n)
      ((h'.bindings Heap.globals).find? n) := by
  have hb := hh.bindings Heap.globals none n hh.global
  rwa [R.name_none] at hb

theorem get?_globals (hh : h.Renamed R W h') (n : String) :
    Option.Rel (Value.Renamed R W) (h.get? Heap.globals n) (h'.get? Heap.globals n) := by
  rw [Heap.get?, Heap.get?, chain_globals, chain_globals, List.findSome?_singleton,
    List.findSome?_singleton]
  exact hh.bindings_globals n

theorem holder?_globals (hh : h.Renamed R W h') (n : String) :
    h'.holder? Heap.globals n = h.holder? Heap.globals n := by
  rw [Heap.holder?, Heap.holder?, chain_globals, chain_globals, List.find?_singleton,
    List.find?_singleton, isSome_eq_of_rel (hh.bindings_globals n)]

/-! ## Changes -/

theorem define (hh : h.Renamed R W h') {f : FrameId} (hf : W f = some away) (name : String)
    {v v' : Value} (hv : v.Renamed R W v') :
    (h.define f name v).Renamed R W (h'.define f (R.name away (some 0) name) v') := by
  refine { hh with
    size := ?_, enclosing := fun e => ?_, known := fun e a he => ?_, inside := fun e i g he hg => ?_,
    bindings := fun e a n he => ?_ }
  · rw [size_frames_define, size_frames_define, hh.size]
  · rw [enclosing?_define, enclosing?_define, hh.enclosing]
  · rw [size_frames_define]
    exact hh.known e a he
  · rw [enclosing?_define] at hg
    exact hh.inside e i g he hg
  · rw [find?_define, find?_define, hh.size]
    by_cases hhere : e = f ∧ e < h.frames.size ∧ n = name
    · obtain ⟨rfl, hlt, rfl⟩ := hhere
      obtain rfl : away = a := Option.some.inj (hf.symm.trans he)
      rw [if_pos ⟨rfl, hlt, rfl⟩, if_pos ⟨rfl, hlt, rfl⟩]
      exact .some hv
    · -- the renaming is injective, so another name stays another one
      have hhere' : ¬(e = f ∧ e < h.frames.size ∧
          R.name a (some 0) n = R.name away (some 0) name) := by
        rintro ⟨rfl, hlt, hname⟩
        obtain rfl : away = a := Option.some.inj (hf.symm.trans he)
        exact hhere ⟨rfl, hlt, R.name_injective _ _ hname⟩
      rw [if_neg hhere, if_neg hhere']
      exact hh.bindings e a n he

theorem defineAll (hh : h.Renamed R W h') {f : FrameId} (hf : W f = some away)
    {values values' : List (String × Value)}
    (hv : List.Forall₂ (fun p p' => p'.1 = R.name away (some 0) p.1 ∧ Value.Renamed R W p.2 p'.2)
      values values') : (h.defineAll f values).Renamed R W (h'.defineAll f values') := by
  induction hv generalizing h h' with
  | nil => exact hh
  | @cons p p' _ _ hp _ ih =>
    obtain ⟨name, v⟩ := p
    obtain ⟨name', v'⟩ := p'
    obtain ⟨rfl, hv⟩ : name' = R.name away (some 0) name ∧ v.Renamed R W v' := hp
    exact ih (hh.define hf name hv)

/-- A frame that is made inside another one is known from then on. -/
theorem newFrame (hh : h.Renamed R W h') {e : FrameId} (he : W e = some away)
    (hinside : Inside away inner) :
    ∃ V : Marks, W.Le V ∧ V h.frames.size = some inner ∧
      (h.newFrame (some e)).2.Renamed R V (h'.newFrame (some e)).2 := by
  let V : Marks := Function.update W h.frames.size (some inner)
  have hold : ∀ f < h.frames.size, V f = W f := fun f hf =>
    Function.update_of_ne (Nat.ne_of_lt hf) _ _
  have hnew : V h.frames.size = some inner := Function.update_self _ _ _
  have hle : W.Le V := fun f a hf => (hold f (hh.known f a hf)).trans hf
  -- a frame is the new one, or it was known before
  have hcases : ∀ f a, V f = some a → (f = h.frames.size ∧ a = inner) ∨ W f = some a := by
    intro f a hf
    by_cases hsize : f = h.frames.size
    · subst hsize
      exact .inl ⟨rfl, Option.some.inj (hf.symm.trans hnew)⟩
    · exact .inr ((Function.update_of_ne hsize _ _).symm.trans hf)
  refine ⟨V, hle, hnew, ?_, fun f => ?_, hle _ _ hh.global, fun f a hf => ?_, fun f i g hf hg => ?_,
    fun f a n hf => ?_, hh.objects, fun o n => ?_, hh.identity⟩
  · rw [size_newFrame, size_newFrame, hh.size]
  · rw [enclosing?_newFrame, enclosing?_newFrame, hh.size, hh.enclosing]
  · rw [size_newFrame]
    obtain ⟨rfl, -⟩ | hf := hcases f a hf
    · exact Nat.lt_succ_self _
    · exact Nat.lt_succ_of_lt (hh.known f a hf)
  · rw [enclosing?_newFrame] at hg
    obtain ⟨rfl, rfl⟩ | hf := hcases f i hf
    · rw [if_pos rfl] at hg
      cases hg
      exact ⟨away, hle _ _ he, hinside⟩
    · rw [if_neg (Nat.ne_of_lt (hh.known f i hf))] at hg
      obtain ⟨outer, houter, hi⟩ := hh.inside f i g hf hg
      exact ⟨outer, hle _ _ houter, hi⟩
  · rw [bindings_newFrame, bindings_newFrame]
    obtain ⟨rfl, rfl⟩ | hf := hcases f a hf
    · rw [bindings_fresh (Nat.le_refl _), bindings_fresh (Nat.le_of_eq hh.size)]
      exact .none
    · exact Option.Rel.imp (fun _ _ hv => hv.mono hle) (hh.bindings f a n hf)
  · exact Option.Rel.imp (fun _ _ hv => hv.mono hle) (hh.fields o n)

theorem newObject (hh : h.Renamed R W h') : h.newObject.2.Renamed R W h'.newObject.2 := by
  refine { hh with objects := ?_, fields := fun o n => ?_ }
  · simp [Heap.newObject, hh.objects]
  · rw [fields_newObject, fields_newObject]
    exact hh.fields o n

theorem setField (hh : h.Renamed R W h') (o : Nat) (name : String) {v v' : Value}
    (hv : v.Renamed R W v') : (h.setField o name v).Renamed R W (h'.setField o name v') := by
  refine { hh with objects := ?_, fields := fun p n => ?_ }
  · simp [Heap.setField, hh.objects]
  · rw [fields_setField, fields_setField, hh.objects]
    by_cases hp : p = o ∧ p < h.objects.size
    · rw [if_pos hp, if_pos hp, Bindings.find?_insert, Bindings.find?_insert]
      split
      · exact .some hv
      · exact hh.fields p n
    · rw [if_neg hp, if_neg hp]
      exact hh.fields p n

theorem newIdentity (hh : h.Renamed R W h') : h.newIdentity.2.Renamed R W h'.newIdentity.2 :=
  { hh with identity := congrArg (· + 1) hh.identity }

end Heap.Renamed

/-! ## Uses of names -/

namespace Machine.Renamed

variable {m m' : Machine}

/-- The same machines at another place. -/
theorem enter (hm : m.Renamed R W away m') {f : FrameId} (hf : W f = some inner) :
    ({ m with frame := f } : Machine).Renamed R W inner { m' with frame := f } :=
  { hm with place := hf, frame := rfl }

theorem lookup? (hm : m.Renamed R W away m') (id : Nat) (n : String) :
    Option.Rel (Value.Renamed R W) (m.lookup? id n)
      (m'.lookup? id (R.name away R.distances[id]? n)) := by
  rw [Machine.lookup?, Machine.lookup?, hm.distances, hm.recorded, hm.frame]
  cases R.distances[id]? with
  | none =>
    rw [R.name_global]
    exact hm.heap.get?_globals n
  | some d => exact hm.heap.getAt? hm.place d n

theorem holder?_eq (hm : m.Renamed R W away m') (id : Nat) (n : String) :
    m'.holder? id (R.name away R.distances[id]? n) = m.holder? id n := by
  rw [Machine.holder?, Machine.holder?, hm.distances, hm.recorded, hm.frame]
  cases R.distances[id]? with
  | none =>
    rw [R.name_global]
    exact hm.heap.holder?_globals n
  | some d => exact hm.heap.holderAt?_eq hm.place d n

/-- What a use of a name assigns in is bound there as the distance tells. -/
theorem name_holder (hm : m.Renamed R W away m') {id : Nat} {n : String} {f : FrameId}
    (h : m.holder? id n = some f) :
    ∃ mark, W f = some mark ∧ ∀ n, R.name mark (some 0) n = R.name away R.distances[id]? n := by
  rw [Machine.holder?, hm.recorded] at h
  cases hd : R.distances[id]? with
  | none =>
    rw [hd] at h
    dsimp only at h
    rw [Heap.holder?, Heap.chain_globals, List.find?_singleton] at h
    split at h
    · cases h
      exact ⟨none, hm.heap.global, fun n => by rw [R.name_none, R.name_global]⟩
    · cases h
  | some d =>
    rw [hd] at h
    exact hm.heap.mark_ancestor hm.place (Option.filter_eq_some_iff.1 h).1

end Machine.Renamed
end Lox
