import Lox.Proofs.Eval.Run
import Lox.Proofs.Heap.Growth

/-
  Confined changes — what is written in frames, and which names are added

  Of two heaps, the second is a confined change of the first if the frames of
  the first are still there with all the names they bind, if what they bind has
  changed only under names that may have been written, and if they bind no new
  names but those that may have been added. Nothing is said about frames that
  the first heap does not have.
-/

namespace Lox
namespace Heap

/-- The second heap is the first one with new frames, with other values under names
that were written, and with more names where they were added. -/
structure Confined (written added : FrameId → String → Prop) (h h' : Heap) : Prop where
  size : h.frames.size ≤ h'.frames.size
  kept : ∀ f < h.frames.size, ∀ name, h.Binds f name → h'.Binds f name
  names : ∀ f < h.frames.size, ∀ name, h'.Binds f name → h.Binds f name ∨ added f name
  values : ∀ f < h.frames.size, ∀ name,
    (h'.bindings f).find? name = (h.bindings f).find? name ∨ written f name

namespace Confined

variable {written added written' added' : FrameId → String → Prop} {h h' h'' : Heap}

theorem refl (h : Heap) : h.Confined written added h :=
  ⟨Nat.le_refl _, fun _ _ _ hb => hb, fun _ _ _ hb => .inl hb, fun _ _ _ => .inl rfl⟩

theorem trans (a : h.Confined written added h') (b : h'.Confined written added h'') :
    h.Confined written added h'' := by
  have hlt : ∀ f < h.frames.size, f < h'.frames.size := fun f hf => Nat.lt_of_lt_of_le hf a.size
  refine ⟨Nat.le_trans a.size b.size, ?_, ?_, ?_⟩
  · intro f hf name hb
    exact b.kept f (hlt f hf) name (a.kept f hf name hb)
  · intro f hf name hb
    rcases b.names f (hlt f hf) name hb with hb | hadded
    · exact a.names f hf name hb
    · exact .inr hadded
  · intro f hf name
    rcases b.values f (hlt f hf) name with hv | hw
    · rw [hv]
      exact a.values f hf name
    · exact .inr hw

theorem mono (a : h.Confined written added h') (hw : ∀ f name, written f name → written' f name)
    (ha : ∀ f name, added f name → added' f name) : h.Confined written' added' h' := by
  refine ⟨a.size, a.kept, ?_, ?_⟩
  · intro f hf name hb
    exact (a.names f hf name hb).imp_right (ha f name)
  · intro f hf name
    exact (a.values f hf name).imp_right (hw f name)

/-- Only the frames matter. -/
theorem of_frames (hf : h'.frames = h.frames) : h.Confined written added h' := by
  have hb : ∀ f, h'.bindings f = h.bindings f := fun f => by rw [bindings, bindings, hf]
  refine ⟨by rw [hf], ?_, ?_, ?_⟩
  · intro f _ name hn
    rwa [Binds, hb]
  · intro f _ name hn
    rw [Binds, hb] at hn
    exact .inl hn
  · intro f _ name
    rw [hb]
    exact .inl rfl

theorem newIdentity (h : Heap) : h.Confined written added h.newIdentity.2 := of_frames rfl

theorem newObject (h : Heap) : h.Confined written added h.newObject.2 := of_frames rfl

theorem newFrame (h : Heap) (e : Option FrameId) :
    h.Confined written added (h.newFrame e).2 := by
  refine ⟨Nat.le_of_lt (lt_size_newFrame h e), ?_, ?_, ?_⟩
  · intro f _ name hb
    rwa [Binds, bindings_newFrame]
  · intro f _ name hb
    rw [Binds, bindings_newFrame] at hb
    exact .inl hb
  · intro f _ name
    rw [bindings_newFrame]
    exact .inl rfl

/-- A definition writes its name, and adds it unless it is there already. -/
theorem define (h : Heap) (f : FrameId) (name : String) (v : Value)
    (hw : f < h.frames.size → written f name)
    (ha : f < h.frames.size → h.Binds f name ∨ added f name) :
    h.Confined written added (h.define f name v) := by
  refine ⟨Nat.le_of_eq (size_frames_define ..).symm, ?_, ?_, ?_⟩
  · intro e _ n hb
    exact hb.define f name v
  · intro e he n hb
    by_cases hn : e = f ∧ n = name
    · obtain ⟨rfl, rfl⟩ := hn
      exact ha he
    · rw [Binds, find?_define, if_neg fun hc => hn ⟨hc.1, hc.2.2⟩] at hb
      exact .inl hb
  · intro e he n
    by_cases hn : e = f ∧ n = name
    · obtain ⟨rfl, rfl⟩ := hn
      exact .inr (hw he)
    · rw [find?_define, if_neg fun hc => hn ⟨hc.1, hc.2.2⟩]
      exact .inl rfl

/-- A frame that the first heap does not have yet may be given any name. -/
theorem define_fresh (a : h.Confined written added h') {f : FrameId} (hf : h.frames.size ≤ f)
    (name : String) (v : Value) : h.Confined written added (h'.define f name v) := by
  -- the frames of the first heap are as before
  have hfind : ∀ e < h.frames.size, ∀ n,
      ((h'.define f name v).bindings e).find? n = (h'.bindings e).find? n := by
    intro e he n
    rw [find?_define, if_neg]
    rintro ⟨rfl, -, -⟩
    omega
  refine ⟨by rw [size_frames_define]; exact a.size, ?_, ?_, ?_⟩
  · intro e he n hb
    rw [Binds, hfind e he]
    exact a.kept e he n hb
  · intro e he n hb
    rw [Binds, hfind e he] at hb
    exact a.names e he n hb
  · intro e he n
    rw [hfind e he]
    exact a.values e he n

theorem defineAll_fresh (a : h.Confined written added h') {f : FrameId} (hf : h.frames.size ≤ f)
    (values : List (String × Value)) : h.Confined written added (h'.defineAll f values) := by
  induction values generalizing h' with
  | nil => exact a
  | cons entry rest ih => exact ih (a.define_fresh hf entry.1 entry.2)

end Confined

/-! ## Holders bind the name -/

theorem binds_of_holder? {h : Heap} {f e : FrameId} {name : String}
    (hh : h.holder? f name = some e) : h.Binds e name :=
  List.find?_some (p := fun e => ((h.bindings e).find? name).isSome) hh

theorem binds_of_holderAt? {h : Heap} {f e : FrameId} {distance : Nat} {name : String}
    (hh : h.holderAt? f distance name = some e) : h.Binds e name :=
  (Option.filter_eq_some_iff.1 hh).2

end Heap

theorem Machine.binds_of_holder? {m : Machine} {id : Nat} {name : String} {f : FrameId}
    (hh : m.holder? id name = some f) : m.heap.Binds f name := by
  rw [Machine.holder?] at hh
  split at hh
  · exact Heap.binds_of_holderAt? hh
  · exact Heap.binds_of_holder? hh

end Lox
