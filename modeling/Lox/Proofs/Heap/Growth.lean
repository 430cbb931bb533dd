import Mathlib
import Lox.Eval.Call
import Lox.Proofs.Scope.Proper

/-
  Growing heaps

  Frames are never removed, stay where they are and keep their names, and whether
  and how they bind `this` and `super` never changes. `Extends` says so of two heaps;
  all that an evaluation does to a heap extends it, as long as no variable is
  named `this` or `super`.
-/

namespace Lox
namespace Heap

/-- The frame binds the name. -/
def Binds (h : Heap) (f : FrameId) (name : String) : Prop :=
  ((h.bindings f).find? name).isSome = true

/-- A name that is not chosen by a program. -/
def Reserved (name : String) : Prop := name = selfName ∨ name = superName

/-- The second heap has grown out of the first one. -/
structure Extends (h h' : Heap) : Prop where
  size : h.frames.size ≤ h'.frames.size
  enclosing : ∀ f < h.frames.size, h'.enclosing? f = h.enclosing? f
  binds : ∀ f < h.frames.size, ∀ name, h.Binds f name → h'.Binds f name
  reserved : ∀ f < h.frames.size, ∀ name, Reserved name →
    (h'.bindings f).find? name = (h.bindings f).find? name

namespace Extends

variable {h h' h'' : Heap}

theorem refl (h : Heap) : h.Extends h :=
  ⟨Nat.le_refl _, fun _ _ => rfl, fun _ _ _ hb => hb, fun _ _ _ _ => rfl⟩

theorem trans (a : h.Extends h') (b : h'.Extends h'') : h.Extends h'' := by
  have hlt : ∀ f < h.frames.size, f < h'.frames.size := fun f hf => Nat.lt_of_lt_of_le hf a.size
  refine ⟨Nat.le_trans a.size b.size, fun f hf => ?_, fun f hf name hb => ?_,
    fun f hf name hr => ?_⟩
  · exact (b.enclosing f (hlt f hf)).trans (a.enclosing f hf)
  · exact b.binds f (hlt f hf) name (a.binds f hf name hb)
  · exact (b.reserved f (hlt f hf) name hr).trans (a.reserved f hf name hr)

/-- Only the frames matter. -/
theorem of_frames (hf : h'.frames = h.frames) : h.Extends h' := by
  have hb : ∀ f, h'.bindings f = h.bindings f := fun f => by rw [bindings, bindings, hf]
  have he : ∀ f, h'.enclosing? f = h.enclosing? f := fun f => by rw [enclosing?, enclosing?, hf]
  exact ⟨by rw [hf], fun f _ => he f, fun f _ name hn => by rwa [Binds, hb],
    fun f _ name _ => by rw [hb]⟩

theorem newFrame (h : Heap) (e : Option FrameId) : h.Extends (h.newFrame e).2 := by
  refine ⟨by simp [Heap.newFrame], fun f hf => ?_, fun f _ name hb => ?_, fun f _ name _ => ?_⟩
  · rw [enclosing?_newFrame, if_neg (Nat.ne_of_lt hf)]
  · rwa [Binds, bindings_newFrame]
  · rw [bindings_newFrame]

/-- A frame that the first heap does not have yet may be given any name. -/
theorem define_fresh (a : h.Extends h') {f : FrameId} (hf : h.frames.size ≤ f) (name : String)
    (v : Value) : h.Extends (h'.define f name v) := by
  have hne : ∀ e < h.frames.size, ¬(e = f ∧ e < h'.frames.size) := fun e he hc =>
    absurd hc.1 (Nat.ne_of_lt (Nat.lt_of_lt_of_le he hf))
  refine ⟨by rw [size_frames_define]; exact a.size, fun e he => ?_, fun e he n hb => ?_,
    fun e he n hr => ?_⟩
  · rw [enclosing?_define]
    exact a.enclosing e he
  · rw [Binds, bindings_define, if_neg (hne e he)]
    exact a.binds e he n hb
  · rw [bindings_define, if_neg (hne e he)]
    exact a.reserved e he n hr

end Extends

/-! ## Definitions -/

theorem find?_define (h : Heap) (f e : FrameId) (name n : String) (v : Value) :
    ((h.define f name v).bindings e).find? n =
      if e = f ∧ e < h.frames.size ∧ n = name then some v else (h.bindings e).find? n := by
  rw [bindings_define]
  by_cases he : e = f ∧ e < h.frames.size
  · rw [if_pos he, Bindings.find?_insert]
    simp [he.1 ▸ he.2, he.1]
  · rw [if_neg he, if_neg fun hc => he ⟨hc.1, hc.2.1⟩]

theorem binds_define {h : Heap} {f : FrameId} (hf : f < h.frames.size) (name : String)
    (v : Value) : (h.define f name v).Binds f name := by
  rw [Binds, find?_define, if_pos ⟨rfl, hf, rfl⟩]
  rfl

theorem Binds.define {h : Heap} {e : FrameId} {n : String} (hb : h.Binds e n) (f : FrameId)
    (name : String) (v : Value) : (h.define f name v).Binds e n := by
  rw [Binds, find?_define]
  split
  · rfl
  · exact hb

/-- A variable with a name that a program chose. -/
theorem Extends.define (h : Heap) (f : FrameId) {name : String} (hname : ¬Reserved name)
    (v : Value) : h.Extends (h.define f name v) := by
  refine ⟨by rw [size_frames_define], fun e _ => enclosing?_define .., fun e _ n hb => hb.define ..,
    fun e _ n hr => ?_⟩
  rw [find?_define, if_neg]
  rintro ⟨-, -, rfl⟩
  exact hname hr

theorem not_reserved {name : Token} (h : name.Plain) : ¬Reserved name.lexeme := by
  rintro (hr | hr)
  · exact h.1 hr
  · exact h.2 hr

theorem size_defineAll (h : Heap) (f : FrameId) (values : List (String × Value)) :
    (h.defineAll f values).frames.size = h.frames.size := by
  induction values generalizing h with
  | nil => rfl
  | cons entry rest ih =>
    exact (ih _).trans (size_frames_define ..)

theorem Extends.defineAll_fresh {h h' : Heap} (a : h.Extends h') {f : FrameId}
    (hf : h.frames.size ≤ f) (values : List (String × Value)) : h.Extends (h'.defineAll f values) := by
  induction values generalizing h' with
  | nil => exact a
  | cons entry rest ih => exact ih (a.define_fresh hf entry.1 entry.2)

theorem Extends.defineAll (h : Heap) (f : FrameId) {values : List (String × Value)}
    (hnames : ∀ name ∈ values.map Prod.fst, ¬Reserved name) : h.Extends (h.defineAll f values) := by
  induction values generalizing h with
  | nil => exact .refl h
  | cons entry rest ih =>
    exact (Extends.define h f (hnames _ (.head _)) entry.2).trans
      (ih _ fun name hn => hnames name (.tail _ hn))

theorem enclosing?_defineAll (h : Heap) (f e : FrameId) (values : List (String × Value)) :
    (h.defineAll f values).enclosing? e = h.enclosing? e := by
  induction values generalizing h with
  | nil => rfl
  | cons entry rest ih => exact (ih _).trans (enclosing?_define ..)

theorem Binds.defineAll {h : Heap} {e : FrameId} {n : String} (hb : h.Binds e n) (f : FrameId)
    (values : List (String × Value)) : (h.defineAll f values).Binds e n := by
  induction values generalizing h with
  | nil => exact hb
  | cons entry rest ih => exact ih (hb.define f entry.1 entry.2)

theorem binds_defineAll {h : Heap} {f : FrameId} (hf : f < h.frames.size)
    {values : List (String × Value)} {n : String} (hn : n ∈ values.map Prod.fst) :
    (h.defineAll f values).Binds f n := by
  induction values generalizing h with
  | nil => cases hn
  | cons entry rest ih =>
    obtain hn | hn := List.mem_cons.1 hn
    · subst hn
      exact (binds_define hf entry.1 entry.2).defineAll f rest
    · exact ih (by rwa [size_frames_define]) hn

/-- What a frame binds after some definitions it bound before, or it is one of the
new values. -/
theorem find?_defineAll {h : Heap} {f e : FrameId} {values : List (String × Value)} {n : String}
    {v : Value} (hv : ((h.defineAll f values).bindings e).find? n = some v) :
    (h.bindings e).find? n = some v ∨ v ∈ values.map Prod.snd := by
  induction values generalizing h with
  | nil => exact .inl hv
  | cons entry rest ih =>
    obtain hv | hv := ih hv
    · rw [find?_define] at hv
      split at hv
      · cases hv
        exact .inr (.head _)
      · exact .inl hv
    · exact .inr (.tail _ hv)

/-! ## New frames -/

theorem size_newFrame (h : Heap) (e : Option FrameId) :
    (h.newFrame e).2.frames.size = h.frames.size + 1 := by
  simp [newFrame]

theorem lt_size_newFrame (h : Heap) (e : Option FrameId) :
    h.frames.size < (h.newFrame e).2.frames.size := by
  rw [size_newFrame]
  exact Nat.lt_succ_self _

theorem bindings_fresh {h : Heap} {f : FrameId} (hf : h.frames.size ≤ f) : h.bindings f = [] := by
  rw [bindings, Array.getElem?_eq_none hf]

theorem lt_size_of_binds {h : Heap} {f : FrameId} {name : String} (hb : h.Binds f name) :
    f < h.frames.size := by
  by_contra hf
  rw [Binds, bindings_fresh (Nat.le_of_not_lt hf)] at hb
  cases hb

theorem lt_size_of_find? {h : Heap} {f : FrameId} {name : String} {v : Value}
    (hv : (h.bindings f).find? name = some v) : f < h.frames.size :=
  lt_size_of_binds (show h.Binds f name by rw [Binds, hv]; rfl)

theorem not_binds_newFrame (h : Heap) (e : Option FrameId) (name : String) :
    ¬(h.newFrame e).2.Binds h.frames.size name := by
  rw [Binds, bindings_newFrame, bindings_fresh (Nat.le_refl _)]
  exact Bool.false_ne_true

theorem enclosing?_new (h : Heap) (e : Option FrameId) :
    (h.newFrame e).2.enclosing? h.frames.size = e := by
  rw [enclosing?_newFrame, if_pos rfl]

/-- A new object has no fields, and the others keep theirs. -/
theorem fields_newObject (h : Heap) (o : Nat) : h.newObject.2.fields o = h.fields o := by
  simp only [fields, newObject, Array.getElem?_push]
  by_cases ho : o = h.objects.size <;> simp [ho]

/-! ## The way outward -/

theorem chain_of_inner {h : Heap} {f e : FrameId} (he : h.enclosing? f = some e) (hlt : e < f) :
    h.chain f = f :: h.chain e := by
  rw [chain, he]
  exact if_pos hlt

theorem chain_of_none {h : Heap} {f : FrameId} (he : h.enclosing? f = none) : h.chain f = [f] := by
  rw [chain, he]

/-- Outside the global frame there is nothing. -/
theorem chain_globals (h : Heap) : h.chain globals = [globals] := by
  rw [chain]
  split
  · exact if_neg (Nat.not_lt_zero _)
  · rfl

/-- A frame outward that does not bind the name is passed over. -/
theorem holder?_of_not_binds {h : Heap} {f e : FrameId} {name : String}
    (he : h.enclosing? f = some e) (hlt : e < f) (hb : ¬h.Binds f name) :
    h.holder? f name = h.holder? e name := by
  rw [holder?, chain_of_inner he hlt]
  exact List.find?_cons_of_neg hb

theorem holder?_of_binds {h : Heap} {f : FrameId} {name : String} (hb : h.Binds f name) :
    h.holder? f name = some f := by
  rw [holder?, chain]
  split
  · split <;> exact List.find?_cons_of_pos hb
  · exact List.find?_cons_of_pos hb

theorem ancestor?_succ {h : Heap} {f e : FrameId} (he : h.enclosing? f = some e) (d : Nat) :
    h.ancestor? f (d + 1) = h.ancestor? e d := by
  rw [ancestor?, he]

/-- The way outward depends on nothing but the enclosing frames. -/
theorem ancestor?_congr {h h' : Heap} (he : ∀ f, h'.enclosing? f = h.enclosing? f) (f : FrameId)
    (d : Nat) : h'.ancestor? f d = h.ancestor? f d := by
  induction d generalizing f with
  | zero => rfl
  | succ d ih =>
    rw [ancestor?, ancestor?, he]
    cases h.enclosing? f with
    | none => rfl
    | some e => exact ih e

/-- One step further outward. -/
theorem ancestor?_next {h : Heap} {f e : FrameId} {d : Nat} (he : h.ancestor? f d = some e) :
    h.ancestor? f (d + 1) = h.enclosing? e := by
  induction d generalizing f with
  | zero =>
    cases he
    rw [ancestor?]
    cases h.enclosing? e <;> rfl
  | succ d ih =>
    rw [ancestor?] at he ⊢
    cases hf : h.enclosing? f with
    | none =>
      rw [hf] at he
      cases he
    | some g =>
      rw [hf] at he
      exact ih he

end Heap
end Lox
