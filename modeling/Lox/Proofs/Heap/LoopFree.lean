import Lox.Proofs.Eval.Run
import Lox.Proofs.Heap.Growth
import Lox.Proofs.Value.Lookup
import Lox.Proofs.Value.Operators

/-
  Loop-free machines

  A machine holds what can be come to from its current frame and the global one:
  outward, into variables and fields, and into the frames of closures. It is
  loop-free if no function or method that it holds has a loop in its body.

  `Live` is a set of frames and objects that is kept for a whole evaluation. It
  has all frames and objects that are not made yet, so a machine whose values are
  tame for it stays so whatever is made (`Machine.LoopFree.tame`).
-/

namespace Lox

/-! ## Trees without loops -/

mutual

/-- There is no loop in the statement, nor in the functions and classes that it declares. -/
def Stmt.LoopFree : Stmt → Prop
  | .expression _ | .print _ | .varDecl _ _ | .yield _ _ => True
  | .block body => Stmt.AllLoopFree body
  | .branch _ thenCase none => thenCase.LoopFree
  | .branch _ thenCase (some elseCase) => thenCase.LoopFree ∧ elseCase.LoopFree
  | .loop _ _ => False
  | .function declaration => declaration.LoopFree
  | .classDecl _ _ methods => Function.AllLoopFree methods

def Stmt.AllLoopFree : List Stmt → Prop
  | [] => True
  | s :: rest => s.LoopFree ∧ Stmt.AllLoopFree rest

def Function.LoopFree : Function → Prop
  | .mk _ _ body => Stmt.AllLoopFree body

def Function.AllLoopFree : List Function → Prop
  | [] => True
  | f :: fs => f.LoopFree ∧ Function.AllLoopFree fs

end

theorem Function.AllLoopFree.of_mem {methods : List Function} (h : Function.AllLoopFree methods)
    {d : Function} (hd : d ∈ methods) : d.LoopFree := by
  induction methods with
  | nil => cases hd
  | cons first rest ih =>
    obtain rfl | hd := List.mem_cons.1 hd
    · exact h.1
    · exact ih h.2 hd

theorem Function.LoopFree.body {f : Function} (h : f.LoopFree) : Stmt.AllLoopFree f.body := by
  cases f
  exact h

/-! ## What a machine holds -/

/-- The closures that a value gives access to: a function's own, and the methods of a
class or of an object's class. -/
def Value.Offers : Value → Closure → Prop
  | .function _ closure, k => k = closure
  | .cls _ c, k | .object _ c, k => ∃ name, c.findMethod? name = some k
  | .nil, _ | .boolean _, _ | .number _, _ | .string _, _ | .clock, _ => False

/-- What a machine can hold. -/
inductive Thing where
  | frame (f : FrameId)
  | value (v : Value)

/-- The machine can come to this, from the current frame or the global one. -/
inductive Machine.Holds (m : Machine) : Thing → Prop
  | globals : m.Holds (.frame Heap.globals)
  | current : m.Holds (.frame m.frame)
  | outward {f e : FrameId} :
      m.Holds (.frame f) → m.heap.enclosing? f = some e → m.Holds (.frame e)
  | bound {f : FrameId} {name : String} {v : Value} :
      m.Holds (.frame f) → (m.heap.bindings f).find? name = some v → m.Holds (.value v)
  | field {object : Nat} {c : Class} {name : String} {v : Value} :
      m.Holds (.value (.object object c)) → (m.heap.fields object).find? name = some v →
      m.Holds (.value v)
  | closure {v : Value} {k : Closure} :
      m.Holds (.value v) → v.Offers k → m.Holds (.frame k.frame)

/-- No function or method that the machine holds has a loop. -/
def Machine.LoopFree (m : Machine) : Prop :=
  ∀ v k, m.Holds (.value v) → v.Offers k → k.declaration.LoopFree

/-! ## Tame values -/

/-- Frames and objects. -/
structure Live where
  frame : FrameId → Prop
  object : Nat → Prop

variable {live : Live}

/-- What the value offers has no loops, and is closed over a live frame; an object is live. -/
structure Value.Tame (live : Live) (v : Value) : Prop where
  offers : ∀ k, v.Offers k → k.declaration.LoopFree ∧ live.frame k.frame
  object : ∀ object c, v = .object object c → live.object object

/-- Live frames and objects hold tame values, and lead to live frames. What is not made
yet is live. -/
structure Heap.Tame (live : Live) (h : Heap) : Prop where
  globals : live.frame Heap.globals
  frames : ∀ f, h.frames.size ≤ f → live.frame f
  objects : ∀ object, h.objects.size ≤ object → live.object object
  enclosing : ∀ f e, live.frame f → h.enclosing? f = some e → live.frame e
  bindings : ∀ f name v, live.frame f → (h.bindings f).find? name = some v → v.Tame live
  fields : ∀ object name v, live.object object → (h.fields object).find? name = some v →
    v.Tame live

structure Machine.Tame (live : Live) (m : Machine) : Prop where
  heap : m.heap.Tame live
  frame : live.frame m.frame

/-- What a loop-free machine holds, and what is not made yet, is live. -/
theorem Machine.LoopFree.tame {m : Machine} (h : m.LoopFree) : ∃ live, m.Tame live := by
  let live : Live :=
    ⟨fun f => m.Holds (.frame f) ∨ m.heap.frames.size ≤ f,
      fun object => (∃ c, m.Holds (.value (.object object c))) ∨ m.heap.objects.size ≤ object⟩
  have hvalue : ∀ v, m.Holds (.value v) → v.Tame live := fun v hv =>
    ⟨fun k hk => ⟨h v k hv hk, .inl (hv.closure hk)⟩, fun object c he => .inl ⟨c, he ▸ hv⟩⟩
  refine ⟨live, ⟨.inl .globals, fun _ => .inr, fun _ => .inr, ?_, ?_, ?_⟩, .inl .current⟩
  · rintro f e (hf | hf) he
    · exact .inl (hf.outward he)
    · rw [Heap.enclosing?, Array.getElem?_eq_none hf] at he
      cases he
  · rintro f name v (hf | hf) hv
    · exact hvalue v (hf.bound hv)
    · rw [Heap.bindings_fresh hf] at hv
      cases hv
  · rintro object name v (⟨c, hc⟩ | ho) hv
    · exact hvalue v (hc.field hv)
    · rw [Heap.fields, Array.getElem?_eq_none ho] at hv
      cases hv

theorem Value.Atomic.tame {v : Value} (h : v.Atomic) : v.Tame live := by
  cases v with
  | function _ _ | cls _ _ | object _ _ => exact h.elim
  | _ => exact ⟨nofun, nofun⟩

namespace Value.Tame

variable {id object : Nat} {closure : Closure} {c : Class}

theorem function (h : closure.declaration.LoopFree) (hf : live.frame closure.frame) :
    (Value.function id closure).Tame live := ⟨by rintro _ rfl; exact ⟨h, hf⟩, nofun⟩

/-- The same class makes a value of its own and its objects tame. -/
theorem toObject (h : (Value.cls id c).Tame live) (ho : live.object object) :
    (Value.object object c).Tame live := ⟨h.offers, by rintro _ _ ⟨⟩; exact ho⟩

theorem method (h : (Value.cls id c).Tame live) {name : String} {method : Closure}
    (hm : c.findMethod? name = some method) :
    method.declaration.LoopFree ∧ live.frame method.frame := h.offers method ⟨name, hm⟩

/-- A class is tame if its own methods have no loops, and the class that it extends is tame. -/
theorem ofDeclaration {name : String} {superclass : Option Class} {methods : List Function}
    {f : FrameId} (hmethods : Function.AllLoopFree methods) (hf : live.frame f)
    (hsuper : ∀ c ∈ superclass, ∃ i, (Value.cls i c).Tame live) :
    (Value.cls id ⟨name, superclass, methodTable methods f⟩).Tame live := by
  have hown : ∀ n k, (methodTable methods f).lookup n = some k →
      k.declaration.LoopFree ∧ live.frame k.frame := fun n k hk => by
    obtain ⟨before, d, after, rfl, -, rfl, -⟩ := Class.lookup_methodTable_of_some hk
    exact ⟨hmethods.of_mem (List.mem_append_right _ (.head _)), hf⟩
  refine ⟨?_, nofun⟩
  rintro k ⟨n, hk⟩
  cases superclass with
  | none => exact hown n k hk
  | some c =>
    obtain ⟨i, hc⟩ := hsuper c rfl
    rw [Class.findMethod?] at hk
    split at hk
    · rename_i own hl
      cases hk
      exact hown n _ hl
    · exact hc.offers k ⟨n, hk⟩

end Value.Tame

/-! ## Tame heaps stay tame -/

namespace Heap.Tame

variable {h : Heap}

theorem define (hh : h.Tame live) (f : FrameId) (name : String) {v : Value} (hv : v.Tame live) :
    (h.define f name v).Tame live := by
  refine ⟨hh.globals, fun e he => hh.frames e ?_, hh.objects, fun e g hf he => ?_,
    fun e n w hf hw => ?_, hh.fields⟩
  · rwa [size_frames_define] at he
  · rw [enclosing?_define] at he
    exact hh.enclosing e g hf he
  · rw [find?_define] at hw
    split at hw
    · cases hw
      exact hv
    · exact hh.bindings e n w hf hw

theorem defineAll (hh : h.Tame live) (f : FrameId) {values : List (String × Value)}
    (hv : ∀ v ∈ values.map Prod.snd, v.Tame live) : (h.defineAll f values).Tame live := by
  induction values generalizing h with
  | nil => exact hh
  | cons entry rest ih =>
    exact ih (hh.define f entry.1 (hv _ (.head _))) fun v hm => hv v (.tail _ hm)

theorem newFrame (hh : h.Tame live) {e : FrameId} (he : live.frame e) :
    (h.newFrame (some e)).2.Tame live := by
  refine ⟨hh.globals, fun f hf => hh.frames f ?_, hh.objects, fun f g hf hg => ?_,
    fun f n w hf hw => ?_, hh.fields⟩
  · rw [size_newFrame] at hf
    exact Nat.le_of_succ_le hf
  · rw [enclosing?_newFrame] at hg
    split at hg
    · cases hg
      exact he
    · exact hh.enclosing f g hf hg
  · rw [bindings_newFrame] at hw
    exact hh.bindings f n w hf hw

theorem setField (hh : h.Tame live) (object : Nat) (name : String) {v : Value}
    (hv : v.Tame live) : (h.setField object name v).Tame live := by
  refine ⟨hh.globals, hh.frames, fun o ho => hh.objects o ?_, hh.enclosing, hh.bindings,
    fun o n w ho hw => ?_⟩
  · simpa [Heap.setField] using ho
  · rw [fields_setField] at hw
    split at hw
    · rw [Bindings.find?_insert] at hw
      split at hw
      · cases hw
        exact hv
      · exact hh.fields o n w ho hw
    · exact hh.fields o n w ho hw

theorem newObject (hh : h.Tame live) : h.newObject.2.Tame live := by
  refine ⟨hh.globals, hh.frames, fun o ho => hh.objects o ?_, hh.enclosing, hh.bindings,
    fun o n w ho hw => ?_⟩
  · simp only [Heap.newObject, Array.size_push] at ho
    exact Nat.le_of_succ_le ho
  · rw [fields_newObject] at hw
    exact hh.fields o n w ho hw

theorem newIdentity (hh : h.Tame live) : h.newIdentity.2.Tame live :=
  ⟨hh.globals, hh.frames, hh.objects, hh.enclosing, hh.bindings, hh.fields⟩

/-! ## What is looked up is tame -/

theorem ancestor? (hh : h.Tame live) {f e : FrameId} (hf : live.frame f) {d : Nat}
    (he : h.ancestor? f d = some e) : live.frame e := by
  induction d generalizing f with
  | zero =>
    cases he
    exact hf
  | succ d ih =>
    rw [Heap.ancestor?] at he
    cases hg : h.enclosing? f with
    | none =>
      rw [hg] at he
      cases he
    | some g =>
      rw [hg] at he
      exact ih (hh.enclosing f g hf hg) he

theorem getAt? (hh : h.Tame live) {f : FrameId} (hf : live.frame f) {d : Nat} {name : String}
    {v : Value} (hv : h.getAt? f d name = some v) : v.Tame live := by
  rw [Heap.getAt?] at hv
  split at hv
  · rename_i e he
    exact hh.bindings e name v (hh.ancestor? hf he) hv
  · cases hv

theorem mem_chain (hh : h.Tame live) (f : FrameId) (hf : live.frame f) :
    ∀ e ∈ h.chain f, live.frame e := by
  induction f using Nat.strongRecOn with
  | ind f ih =>
    rw [chain]
    split
    · rename_i e he
      split
      · rename_i hlt
        exact List.forall_mem_cons.2 ⟨hf, ih e hlt (hh.enclosing f e hf he)⟩
      · exact List.forall_mem_singleton.2 hf
    · exact List.forall_mem_singleton.2 hf

end Heap.Tame

theorem Machine.Tame.lookup? {m : Machine} (hm : m.Tame live) {id : Nat} {name : String}
    {v : Value} (hv : m.lookup? id name = some v) : v.Tame live := by
  rw [Machine.lookup?] at hv
  split at hv
  · exact hm.heap.getAt? hm.frame hv
  · rw [Heap.get?, List.findSome?_eq_some_iff] at hv
    obtain ⟨before, e, after, hchain, hv, -⟩ := hv
    refine hm.heap.bindings e name v (hm.heap.mem_chain _ hm.heap.globals e ?_) hv
    rw [hchain]
    simp

end Lox
