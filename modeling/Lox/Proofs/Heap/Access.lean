import Lox.Proofs.Heap.Confined

/-
  Two ways to a variable

  A variable is reached by its name along the chain of frames, or at a distance.
  In every heap that is built from nothing a frame lies in an older one, so a
  chain ends (`Built.nested`). Both ways then lead to the same binding if the
  distance is that of the nearest frame that binds the name, and an assignment
  there changes this binding and no other (`Eval.chain_agrees_with_distance`).
-/

namespace Lox
namespace Heap

/-! ## Heaps that are built -/

/-- Frames as they are made and filled, from none at all. What else is in a heap
means nothing here. -/
inductive Built : Heap → Prop where
  | empty : Built .empty
  | elsewhere {h h' : Heap} (hb : Built h) (hf : h'.frames = h.frames) : Built h'
  | root {h : Heap} (hb : Built h) : Built (h.newFrame none).2
  | child {h : Heap} (hb : Built h) {f : FrameId} (hf : f < h.frames.size) :
    Built (h.newFrame (some f)).2
  | define {h : Heap} (hb : Built h) {f : FrameId} (hf : f < h.frames.size) (name : String)
    (v : Value) : Built (h.define f name v)
  | assign {h h' : Heap} (hb : Built h) {f : FrameId} {name : String} {v : Value}
    (ha : h.assign? f name v = some h') : Built h'
  | assignAt {h h' : Heap} (hb : Built h) {f : FrameId} {d : Nat} {name : String} {v : Value}
    (ha : h.assignAt? f d name v = some h') : Built h'

/-- Every frame lies in an older one. -/
def Nested (h : Heap) : Prop := ∀ f e, h.enclosing? f = some e → e < f

namespace Nested

variable {h h' : Heap}

theorem empty : Nested .empty := nofun

theorem elsewhere (hn : h.Nested) (hf : h'.frames = h.frames) : h'.Nested := by
  intro f e he
  rw [enclosing?, hf] at he
  exact hn f e he

theorem newFrame (hn : h.Nested) {enclosing : Option FrameId}
    (hlt : ∀ f ∈ enclosing, f < h.frames.size) : (h.newFrame enclosing).2.Nested := by
  intro f e he
  rw [enclosing?_newFrame] at he
  split at he
  · rename_i hf
    rw [hf]
    exact hlt e he
  · exact hn f e he

theorem define (hn : h.Nested) (f : FrameId) (name : String) (v : Value) :
    (h.define f name v).Nested := by
  intro g e he
  rw [enclosing?_define] at he
  exact hn g e he

end Nested

/-- Every way to build a heap puts frames into older ones. -/
theorem Built.nested {h : Heap} (hb : h.Built) : h.Nested := by
  induction hb with
  | empty => exact .empty
  | elsewhere _ hf ih => exact ih.elsewhere hf
  | root _ ih => exact ih.newFrame nofun
  | child _ hf ih => exact ih.newFrame fun f he => Option.some.inj he ▸ hf
  | define _ _ name v ih => exact ih.define _ name v
  | assign _ ha ih =>
    obtain ⟨e, -, rfl⟩ := Option.map_eq_some_iff.1 ha
    exact ih.define e _ _
  | assignAt _ ha ih =>
    obtain ⟨e, -, rfl⟩ := Option.map_eq_some_iff.1 ha
    exact ih.define e _ _

/-! ## Frames on the way outward -/

/-- `h.Outward f d e`: the frame `e` lies `d` steps outward from `f`. -/
inductive Outward (h : Heap) : FrameId → Nat → FrameId → Prop where
  | here (f : FrameId) : Outward h f 0 f
  | out {f g e : FrameId} {d : Nat} (hg : h.enclosing? f = some g) (he : Outward h g d e) :
    Outward h f (d + 1) e

/-- `h.Nearest f name d e`: of the frames outward from `f` that bind the name, the
nearest is `e`, at the distance `d`. -/
structure Nearest (h : Heap) (f : FrameId) (name : String) (d : Nat) (e : FrameId) : Prop where
  outward : h.Outward f d e
  binds : h.Binds e name
  inner : ∀ d' < d, ∀ e', h.Outward f d' e' → ¬h.Binds e' name

section Ways

variable {h : Heap} {f g e : FrameId} {d : Nat} {name : String}

theorem ancestor?_eq_some_iff : h.ancestor? f d = some e ↔ h.Outward f d e := by
  constructor
  · intro he
    induction d generalizing f with
    | zero =>
      cases he
      exact .here _
    | succ d ih =>
      rw [ancestor?] at he
      cases hg : h.enclosing? f with
      | none =>
        rw [hg] at he
        cases he
      | some g =>
        rw [hg] at he
        exact .out hg (ih he)
  · intro he
    induction he with
    | here => rfl
    | out hg _ ih => exact (ancestor?_succ hg _).trans ih

theorem Outward.unique {e' : FrameId} (he : h.Outward f d e) (he' : h.Outward f d e') : e = e' :=
  Option.some.inj ((ancestor?_eq_some_iff.2 he).symm.trans (ancestor?_eq_some_iff.2 he'))

theorem nearest_of_binds (hb : h.Binds f name) : h.Nearest f name 0 f :=
  ⟨.here f, hb, fun _ hd => absurd hd (Nat.not_lt_zero _)⟩

/-- A frame that does not bind the name is stepped over. -/
theorem Nearest.step (hg : h.enclosing? f = some g) (hb : ¬h.Binds f name)
    (he : h.Nearest g name d e) : h.Nearest f name (d + 1) e := by
  refine ⟨.out hg he.outward, he.binds, fun d' hd e' he' => ?_⟩
  cases he' with
  | here => exact hb
  | out hg' hout =>
    obtain rfl : g = _ := Option.some.inj (hg.symm.trans hg')
    exact he.inner _ (Nat.lt_of_succ_lt_succ hd) e' hout

/-- The search along the chain ends at the nearest frame. -/
theorem holder?_of_nearest (hn : h.Nested) (he : h.Nearest f name d e) :
    h.holder? f name = some e := by
  induction d generalizing f with
  | zero =>
    cases he.outward
    exact holder?_of_binds he.binds
  | succ d ih =>
    obtain ⟨hout, hbinds, hinner⟩ := he
    cases hout with
    | out hg hout =>
      rw [holder?_of_not_binds hg (hn f _ hg) (hinner 0 (Nat.succ_pos d) f (.here f))]
      exact ih ⟨hout, hbinds, fun d' hd e' he' => hinner (d' + 1) (Nat.succ_lt_succ hd) e' (.out hg he')⟩

theorem nearest_of_holder? (hn : h.Nested) (he : h.holder? f name = some e) :
    ∃ d, h.Nearest f name d e := by
  -- frames outward are older, so the induction is on the number of the frame
  induction f using Nat.strongRecOn with
  | _ f ih =>
    by_cases hb : h.Binds f name
    · rw [holder?_of_binds hb] at he
      cases he
      exact ⟨0, nearest_of_binds hb⟩
    · cases hg : h.enclosing? f with
      | none =>
        have hnone : h.holder? f name = none := by
          rw [holder?, chain_of_none hg]
          exact List.find?_cons_of_neg hb
        rw [hnone] at he
        cases he
      | some g =>
        rw [holder?_of_not_binds hg (hn f g hg) hb] at he
        obtain ⟨d, hnear⟩ := ih g (hn f g hg) he
        exact ⟨d + 1, hnear.step hg hb⟩

theorem holder?_eq_some_iff (hn : h.Nested) :
    h.holder? f name = some e ↔ ∃ d, h.Nearest f name d e :=
  ⟨nearest_of_holder? hn, fun ⟨_, he⟩ => holder?_of_nearest hn he⟩

/-- No frame on the way binds the name. -/
theorem holder?_eq_none (hn : h.Nested) (hb : ∀ d e, h.Outward f d e → ¬h.Binds e name) :
    h.holder? f name = none := by
  cases he : h.holder? f name with
  | none => rfl
  | some e =>
    obtain ⟨d, hnear⟩ := nearest_of_holder? hn he
    exact absurd hnear.binds (hb d e hnear.outward)

theorem holderAt?_of_outward (he : h.Outward f d e) (hb : h.Binds e name) :
    h.holderAt? f d name = some e := by
  rw [holderAt?, ancestor?_eq_some_iff.2 he]
  exact Option.filter_eq_some_iff.2 ⟨rfl, hb⟩

/-- A distance past the last frame, or to one that does not bind the name. -/
theorem holderAt?_eq_none
    (hb : (∀ e, ¬h.Outward f d e) ∨ ∃ e, h.Outward f d e ∧ ¬h.Binds e name) :
    h.holderAt? f d name = none := by
  cases he : h.holderAt? f d name with
  | none => rfl
  | some e =>
    obtain ⟨ha, hbinds⟩ := Option.filter_eq_some_iff.1 he
    have hout := ancestor?_eq_some_iff.1 ha
    obtain hpast | ⟨e', hout', hnot⟩ := hb
    · exact absurd hout (hpast e)
    · exact absurd (hout.unique hout' ▸ hbinds) hnot

/-! ## What a lookup reads -/

/-- A lookup along the chain reads in the frame that an assignment writes in. -/
theorem get?_eq (h : Heap) (f : FrameId) (name : String) :
    h.get? f name = (h.holder? f name).bind fun e => (h.bindings e).find? name := by
  rw [get?, holder?]
  induction h.chain f with
  | nil => rfl
  | cons e chain ih =>
    rw [List.findSome?_cons]
    cases hv : (h.bindings e).find? name with
    | none =>
      rw [List.find?_cons_of_neg (by simp [hv])]
      exact ih
    | some v =>
      rw [List.find?_cons_of_pos (by simp [hv])]
      exact hv.symm

theorem getAt?_eq (h : Heap) (f : FrameId) (d : Nat) (name : String) :
    h.getAt? f d name = (h.holderAt? f d name).bind fun e => (h.bindings e).find? name := by
  rw [getAt?, holderAt?]
  cases h.ancestor? f d with
  | none => rfl
  | some e => cases hv : (h.bindings e).find? name <;> simp [Option.filter, hv]

theorem getAt?_of_outward (he : h.Outward f d e) :
    h.getAt? f d name = (h.bindings e).find? name := by
  rw [getAt?, ancestor?_eq_some_iff.2 he]

end Ways

/-! ## Assignments to one binding -/

/-- `h.Rewritten e name v h'`: in the second heap the name has the value in the frame
`e`, and nothing else is different. -/
structure Rewritten (h : Heap) (e : FrameId) (name : String) (v : Value) (h' : Heap) : Prop where
  value : (h'.bindings e).find? name = some v
  others : ∀ f n, ¬(f = e ∧ n = name) → (h'.bindings f).find? n = (h.bindings f).find? n
  enclosing : ∀ f, h'.enclosing? f = h.enclosing? f
  size : h'.frames.size = h.frames.size
  objects : h'.objects = h.objects
  nextIdentity : h'.nextIdentity = h.nextIdentity
  /-- Frames whose chain comes to this binding first read the new value, -/
  reached : ∀ f d, h.Nearest f name d e → h'.get? f name = some v
  /-- and all other lookups along a chain read what they read before. -/
  unreached : ∀ f n, ¬(n = name ∧ ∃ d, h.Nearest f n d e) → h'.get? f n = h.get? f n
  reachedAt : ∀ f d, h.Outward f d e → h'.getAt? f d name = some v
  unreachedAt : ∀ f d n, ¬(n = name ∧ h.Outward f d e) → h'.getAt? f d n = h.getAt? f d n

section Assignments

variable {h : Heap} {f e : FrameId} {d : Nat} {name : String}

theorem chain_congr {h h' : Heap} (he : ∀ f, h'.enclosing? f = h.enclosing? f) (f : FrameId) :
    h'.chain f = h.chain f := by
  induction f using Nat.strongRecOn with
  | _ f ih =>
    rw [chain, chain, he]
    cases h.enclosing? f with
    | none => rfl
    | some e =>
      dsimp only
      by_cases hlt : e < f
      · rw [if_pos hlt, if_pos hlt, ih e hlt]
      · rw [if_neg hlt, if_neg hlt]

/-- An assignment where the name is bound adds no bindings. -/
theorem isSome_find?_define (hb : h.Binds e name) (v : Value) (f : FrameId) (n : String) :
    (((h.define e name v).bindings f).find? n).isSome = ((h.bindings f).find? n).isSome := by
  rw [find?_define]
  split
  · rename_i hc
    rw [hc.1, hc.2.2]
    exact hb.symm
  · rfl

theorem holder?_define (hb : h.Binds e name) (v : Value) (f : FrameId) (n : String) :
    (h.define e name v).holder? f n = h.holder? f n := by
  rw [holder?, holder?, chain_congr fun f => enclosing?_define ..]
  exact congrArg (List.find? · (h.chain f)) (funext fun g => isSome_find?_define hb v g n)

theorem holderAt?_define (hb : h.Binds e name) (v : Value) (f : FrameId) (d : Nat) (n : String) :
    (h.define e name v).holderAt? f d n = h.holderAt? f d n := by
  rw [holderAt?, holderAt?, ancestor?_congr fun f => enclosing?_define ..]
  exact congrArg (Option.filter · (h.ancestor? f d)) (funext fun g => isSome_find?_define hb v g n)

theorem find?_define_of_ne {v : Value} {n : String} (hne : ¬(f = e ∧ n = name)) :
    ((h.define e name v).bindings f).find? n = (h.bindings f).find? n := by
  rw [find?_define, if_neg fun hc => hne ⟨hc.1, hc.2.2⟩]

theorem rewritten_define (hn : h.Nested) (hb : h.Binds e name) (v : Value) :
    h.Rewritten e name v (h.define e name v) := by
  have hvalue : ((h.define e name v).bindings e).find? name = some v := by
    rw [find?_define, if_pos ⟨rfl, lt_size_of_binds hb, rfl⟩]
  refine ⟨hvalue, fun f n => find?_define_of_ne, fun f => enclosing?_define ..,
    size_frames_define .., rfl, rfl, fun f d hnear => ?_, fun f n hnot => ?_, fun f d hout => ?_,
    fun f d n hnot => ?_⟩
  · -- along the chain the nearest frame with the name is the one that was written
    rw [get?_eq, holder?_define hb, holder?_of_nearest hn hnear]
    exact hvalue
  · rw [get?_eq, get?_eq, holder?_define hb]
    cases hh : h.holder? f n with
    | none => rfl
    | some e' =>
      -- a read that finds another frame, or another name, finds what was there
      refine find?_define_of_ne fun hc => hnot ⟨hc.2, ?_⟩
      exact (holder?_eq_some_iff hn).1 (hc.1 ▸ hh)
  · rw [getAt?_eq, holderAt?_define hb, holderAt?_of_outward hout hb]
    exact hvalue
  · rw [getAt?_eq, getAt?_eq, holderAt?_define hb]
    cases hh : h.holderAt? f d n with
    | none => rfl
    | some e' =>
      refine find?_define_of_ne fun hc => hnot ⟨hc.2, ?_⟩
      exact ancestor?_eq_some_iff.1 (Option.filter_eq_some_iff.1 (hc.1 ▸ hh)).1

end Assignments
end Heap

/-! ## Steps that go either way -/

namespace Eval

/-- The end of a step that looks for a name and does not find it. -/
def undefined (name : Token) : Halt RuntimeError :=
  .error (.program name.line (.undefinedVariable name.lexeme))

/-- Reads a name along the chain of a frame. -/
def readFrom (f : FrameId) (name : Token) : Eval Value := fun m =>
  match m.heap.get? f name.lexeme with
  | some v => .ok v m
  | none => .error (undefined name) m

/-- Reads a name at a distance from a frame. -/
def readAt (f : FrameId) (d : Nat) (name : Token) : Eval Value := fun m =>
  match m.heap.getAt? f d name.lexeme with
  | some v => .ok v m
  | none => .error (undefined name) m

/-- Assigns to a name along the chain of a frame. -/
def assignFrom (f : FrameId) (name : Token) (v : Value) : Eval Unit := fun m =>
  match m.heap.assign? f name.lexeme v with
  | some heap => .ok () { m with heap }
  | none => .error (undefined name) m

/-- Assigns to a name at a distance from a frame. -/
def assignAt (f : FrameId) (d : Nat) (name : Token) (v : Value) : Eval Unit := fun m =>
  match m.heap.assignAt? f d name.lexeme v with
  | some heap => .ok () { m with heap }
  | none => .error (undefined name) m

/-- A use of a variable goes one of the two ways. -/
theorem readVariable_eq_either (id : Nat) (name : Token) (m : Machine) :
    readVariable id name m = match m.distances[id]? with
      | some d => readAt m.frame d name m
      | none => readFrom Heap.globals name m := by
  rw [readVariable_eq, Machine.lookup?]
  cases m.distances[id]? with
  | none =>
    dsimp only
    rw [readFrom]
    cases m.heap.get? Heap.globals name.lexeme <;> rfl
  | some d =>
    dsimp only
    rw [readAt]
    cases m.heap.getAt? m.frame d name.lexeme <;> rfl

theorem assign_eq_from (name : Token) (v : Value) (m : Machine) :
    assign name v m = assignFrom m.frame name v m := by
  rw [assign, assignFrom, Heap.assign?]
  cases m.heap.holder? m.frame name.lexeme <;> rfl

theorem writeVariable_eq_either (id : Nat) (name : Token) (v : Value) (m : Machine) :
    writeVariable id name v m = match m.distances[id]? with
      | some d => assignAt m.frame d name v m
      | none => assignFrom Heap.globals name v m := by
  have hw : writeVariable id name v m = assignIn (m.holder? id name.lexeme) name v m := rfl
  rw [hw, Machine.holder?]
  cases m.distances[id]? with
  | none =>
    dsimp only
    rw [assignFrom, Heap.assign?]
    cases m.heap.holder? Heap.globals name.lexeme <;> rfl
  | some d =>
    dsimp only
    rw [assignAt, Heap.assignAt?]
    cases m.heap.holderAt? m.frame d name.lexeme <;> rfl

/-- At the distance of the nearest frame that binds the name, both ways read the same
value and assign to the same binding. Without such a frame the way along the chain ends
in an error, and at a distance where the name is not bound the other way does, whatever
the other frames bind. -/
theorem chain_agrees_with_distance {m : Machine} (hbuilt : m.heap.Built) (f : FrameId) (name : Token) :
    (∀ d e, m.heap.Nearest f name.lexeme d e →
      (∃ v, (m.heap.bindings e).find? name.lexeme = some v ∧
        readFrom f name m = .ok v m ∧ readAt f d name m = .ok v m) ∧
      ∀ v, ∃ heap, m.heap.Rewritten e name.lexeme v heap ∧
        assignFrom f name v m = .ok () { m with heap } ∧
        assignAt f d name v m = .ok () { m with heap }) ∧
    ((∀ d e, m.heap.Outward f d e → ¬m.heap.Binds e name.lexeme) →
      readFrom f name m = .error (undefined name) m ∧
      ∀ v, assignFrom f name v m = .error (undefined name) m) ∧
    ∀ d, ((∀ e, ¬m.heap.Outward f d e) ∨
        ∃ e, m.heap.Outward f d e ∧ ¬m.heap.Binds e name.lexeme) →
      m.heap.getAt? f d name.lexeme = none ∧
      readAt f d name m = .error (undefined name) m ∧
      ∀ v, assignAt f d name v m = .error (undefined name) m := by
  have hn := hbuilt.nested
  refine ⟨fun d e hnear => ⟨?_, fun v => ?_⟩, fun hnone => ?_, fun d hnone => ?_⟩
  · obtain ⟨v, hv⟩ := Option.isSome_iff_exists.1 hnear.binds
    refine ⟨v, hv, ?_, ?_⟩
    · -- frames are nested, so the nearest one with the name is the first one on the chain
      rw [readFrom, Heap.get?_eq, Heap.holder?_of_nearest hn hnear, Option.bind_some, hv]
    · rw [readAt, Heap.getAt?_of_outward hnear.outward, hv]
  · refine ⟨m.heap.define e name.lexeme v, Heap.rewritten_define hn hnear.binds v, ?_, ?_⟩
    · rw [assignFrom, Heap.assign?, Heap.holder?_of_nearest hn hnear]
      rfl
    · rw [assignAt, Heap.assignAt?, Heap.holderAt?_of_outward hnear.outward hnear.binds]
      rfl
  · have hholder := Heap.holder?_eq_none hn hnone
    refine ⟨?_, fun v => ?_⟩
    · rw [readFrom, Heap.get?_eq, hholder]
      rfl
    · rw [assignFrom, Heap.assign?, hholder]
      rfl
  · have hholder := Heap.holderAt?_eq_none hnone
    have hget : m.heap.getAt? f d name.lexeme = none := by
      rw [Heap.getAt?_eq, hholder]
      rfl
    refine ⟨hget, ?_, fun v => ?_⟩
    · rw [readAt, hget]
    · rw [assignAt, Heap.assignAt?, hholder]
      rfl

theorem chain_agrees_with_distance_shadowed :
    let name : Token := ⟨.identifier, "x", 1⟩
    let outer := (Heap.empty.newFrame none).2.define 0 "x" .nil
    let inner := ((outer.newFrame (some 0)).2.define 1 "x" (.boolean true)).newFrame (some 1)
    let m := { Machine.start .unlimited (.ticking 0) with heap := inner.2 }
    m.heap.Built ∧ m.heap.Nearest 2 "x" 1 1 ∧
      readFrom 2 name m = .ok (.boolean true) m ∧ readAt 2 1 name m = .ok (.boolean true) m := by
  intro name outer inner m
  have houter : outer.Built := .define (.root .empty) (by decide) "x" .nil
  have hmiddle : (outer.newFrame (some 0)).2.Built := .child houter (by decide)
  have hbuilt : m.heap.Built := .child (.define hmiddle (by decide) "x" (.boolean true)) (by decide)
  have hbinds : m.heap.Binds 1 "x" := rfl
  have hnear : m.heap.Nearest 2 "x" 1 1 :=
    (Heap.nearest_of_binds hbinds).step rfl Bool.false_ne_true
  obtain ⟨v, hv, hfrom, hat⟩ := ((chain_agrees_with_distance hbuilt 2 name).1 1 1 hnear).1
  cases hv
  exact ⟨hbuilt, hnear, hfrom, hat⟩

end Eval
end Lox
