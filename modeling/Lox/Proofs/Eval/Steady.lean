import Lox.Proofs.Eval.Hereditary

/-
  Steady evaluation — what a step leaves as it found it

  Whatever is evaluated, and however it ends, the machine is back in the frame
  it was in and at the depth it was at; the recorded distances and the clock
  are never touched, nothing is flushed, and what was printed stays printed. `Steady` says so of a
  step, and it is hereditary (`steady`).
-/

namespace Lox

/-- What a sink took before a text is there after it. -/
theorem Sink.written_write (s : Sink) (text : String) :
    s.written.toList <+: (s.write text).2.written.toList := by
  rw [Sink.write]
  split <;> (rw [String.toList_append]; exact List.prefix_append _ _)

/-- The registers of a machine are those of another one, which has printed more. -/
structure Machine.Keeps (m m' : Machine) : Prop where
  frame : m'.frame = m.frame
  depth : m'.depth = m.depth
  distances : m'.distances = m.distances
  clock : m'.clock = m.clock
  flushes : m'.flushes = m.flushes
  printed : m.sink.written.toList <+: m'.sink.written.toList

namespace Machine.Keeps

/-- A machine with another heap, whose clock may have been read. -/
theorem withHeap {m : Machine} (heap : Heap) (readings : Nat) :
    m.Keeps { m with heap, readings } := ⟨rfl, rfl, rfl, rfl, rfl, List.prefix_refl _⟩

theorem refl (m : Machine) : m.Keeps m := withHeap m.heap m.readings

theorem trans {m m' m'' : Machine} (h : m.Keeps m') (h' : m'.Keeps m'') : m.Keeps m'' :=
  ⟨h'.frame.trans h.frame, h'.depth.trans h.depth, h'.distances.trans h.distances,
    h'.clock.trans h.clock, h'.flushes.trans h.flushes, h.printed.trans h'.printed⟩

end Machine.Keeps

namespace Eval

/-! ## Steady steps -/

theorem keeps_after_of_eq {α : Type} {x y : Eval α} {m : Machine} (h : x m = y m)
    (hk : m.Keeps (after y m)) : m.Keeps (after x m) := by
  rwa [after, h]

/-- A step that ends with the registers it began with. -/
def Steady {α : Type} (x : Eval α) : Prop := ∀ m : Machine, m.Keeps (x.after m)

namespace Steady

variable {α β : Type}

theorem of_ok {x : Eval α} (h : Steady x) {m m' : Machine} {a : α} (hx : x m = .ok a m') :
    m.Keeps m' := after_of_ok hx ▸ h m

theorem of_error {x : Eval α} (h : Steady x) {m m' : Machine} {e : Halt RuntimeError}
    (hx : x m = .error e m') : m.Keeps m' := after_of_error hx ▸ h m

theorem pure (a : α) : Steady (Pure.pure a : Eval α) := .refl

theorem throw (e : Halt RuntimeError) : Steady (MonadExcept.throw e : Eval α) := .refl

theorem bind {x : Eval α} {f : α → Eval β} (hx : Steady x) (hf : ∀ a, Steady (f a)) :
    Steady (x >>= f) := by
  intro m
  cases h : x m with
  | ok a m₁ =>
    rw [after, bind_of_ok h]
    exact (hx.of_ok h).trans (hf a m₁)
  | error e m₁ =>
    rw [after_of_error (bind_of_error h)]
    exact hx.of_error h

/-- Both ways out of a frame lead back to the frame before. -/
theorem inFrame (f : FrameId) {x : Eval α} (hx : Steady x) : Steady (Eval.inFrame f x) := by
  intro m
  have h := hx { m with frame := f }
  rw [after] at h
  rw [after, Eval.inFrame]
  cases hr : x { m with frame := f } <;>
    (rw [hr] at h; exact ⟨rfl, h.depth, h.distances, h.clock, h.flushes, h.printed⟩)

theorem oneDeeper {x : Eval α} (hx : Steady x) : Steady (Eval.oneDeeper x) := by
  intro m
  have h := hx { m with depth := m.depth + 1 }
  rw [after] at h
  rw [after, Eval.oneDeeper]
  cases hr : x { m with depth := m.depth + 1 } <;>
    (rw [hr] at h; exact ⟨h.frame, by simp [h.depth], h.distances, h.clock, h.flushes, h.printed⟩)

theorem print (text : String) : Steady (Eval.print text) := by
  intro m
  have h : ∀ taken (m₁ : Machine), m.Keeps m₁ → m.Keeps (after
      (fun _ => if taken = true then .ok () m₁ else .error (.error (.host .sinkFull)) m₁ :
        Eval Unit) m) := by
    intro taken m₁ h
    cases taken <;> exact h
  exact h _ _ ⟨rfl, rfl, rfl, rfl, rfl, m.sink.written_write text⟩

end Steady

/-- Flushing is attempted, and then nothing but that is noted. -/
theorem after_flush (m : Machine) : Eval.flush.after m = m.flushed := by
  rw [after, Eval.flush]
  cases m.sink.flushFails <;> rfl

/-- All that is evaluated is steady. -/
theorem steady : Hereditary Steady where
  pure := .pure
  throw := .throw
  bind := .bind
  inFrame := .inFrame
  oneDeeper := .oneDeeper
  put _ heap readings _ := .withHeap heap readings
  choose h m := by
    obtain ⟨y, hy, hxy⟩ := h m
    exact keeps_after_of_eq (hxy m.sink) (hy m)
  print := .print

end Eval

open Eval

theorem steady_evaluate (rounds : Nat) (e : Expr) : Steady (evaluate rounds e) :=
  steady.eval (steady.runBody rounds _) e

theorem steady_execute (rounds : Nat) (s : Stmt) : Steady (execute rounds s) :=
  steady.exec (steady.runBody rounds _) s

end Lox
