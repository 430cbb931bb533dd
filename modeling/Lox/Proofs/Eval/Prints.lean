import Lox.Proofs.Eval.Failure
import Lox.Proofs.Eval.Hereditary
import Lox.Proofs.Sink.Cut

/-
  Printing into any sink

  What an evaluation prints, and how it ends, does not depend on the sink, as long
  as the sink takes the text. Otherwise the evaluation ends where the sink fails, which
  has taken of the text what it takes of it at once (`Prints`).
-/

namespace Lox

/-- The end of a step, with another sink. -/
def Eval.onSink {α : Type} (sink : Sink) :
    EStateM.Result (Halt RuntimeError) Machine α → EStateM.Result (Halt RuntimeError) Machine α
  | .ok a m => .ok a { m with sink }
  | .error e m => .error e { m with sink }

/-- `Prints x m text r`: on the machine `m` the step prints the text and ends like `r`,
unless the sink fails at the text. -/
structure Eval.Prints {α : Type} (x : Eval α) (m : Machine) (text : String)
    (r : EStateM.Result (Halt RuntimeError) Machine α) : Prop where
  taken : ∀ sink : Sink, (sink.write text).1 = true →
    x { m with sink } = onSink (sink.write text).2 r
  failed : ∀ sink : Sink, (sink.write text).1 = false →
    ∃ m', x { m with sink } = .error (.error (.host .sinkFull)) m' ∧
      m'.sink = (sink.write text).2

/-- A step that prints the same into every sink. -/
def Eval.Printing {α : Type} (x : Eval α) : Prop := ∀ m, ∃ text r, x.Prints m text r

namespace Eval

section Steps

variable {α β : Type} {m : Machine} {text : String}

/-- A step that prints nothing. -/
theorem Prints.silent {x : Eval α} {r : EStateM.Result (Halt RuntimeError) Machine α}
    (h : ∀ sink, x { m with sink } = onSink sink r) : x.Prints m "" r := by
  refine ⟨fun sink _ => ?_, fun sink hcut => ?_⟩
  · rw [Sink.write_empty, h]
  · rw [Sink.write_empty] at hcut
    cases hcut

theorem Prints.bind_of_ok {x : Eval α} {f : α → Eval β} {a : α} {m₁ : Machine} {more : String}
    {r : EStateM.Result (Halt RuntimeError) Machine β} (hx : x.Prints m text (.ok a m₁))
    (hf : (f a).Prints m₁ more r) : (x >>= f).Prints m (text ++ more) r := by
  refine ⟨fun sink htaken => ?_, fun sink hcut => ?_⟩
  · cases hw : (sink.write text).1 with
    | true =>
      rw [Sink.write_append_of_taken hw] at htaken ⊢
      exact (Eval.bind_of_ok (hx.taken sink hw)).trans (hf.taken _ htaken)
    | false =>
      -- a sink that does not take the first text does not take both
      rw [Sink.write_append_of_cut hw, hw] at htaken
      cases htaken
  · cases hw : (sink.write text).1 with
    | true =>
      rw [Sink.write_append_of_taken hw] at hcut ⊢
      obtain ⟨m', hm', hsink⟩ := hf.failed _ hcut
      exact ⟨m', (Eval.bind_of_ok (hx.taken sink hw)).trans hm', hsink⟩
    | false =>
      rw [Sink.write_append_of_cut hw]
      obtain ⟨m', hm', hsink⟩ := hx.failed sink hw
      exact ⟨m', Eval.bind_of_error hm', hsink⟩

theorem Prints.bind_of_error {x : Eval α} {e : Halt RuntimeError} {m₁ : Machine}
    (hx : x.Prints m text (.error e m₁)) (f : α → Eval β) :
    (x >>= f).Prints m text (.error e m₁) := by
  refine ⟨fun sink htaken => Eval.bind_of_error (hx.taken sink htaken), fun sink hcut => ?_⟩
  obtain ⟨m', hm', hsink⟩ := hx.failed sink hcut
  exact ⟨m', Eval.bind_of_error hm', hsink⟩

theorem Printing.bind {x : Eval α} {f : α → Eval β} (hx : x.Printing)
    (hf : ∀ a, (f a).Printing) : (x >>= f).Printing := by
  intro m
  obtain ⟨text, r, h⟩ := hx m
  cases r with
  | ok a m₁ =>
    obtain ⟨more, r, h'⟩ := hf a m₁
    exact ⟨_, r, h.bind_of_ok h'⟩
  | error e m₁ => exact ⟨text, _, h.bind_of_error f⟩

/-- A step inside another one, which does not look at the sink on the way in or out. -/
theorem Prints.inside {x y : Eval α} {m₀ : Machine}
    {r : EStateM.Result (Halt RuntimeError) Machine α} (hx : x.Prints m₀ text r)
    (leave : Machine → Machine)
    (hok : ∀ sink a m', x { m₀ with sink } = .ok a m' → y { m with sink } = .ok a (leave m'))
    (herror : ∀ sink e m', x { m₀ with sink } = .error e m' →
      y { m with sink } = .error e (leave m'))
    (hleave : ∀ (m' : Machine) sink, leave { m' with sink } = { leave m' with sink }) :
    ∃ r', y.Prints m text r' := by
  -- a sink that does not take the text fails the inner step, and with it the outer one
  have hfailed : ∀ sink : Sink, (sink.write text).1 = false →
      ∃ m', y { m with sink } = .error (.error (.host .sinkFull)) m' ∧
        m'.sink = (sink.write text).2 := by
    intro sink hcut
    obtain ⟨m', hm', hsink⟩ := hx.failed sink hcut
    refine ⟨leave m', herror sink _ m' hm', ?_⟩
    rw [← hsink, show leave m' = { leave m' with sink := m'.sink } from hleave m' m'.sink]
  cases r with
  | ok a m₁ =>
    refine ⟨.ok a (leave m₁), fun sink htaken => ?_, hfailed⟩
    rw [hok sink a _ (hx.taken sink htaken), hleave]
    rfl
  | error e m₁ =>
    refine ⟨.error e (leave m₁), fun sink htaken => ?_, hfailed⟩
    rw [herror sink e _ (hx.taken sink htaken), hleave]
    rfl

theorem Printing.inFrame (f : FrameId) {x : Eval α} (hx : x.Printing) :
    (Eval.inFrame f x).Printing := by
  intro m
  obtain ⟨text, r, h⟩ := hx { m with frame := f }
  refine ⟨text, h.inside (fun m' => { m' with frame := m.frame }) ?_ ?_ fun _ _ => rfl⟩
  · intro sink a m' hm'
    exact inFrame_of_ok (m := { m with sink }) hm'
  · intro sink e m' hm'
    exact inFrame_of_error (m := { m with sink }) hm'

theorem Printing.oneDeeper {x : Eval α} (hx : x.Printing) : (Eval.oneDeeper x).Printing := by
  intro m
  obtain ⟨text, r, h⟩ := hx { m with depth := m.depth + 1 }
  refine ⟨text, h.inside (fun m' => { m' with depth := m'.depth - 1 }) ?_ ?_
    fun _ _ => rfl⟩
  · intro sink a m' hm'
    exact oneDeeper_of_ok (m := { m with sink }) hm'
  · intro sink e m' hm'
    exact oneDeeper_of_error (m := { m with sink }) hm'

/-- The one step that writes. -/
theorem prints_print (text : String) (m : Machine) : (Eval.print text).Prints m text (.ok () m) := by
  refine ⟨fun sink htaken => ?_, fun sink hcut => ?_⟩
  · exact print_of_true (m := { m with sink }) htaken
  · exact ⟨_, print_of_false (m := { m with sink }) hcut, rfl⟩

end Steps

/-- All that is evaluated prints into every sink alike. -/
theorem printing : Hereditary Printing where
  pure a m := ⟨"", .ok a m, .silent fun _ => rfl⟩
  throw e m := ⟨"", .error e m, .silent fun _ => rfl⟩
  bind := .bind
  inFrame := .inFrame
  oneDeeper := .oneDeeper
  put a heap readings m := ⟨"", .ok a { m with heap, readings }, .silent fun _ => rfl⟩
  choose h m := by
    obtain ⟨y, hy, hxy⟩ := h m
    obtain ⟨text, r, hr⟩ := hy m
    exact ⟨text, r, fun sink ht => (hxy sink).trans (hr.taken sink ht), fun sink hc => by
      rw [hxy]
      exact hr.failed sink hc⟩
  print text m := ⟨text, _, prints_print text m⟩

end Eval
end Lox
