import Lox.Proofs.Eval.Bearing
import Lox.Proofs.Session.Discipline
import Lox.Proofs.Session.Methods

/-
  Traits in histories

  If all code that the requests of a history begin has a trait, then all that happens in
  the history has it (`bearing_of_happens`): code lives on in functions and methods
  after its request, but it is the same code.

  Frames that are made for `this` bind an object for ever. So does the frame of every
  initializer that runs (`Happens.bound_self`).
-/

namespace Lox

open Eval

namespace Session

variable {T : Trait} {made : FrameId → Opener → Prop} {rounds : Nat} {s s₁ : Session}
  {r : Request} {rs : List Request} {t : Task} {m : Machine}

/-- A request begins with code, and with the heap that it finds. -/
theorem Begins.bearing (hb : Begins r s t s₁) (hs : s.machine.heap.Bears T made)
    (hcode : T.code t) : Bearing T made t s₁.machine := by
  cases hb with
  | run | evaluate => exact ⟨hs, fun _ => hcode, .nil⟩

theorem Begins.bears_perform (hb : Begins r s t s₁) (hd : s.machine.depth ≤ maxCallDepth)
    (hs : s.machine.heap.Bears T made) (hcode : T.code t)
    (hmakes : Makes made rounds t s₁.machine) :
    (s.perform rounds r).2.machine.heap.Bears T made := by
  have hdepth : s₁.machine.depth ≤ maxCallDepth := hb.samePlace.2.symm ▸ hd
  rw [hb.session_eq]
  exact ((hb.bearing hs hcode).upholds hdepth hmakes).after.2

theorem Happens.bearing (h : Happens rounds s rs t m) (hd : s.machine.depth ≤ maxCallDepth)
    (hs : s.machine.heap.Bears T made) (hmade : ∀ f o, Made rounds s rs f o → made f o)
    (hcode : ∀ r ∈ rs, ∀ s t s₁, Begins r s t s₁ → T.code t) : Bearing T made t m := by
  induction h with
  | now hcomes =>
    obtain ⟨t₀, s₁, hb, hreach⟩ := hcomes
    have hdepth := hb.samePlace.2.symm ▸ hd
    have hfirst := hb.bearing hs (hcode _ (.head _) _ _ _ hb)
    exact hfirst.reaches hdepth (hb.makes hmade) hreach
  | @later s r rs t m _ ih =>
    have hmade' := fun f o (h : Made rounds (s.perform rounds r).2 rs f o) => hmade f o h.later
    refine ih ((samePlace_perform rounds s r).2.symm ▸ hd) ?_ hmade'
      fun r hr => hcode r (.tail _ hr)
    rcases perform_cases rounds s r with ⟨t₀, s₁, hb⟩ | ⟨a, k, hp, -⟩
    · exact hb.bears_perform hd hs (hcode _ (.head _) _ _ _ hb) (hb.makes hmade)
    · rw [hp]
      exact hs

variable {sink : Sink} {clock : Clock} {k : Closure} {arguments : List Value}

theorem bearing_of_happens (h : Happens rounds (start sink clock) rs t m)
    (hcode : ∀ r ∈ rs, ∀ s t s₁, Begins r s t s₁ → T.code t) :
    Bearing T (Made rounds (start sink clock) rs) t m := by
  refine h.bearing (Nat.zero_le _) ?_ (fun _ _ h => h) hcode
  exact Heap.all_start (Value.Inert.bears trivial)

/-! ## Frames of `this` -/

/-- A frame is made for `this` where a method is bound. -/
theorem obtains_of_creates {f : FrameId} (h : Creates rounds t m f .self) :
    ∃ method object c k, Obtains rounds t m method object c k ∧ k.frame = f := by
  cases h with
  | property hv hf hc => exact ⟨_, _, _, _, .property hv hf hc rfl, rfl⟩
  | superMethod hs hc => exact ⟨_, _, _, _, .superMethod hs hc rfl, rfl⟩
  | initializer hc => exact ⟨_, _, _, _, .construction hc rfl rfl, rfl⟩

theorem Made.binds_self {f : FrameId} (h : Made rounds (start sink clock) rs f .self) :
    ∃ object c, ((lastHeap rounds sink clock rs).bindings f).find? selfName =
      some (.object object c) := by
  obtain ⟨t, m, h, hc⟩ := h
  obtain ⟨method, object, c, k, hk, rfl⟩ := obtains_of_creates hc
  obtain ⟨ok, -, hm⟩ := moment_of_happens h
  have hbound := (hk.boundTo hm.depth hm.makes hm.good).mono (extends_lastHeap h)
  exact ⟨object, c, hbound.object⟩

/-- What a frame of a function that runs binds `this` to, it binds it to for ever. -/
theorem Happens.self_eq (h : Happens rounds (start sink clock) rs (.function k arguments) m) :
    (m.heap.bindings k.frame).find? selfName =
      ((lastHeap rounds sink clock rs).bindings k.frame).find? selfName := by
  obtain ⟨ok, -, hm⟩ := moment_of_happens h
  obtain ⟨-, ⟨-, os, r, kind, hfits, -⟩, -⟩ := hm.good.settled
  exact (h.heap_extends.reserved _ (hfits.lt_size hm.good.heap.global) _ (.inl rfl)).symm

/-- An initializer that runs has its object. -/
theorem Happens.bound_self (h : Happens rounds (start sink clock) rs (.function k arguments) m)
    (hcode : ∀ r ∈ rs, ∀ s t s₁, Begins r s t s₁ → T.code t) (hk : k.initializer = true) :
    ∃ object c, (m.heap.bindings k.frame).find? selfName = some (.object object c) := by
  have hvalue := (Value.AllBear.cons.1 (bearing_of_happens h hcode).values).1
  rw [h.self_eq]
  exact (hvalue.bound 0 k rfl hk).binds_self

end Session
end Lox
