import Lox.Proofs.Tree.Renamed
import Lox.Proofs.Value.Operators
import Lox.Proofs.Value.Similar

/-
  Renamed values

  When a local variable is renamed, functions and classes are made of renamed trees.
  How a tree is renamed depends on where it stands, so a closure is judged by its
  frame: `Marks` tells of frames how far they lie inside one that belongs to the
  scope of the variable. Frames are made all the time, and what is known of them only
  grows.
-/

namespace Lox

open Renaming (Inside)

/-- What is known of frames: that a frame lies so many frames inside one of the scope of
the variable, or that it lies outside of them all. -/
abbrev Marks := FrameId → Option (Option Nat)

/-- At least as much is known of frames. -/
def Marks.Le (W V : Marks) : Prop := ∀ f away, W f = some away → V f = some away

theorem Marks.Le.refl (W : Marks) : W.Le W := fun _ _ h => h

theorem Marks.Le.trans {W V U : Marks} (h : W.Le V) (h' : V.Le U) : W.Le U :=
  fun f away hf => h' f away (h f away hf)

/-- Closures whose declarations stand in a scope at this place. -/
structure Closure.Renamed (R : Renaming) (outer : Option Nat) (c c' : Closure) : Prop where
  frame : c'.frame = c.frame
  initializer : c'.initializer = c.initializer
  declaration : ∃ inner, Inside outer inner ∧ c.declaration.Renamed R inner c'.declaration

section

variable (R : Renaming) (W : Marks)

/-- A function, or a bound method: its declaration stands in the scope of its frame. -/
def Closure.RenamedFunction (c c' : Closure) : Prop :=
  ∃ away, W c.frame = some away ∧ c.Renamed R away c'

/-- A method that is not bound yet: between its frame and its declaration there will be the
frame of `this`. -/
def Closure.RenamedMethod (c c' : Closure) : Prop :=
  ∃ away, W c.frame = some away ∧ c.Renamed R (away.map (· + 1)) c'

structure Class.Renamed (c c' : Class) : Prop where
  name : c'.name = c.name
  methods : ∀ n, Option.Rel (Closure.RenamedMethod R W) (c.findMethod? n) (c'.findMethod? n)

inductive Value.Renamed : Value → Value → Prop
  | nil : Value.Renamed .nil .nil
  | boolean (b : Bool) : Value.Renamed (.boolean b) (.boolean b)
  | number (x : Float) : Value.Renamed (.number x) (.number x)
  | string (text : String) : Value.Renamed (.string text) (.string text)
  | clock : Value.Renamed .clock .clock
  | function {id : Nat} {c c' : Closure} : c.RenamedFunction R W c' →
      Value.Renamed (.function id c) (.function id c')
  | cls {id : Nat} {c c' : Class} : c.Renamed R W c' → Value.Renamed (.cls id c) (.cls id c')
  | object {id : Nat} {c c' : Class} : c.Renamed R W c' →
      Value.Renamed (.object id c) (.object id c')

end

variable {R : Renaming} {W V : Marks}

theorem Closure.RenamedMethod.mono (hle : W.Le V) {c c' : Closure} (h : c.RenamedMethod R W c') :
    c.RenamedMethod R V c' := by
  obtain ⟨away, hmark, hc⟩ := h
  exact ⟨away, hle _ _ hmark, hc⟩

theorem Class.Renamed.mono (hle : W.Le V) {c c' : Class} (h : c.Renamed R W c') :
    c.Renamed R V c' :=
  ⟨h.name, fun n => Option.Rel.imp (fun _ _ hc => hc.mono hle) (h.methods n)⟩

theorem Closure.Renamed.name_eq {outer : Option Nat} {c c' : Closure} (h : c.Renamed R outer c') :
    c'.name = c.name := by
  obtain ⟨_, _, hd⟩ := h.declaration
  rw [Closure.name, Closure.name, hd.name_eq]

theorem Function.Renamed.arity_eq {away : Option Nat} {f f' : Function}
    (h : f.Renamed R away f') : f'.arity = f.arity := by
  cases h
  exact List.length_map _

theorem Closure.Renamed.arity_eq {outer : Option Nat} {c c' : Closure} (h : c.Renamed R outer c') :
    c'.arity = c.arity := by
  obtain ⟨_, _, hd⟩ := h.declaration
  exact hd.arity_eq

theorem Class.Renamed.arity_eq {c c' : Class} (h : c.Renamed R W c') : c'.arity = c.arity :=
  arity_eq_of_related (fun _ _ ⟨_, _, hc⟩ => hc.arity_eq) (h.methods Class.initializerName)

theorem Value.Atomic.renamed {v : Value} (h : v.Atomic) : v.Renamed R W v := by
  cases v with
  | boolean _ | number _ | string _ => constructor
  | _ => exact h.elim

namespace Value.Renamed

variable {v v' : Value}

theorem mono (hle : W.Le V) (h : v.Renamed R W v') : v.Renamed R V v' := by
  cases h with
  | function hc =>
    obtain ⟨away, hmark, hc⟩ := hc
    exact .function ⟨away, hle _ _ hmark, hc⟩
  | cls hc => exact .cls (hc.mono hle)
  | object hc => exact .object (hc.mono hle)
  | _ => constructor

theorem similar (h : v.Renamed R W v') : v.Similar v' := by
  cases h with
  | function hc =>
    obtain ⟨_, _, hc⟩ := hc
    exact .function hc.name_eq hc.arity_eq
  | cls hc => exact .cls hc.name hc.arity_eq
  | object hc => exact .object hc.name
  | _ => constructor

end Value.Renamed

/-! ## Methods -/

theorem methodTable_renamed {away : Option Nat} {fs fs' : List Function}
    (h : Function.AllRenamed R (away.map (· + 1)) fs fs') {f : FrameId} (hf : W f = some away) :
    List.Forall₂ (fun m m' => m'.1 = m.1 ∧ Closure.RenamedMethod R W m.2 m'.2) (methodTable fs f)
      (methodTable fs' f) := by
  refine List.rel_reverse ?_
  induction fs generalizing fs' with
  | nil =>
    cases h
    exact .nil
  | cons d fs ih =>
    cases h with
    | cons hinside hd hfs =>
      have hname := hd.name_eq
      exact .cons ⟨by simp only [hname], away, hf, rfl, by simp only [hname], _, hinside, hd⟩
        (ih hfs)

/-- A class whose own methods are renamed, and the class that it extends. -/
theorem Class.Renamed.mk' {name : String} {superclass superclass' : Option Class}
    {methods methods' : List (String × Closure)}
    (hs : Option.Rel (Class.Renamed R W) superclass superclass')
    (hm : List.Forall₂ (fun m m' => m'.1 = m.1 ∧ Closure.RenamedMethod R W m.2 m'.2) methods
      methods') : Class.Renamed R W ⟨name, superclass, methods⟩ ⟨name, superclass', methods'⟩ :=
  ⟨rfl, findMethod?_related (Option.Rel.imp (fun _ _ hc => hc.methods) hs) hm⟩

end Lox
