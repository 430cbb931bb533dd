import Lox.Eval.Stmt
import Lox.Proofs.Tree.Alike
import Lox.Proofs.Value.Operators
import Lox.Proofs.Value.Similar

/-
  Values that are alike

  Functions, classes and objects are alike if they are the same one and what
  they are made from is alike. So values that are alike are similar, and nothing
  that a program can ask of a value tells them apart.
-/

namespace Lox

section

variable (L : Likeness)

structure Closure.Alike (c c' : Closure) : Prop where
  declaration : c.declaration.Alike L c'.declaration
  frame : c'.frame = c.frame
  initializer : c'.initializer = c.initializer

/-- Classes with the same name whose methods are alike, inherited ones included. -/
structure Class.Alike (c c' : Class) : Prop where
  name : c'.name = c.name
  methods : ∀ n, Option.Rel (Closure.Alike L) (c.findMethod? n) (c'.findMethod? n)

inductive Value.Alike : Value → Value → Prop
  | nil : Value.Alike .nil .nil
  | boolean (b : Bool) : Value.Alike (.boolean b) (.boolean b)
  | number (x : Float) : Value.Alike (.number x) (.number x)
  | string (text : String) : Value.Alike (.string text) (.string text)
  | clock : Value.Alike .clock .clock
  | function {id : Nat} {c c' : Closure} : c.Alike L c' → Value.Alike (.function id c) (.function id c')
  | cls {id : Nat} {c c' : Class} : c.Alike L c' → Value.Alike (.cls id c) (.cls id c')
  | object {id : Nat} {c c' : Class} : c.Alike L c' → Value.Alike (.object id c) (.object id c')

end

variable {L M : Likeness}

theorem Closure.Alike.mono (hle : L.Le M) {c c' : Closure} (h : c.Alike L c') : c.Alike M c' :=
  ⟨h.declaration.mono hle, h.frame, h.initializer⟩

theorem Class.Alike.mono (hle : L.Le M) {c c' : Class} (h : c.Alike L c') : c.Alike M c' :=
  ⟨h.name, fun n => Option.Rel.imp (fun _ _ hc => hc.mono hle) (h.methods n)⟩

theorem Value.Atomic.alike {v : Value} (h : v.Atomic) : v.Alike L v := by
  cases v with
  | boolean _ | number _ | string _ => constructor
  | _ => exact h.elim

/-! ## What a program can ask of a value -/

theorem Closure.Alike.name_eq {c c' : Closure} (h : c.Alike L c') : c'.name = c.name :=
  h.declaration.name.lexeme

theorem Closure.Alike.arity_eq {c c' : Closure} (h : c.Alike L c') : c'.arity = c.arity :=
  h.declaration.parameters.length_eq.symm

theorem Class.Alike.arity_eq {c c' : Class} (h : c.Alike L c') : c'.arity = c.arity :=
  arity_eq_of_related (fun _ _ hc => hc.arity_eq) (h.methods Class.initializerName)

namespace Value.Alike

variable {v v' : Value}

theorem mono (hle : L.Le M) (h : v.Alike L v') : v.Alike M v' := by
  cases h with
  | function hc => exact .function (hc.mono hle)
  | cls hc => exact .cls (hc.mono hle)
  | object hc => exact .object (hc.mono hle)
  | _ => constructor

theorem similar (h : v.Alike L v') : v.Similar v' := by
  cases h with
  | function hc => exact .function hc.name_eq hc.arity_eq
  | cls hc => exact .cls hc.name hc.arity_eq
  | object hc => exact .object hc.name
  | _ => constructor

end Value.Alike

/-! ## Methods -/

theorem methodTable_alike {fs fs' : List Function} (h : Function.AllAlike L fs fs') (f : FrameId) :
    List.Forall₂ (fun m m' => m'.1 = m.1 ∧ Closure.Alike L m.2 m'.2) (methodTable fs f)
      (methodTable fs' f) := by
  refine List.rel_reverse ?_
  induction fs generalizing fs' with
  | nil =>
    cases h
    exact .nil
  | cons d fs ih =>
    cases h with
    | cons hd hfs =>
      exact .cons ⟨hd.name.lexeme, hd, rfl, by simp only [hd.name.lexeme]⟩ (ih hfs)

/-- A class whose own methods are alike, and the class that it extends. -/
theorem Class.Alike.mk' {name : String} {superclass superclass' : Option Class}
    {methods methods' : List (String × Closure)}
    (hs : Option.Rel (Class.Alike L) superclass superclass')
    (hm : List.Forall₂ (fun m m' => m'.1 = m.1 ∧ Closure.Alike L m.2 m'.2) methods methods') :
    Class.Alike L ⟨name, superclass, methods⟩ ⟨name, superclass', methods'⟩ :=
  ⟨rfl, findMethod?_related (Option.Rel.imp (fun _ _ hc => hc.methods) hs) hm⟩

end Lox
