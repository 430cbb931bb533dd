import Mathlib
import Lox.Eval.Stmt

/-
  Similar values — what a program can ask of a value

  Two values are similar if they are of one kind and have the same identity, and if
  what they are made from has the same name and arity. Nothing that a program can ask
  of a value tells two of them apart: their kind, text, truth, arity, and what
  operators make of them are the same.
-/

namespace Lox

inductive Value.Similar : Value → Value → Prop
  | nil : Value.Similar .nil .nil
  | boolean (b : Bool) : Value.Similar (.boolean b) (.boolean b)
  | number (x : Float) : Value.Similar (.number x) (.number x)
  | string (text : String) : Value.Similar (.string text) (.string text)
  | clock : Value.Similar .clock .clock
  | function {id : Nat} {c c' : Closure} : c'.name = c.name → c'.arity = c.arity →
      Value.Similar (.function id c) (.function id c')
  | cls {id : Nat} {c c' : Class} : c'.name = c.name → c'.arity = c.arity →
      Value.Similar (.cls id c) (.cls id c')
  | object {id : Nat} {c c' : Class} : c'.name = c.name →
      Value.Similar (.object id c) (.object id c')

namespace Value.Similar

variable {v v' a a' b b' : Value} {o o' : Token}

theorem kindName_eq (h : v.Similar v') : v'.kindName = v.kindName := by
  cases h <;> rfl

theorem truthy_eq (h : v.Similar v') : v'.truthy = v.truthy := by
  cases h <;> rfl

theorem display_eq (h : v.Similar v') : v'.display = v.display := by
  cases h with
  | function hname _ => rw [display, display, hname]
  | cls hname _ => exact hname
  | object hname => rw [display, display, hname]
  | _ => rfl

theorem arity?_eq (h : v.Similar v') : v'.arity? = v.arity? := by
  cases h with
  | function _ harity | cls _ harity => exact congrArg some harity
  | _ => rfl

theorem equals_eq (ha : a.Similar a') (hb : b.Similar b') : a'.equals b' = a.equals b := by
  cases ha <;> cases hb <;> rfl

/-- Operators look at kinds, at numbers and at texts. -/
theorem unary_eq (hk : o'.kind = o.kind) (hl : o'.lexeme = o.lexeme) (h : v.Similar v') :
    v'.unary o' = v.unary o := by
  have ht := h.truthy_eq
  unfold unary
  rw [hk, hl, ht]
  cases h <;> rfl

theorem add_eq (ha : a.Similar a') (hb : b.Similar b') : add a' b' = add a b := by
  have hda := ha.display_eq
  have hdb := hb.display_eq
  cases ha <;> cases hb <;> simp only [add, hda, hdb]

theorem onNumbers_eq (f : Float → Float → Except RuntimeProblem Value) (ha : a.Similar a')
    (hb : b.Similar b') : onNumbers f a' b' = onNumbers f a b := by
  cases ha <;> cases hb <;> rfl

theorem binary_eq (hk : o'.kind = o.kind) (hl : o'.lexeme = o.lexeme) (ha : a.Similar a')
    (hb : b.Similar b') : a'.binary o' b' = a.binary o b := by
  simp only [binary, hk, hl, ha.add_eq hb, onNumbers_eq _ ha hb, ha.equals_eq hb]

theorem decidesLogical_eq (hk : o'.kind = o.kind) (h : v.Similar v') :
    decidesLogical o' v' = decidesLogical o v := by
  rw [decidesLogical, decidesLogical, hk, h.truthy_eq]

end Value.Similar

/-! ## Options of related things -/

theorem Option.Rel.imp {α β : Type} {R S : α → β → Prop} (hRS : ∀ a b, R a b → S a b) {a : Option α}
    {b : Option β} (h : Option.Rel R a b) : Option.Rel S a b := by
  cases h with
  | none => exact .none
  | some h => exact .some (hRS _ _ h)

/-- Both are absent, or there are both. -/
theorem absent_or_present {α β : Type} {R : α → β → Prop} {a : Option α} {b : Option β}
    (h : Option.Rel R a b) :
    (a = none ∧ b = none) ∨ ∃ x y, a = some x ∧ b = some y ∧ R x y := by
  cases h with
  | none => exact .inl ⟨rfl, rfl⟩
  | some h => exact .inr ⟨_, _, rfl, rfl, h⟩

/-- Options of related values are both there or both absent. -/
theorem isSome_eq_of_rel {α β : Type} {S : α → β → Prop} {a : Option α} {b : Option β}
    (h : Option.Rel S a b) : b.isSome = a.isSome := by
  cases h <;> rfl

theorem rel_self_of {α : Type} {S : α → α → Prop} {a : Option α} (h : ∀ v, a = some v → S v v) :
    Option.Rel S a a := by
  cases a with
  | none => exact .none
  | some v => exact .some (h v rfl)

/-! ## Related methods -/

section Methods

variable {C : Closure → Closure → Prop} {methods methods' : List (String × Closure)}

/-- Methods of the same names that are related are found alike. -/
theorem lookup_related (h : List.Forall₂ (fun m m' => m'.1 = m.1 ∧ C m.2 m'.2) methods methods')
    (n : String) : Option.Rel C (methods.lookup n) (methods'.lookup n) := by
  induction h with
  | nil => exact .none
  | @cons m m' methods methods' hm _ ih =>
    obtain ⟨name, c⟩ := m
    obtain ⟨name', c'⟩ := m'
    obtain rfl : name' = name := hm.1
    rw [List.lookup_cons, List.lookup_cons]
    cases n == name' with
    | true => exact .some hm.2
    | false => exact ih

/-- The same for the methods of a class, those of the class that it extends included. -/
theorem findMethod?_related {name name' : String} {superclass superclass' : Option Class}
    (hs : Option.Rel (fun c c' => ∀ n, Option.Rel C (c.findMethod? n) (c'.findMethod? n)) superclass
      superclass')
    (hm : List.Forall₂ (fun m m' => m'.1 = m.1 ∧ C m.2 m'.2) methods methods') (n : String) :
    Option.Rel C (Class.findMethod? ⟨name, superclass, methods⟩ n)
      (Class.findMethod? ⟨name', superclass', methods'⟩ n) := by
  have hown := lookup_related hm n
  cases hs with
  | none => exact hown
  | some hc =>
    rw [Class.findMethod?, Class.findMethod?]
    obtain ⟨h, h'⟩ | ⟨own, own', h, h', hrel⟩ := absent_or_present hown
    · rw [h, h']
      exact hc n
    · rw [h, h']
      exact .some hrel

/-- Classes whose `init` methods are related take equally many arguments. -/
theorem arity_eq_of_related {c c' : Class} (hC : ∀ k k', C k k' → k'.arity = k.arity)
    (h : Option.Rel C (c.findMethod? Class.initializerName)
      (c'.findMethod? Class.initializerName)) : c'.arity = c.arity := by
  rw [Class.arity, Class.arity]
  obtain ⟨h, h'⟩ | ⟨k, k', h, h', hk⟩ := absent_or_present h
  · rw [h, h']
  · rw [h, h']
    exact hC k k' hk

end Methods

end Lox
