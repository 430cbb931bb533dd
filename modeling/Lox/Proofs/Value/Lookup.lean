import Mathlib
import Lox.Eval.Stmt

/-
  Looking up methods — what the declarations of classes say about it

  Every class is made by a declaration. A lookup finds the last method of the name
  in the nearest declaration that has one, beginning at the class itself and going on
  to the class that is extended (`Declared.findMethod?_eq_some_iff`), and nothing if
  there is none (`Declared.finds_or_lacks`).
-/

namespace Lox

/-- The method that a declaration becomes in a class whose methods close over a frame. -/
def Function.method (d : Function) (f : FrameId) : Closure :=
  ⟨d, f, d.name.lexeme == Class.initializerName⟩

namespace Class

/-- A class that a declaration made, and so did others make those that it extends. -/
inductive Declared : Class → Prop
  | base {name : String} {methods : List Function} {f : FrameId} :
      Declared ⟨name, none, methodTable methods f⟩
  | derived {name : String} {methods : List Function} {f : FrameId} {superclass : Class} :
      superclass.Declared → Declared ⟨name, some superclass, methodTable methods f⟩

/-- `Finds c name k`: the nearest declaration that has methods of the name, from that of
`c` on, has `k` as the last of them. -/
inductive Finds : Class → String → Closure → Prop
  | own {c : String} {superclass : Option Class} {before after : List Function} {d : Function}
      {f : FrameId} : (∀ e ∈ after, e.name.lexeme ≠ d.name.lexeme) →
      Finds ⟨c, superclass, methodTable (before ++ d :: after) f⟩ d.name.lexeme (d.method f)
  | inherited {c name : String} {superclass : Class} {methods : List Function} {f : FrameId}
      {k : Closure} : (∀ d ∈ methods, d.name.lexeme ≠ name) → Finds superclass name k →
      Finds ⟨c, some superclass, methodTable methods f⟩ name k

/-- `Lacks c name`: no declaration from that of `c` on has a method of the name. -/
inductive Lacks : Class → String → Prop
  | base {c name : String} {methods : List Function} {f : FrameId} :
      (∀ d ∈ methods, d.name.lexeme ≠ name) → Lacks ⟨c, none, methodTable methods f⟩ name
  | derived {c name : String} {superclass : Class} {methods : List Function} {f : FrameId} :
      (∀ d ∈ methods, d.name.lexeme ≠ name) → Lacks superclass name →
      Lacks ⟨c, some superclass, methodTable methods f⟩ name

/-! ## One declaration -/

section
variable {methods : List Function} {f : FrameId} {name : String}

theorem mem_methodTable {entry : String × Closure} :
    entry ∈ methodTable methods f ↔ ∃ d ∈ methods, entry = (d.name.lexeme, d.method f) := by
  rw [methodTable, List.mem_reverse, List.mem_map]
  exact exists_congr fun d => and_congr_right fun _ => eq_comm

theorem lookup_methodTable_of_some {k : Closure} (h : (methodTable methods f).lookup name = some k) :
    ∃ before d after, methods = before ++ d :: after ∧ d.name.lexeme = name ∧ k = d.method f ∧
      ∀ e ∈ after, e.name.lexeme ≠ name := by
  obtain ⟨l₁, l₂, htable, hfirst⟩ := List.lookup_eq_some_iff.1 h
  -- the table is the declaration backwards
  have hmethods := congrArg List.reverse htable
  rw [methodTable, List.reverse_reverse, List.reverse_append, List.reverse_cons, List.append_assoc,
    List.singleton_append] at hmethods
  obtain ⟨before, rest, rfl, -, hrest⟩ := List.map_eq_append_iff.1 hmethods
  obtain ⟨d, after, rfl, hd, hafter⟩ := List.map_eq_cons_iff.1 hrest
  cases hd
  refine ⟨before, d, after, rfl, rfl, rfl, fun e he heq => ?_⟩
  have hmem : (e.name.lexeme, e.method f) ∈ l₁ := by
    rw [← List.mem_reverse, ← hafter]
    exact List.mem_map_of_mem (f := fun e => (e.name.lexeme, e.method f)) he
  exact absurd heq.symm (by simpa using hfirst _ hmem)

theorem lookup_methodTable_of_none (h : (methodTable methods f).lookup name = none) :
    ∀ d ∈ methods, d.name.lexeme ≠ name := by
  intro d hd heq
  have hne := List.lookup_eq_none_iff.1 h _ (mem_methodTable.2 ⟨d, hd, rfl⟩)
  exact absurd heq.symm (by simpa using hne)

theorem lookup_methodTable_of_last {before after : List Function} {d : Function}
    (hafter : ∀ e ∈ after, e.name.lexeme ≠ d.name.lexeme) :
    (methodTable (before ++ d :: after) f).lookup d.name.lexeme = some (d.method f) := by
  refine List.lookup_eq_some_iff.2 ⟨methodTable after f, methodTable before f, ?_, fun entry hm => ?_⟩
  · simp [methodTable, Function.method]
  · obtain ⟨e, he, rfl⟩ := mem_methodTable.1 hm
    simpa using (hafter e he).symm

theorem lookup_methodTable_of_lacks (h : ∀ d ∈ methods, d.name.lexeme ≠ name) :
    (methodTable methods f).lookup name = none := by
  refine List.lookup_eq_none_iff.2 fun entry hm => ?_
  obtain ⟨d, hd, rfl⟩ := mem_methodTable.1 hm
  simpa using (h d hd).symm

end

/-! ## All declarations -/

variable {c : Class} {name : String} {k : Closure}

theorem Finds.findMethod?_eq (h : c.Finds name k) : c.findMethod? name = some k := by
  induction h with
  | @own _ superclass _ _ _ _ hafter =>
    cases superclass with
    | none => exact lookup_methodTable_of_last hafter
    | some superclass => rw [findMethod?, lookup_methodTable_of_last hafter]
  | inherited hown _ ih => rw [findMethod?, lookup_methodTable_of_lacks hown, ih]

/-- A method is found under its own name, and is an initializer by that name. -/
theorem Finds.named (h : c.Finds name k) : k.declaration.name.lexeme = name ∧
    k.initializer = (k.declaration.name.lexeme == initializerName) := by
  induction h with
  | own => exact ⟨rfl, rfl⟩
  | inherited _ _ ih => exact ih

/-- A lookup finds what the declarations say, and nothing where they have nothing. -/
theorem Declared.finds_or_lacks (hc : c.Declared) (name : String) :
    (∃ k, c.findMethod? name = some k ∧ c.Finds name k) ∨
      c.findMethod? name = none ∧ c.Lacks name := by
  induction hc with
  | @base n methods f =>
    cases hown : (methodTable methods f).lookup name with
    | some k =>
      obtain ⟨before, d, after, rfl, rfl, rfl, hafter⟩ := lookup_methodTable_of_some hown
      exact .inl ⟨_, hown, .own hafter⟩
    | none => exact .inr ⟨hown, .base (lookup_methodTable_of_none hown)⟩
  | @derived n methods f superclass _ ih =>
    rw [findMethod?]
    cases hown : (methodTable methods f).lookup name with
    | some k =>
      obtain ⟨before, d, after, rfl, rfl, rfl, hafter⟩ := lookup_methodTable_of_some hown
      exact .inl ⟨_, rfl, .own hafter⟩
    | none =>
      have hlacks := lookup_methodTable_of_none hown
      obtain ⟨k, hfind, hk⟩ | ⟨hnone, hl⟩ := ih
      · exact .inl ⟨k, hfind, .inherited hlacks hk⟩
      · exact .inr ⟨hnone, .derived hlacks hl⟩

theorem Declared.findMethod?_eq_some_iff (hc : c.Declared) :
    c.findMethod? name = some k ↔ c.Finds name k := by
  refine ⟨fun h => ?_, Finds.findMethod?_eq⟩
  obtain ⟨k', hk', hfinds⟩ | ⟨hnone, -⟩ := hc.finds_or_lacks name
  · rw [h] at hk'
    cases hk'
    exact hfinds
  · rw [h] at hnone
    cases hnone

end Class
end Lox
