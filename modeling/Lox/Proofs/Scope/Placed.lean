import Lox.Proofs.Scope.Rules

/-
  Where a resolution is

  The resolution keeps track of the body, the class and the innermost scope
  around a statement; `Placed` says that they are what the constructs around it
  say. It holds from one statement to the next. What is reported of an expression
  depends on nothing else (`Expr.mem_errors`).
-/

namespace Lox

open Resolution

/-! ## What the constructs around a statement say -/

/-- The kind of the body around a statement. -/
def bodyOf (path : List Construct) : Body :=
  match nearestRoutine? path with
  | none => .topLevel
  | some (.method f) => f.methodBody
  | some _ => .function

/-- The kind of the class around a statement. -/
def contextOf (path : List Construct) : ClassContext :=
  match nearestClass? path with
  | none => .outside
  | some (.cls none) => .base
  | some _ => .derived

theorem bodyOf_eq_topLevel {path : List Construct} :
    bodyOf path = .topLevel ↔ nearestRoutine? path = none := by
  unfold bodyOf
  split
  · simp_all
  · rename_i f h
    simp only [Function.methodBody, h, reduceCtorEq, iff_false]
    split <;> simp
  · simp_all

/-- Only in a method of that name. -/
theorem bodyOf_eq_initializer {path : List Construct} : bodyOf path = .initializer ↔
    ∃ f, nearestRoutine? path = some (.method f) ∧ f.name.lexeme = Class.initializerName := by
  unfold bodyOf
  split
  · simp_all
  · rename_i f h
    by_cases hf : f.name.lexeme = Class.initializerName <;>
      simp [Function.methodBody, h, hf]
  · simp_all

theorem contextOf_eq_outside {path : List Construct} :
    contextOf path = .outside ↔ nearestClass? path = none := by
  unfold contextOf
  split <;> simp_all

theorem contextOf_eq_base {path : List Construct} :
    contextOf path = .base ↔ nearestClass? path = some (.cls none) := by
  unfold contextOf
  split <;> simp_all

/-- The scope holds exactly these names, and all of them are ready. -/
def Scope.Holds (scope : Scope) (names : List Token) : Prop :=
  ∀ n, scope.lookup n = if n ∈ names.map Token.lexeme then some true else none

/-- The resolution has come to a statement inside the constructs of `path`, in whose
scope the names are declared before it. -/
structure Placed (path : List Construct) (names : List Token) (r : Resolution) : Prop where
  body : r.body = bodyOf path
  context : r.context = contextOf path
  global : path = [] ↔ r.scopes = []
  holds : ∀ scope ∈ r.scopes.head?, scope.Holds names

theorem Scope.Holds.bind {scope : Scope} {names : List Token} (h : scope.Holds names)
    (outer : List Scope) (name : Token) :
    ∃ scope', Scopes.bind (scope :: outer) name = scope' :: outer ∧
      Scope.Holds scope' (names ++ [name]) := by
  have hn := h name.lexeme
  rw [Scopes.bind, Scopes.declare]
  -- a name that the scope has already is not declared again, only made ready
  by_cases hm : name.lexeme ∈ names.map Token.lexeme
  · rw [if_pos hm] at hn
    refine ⟨_, by rw [hn]; rfl, fun n => ?_⟩
    by_cases he : n = name.lexeme
    · subst he
      simp
    · rw [List.lookup_cons, beq_false_of_ne he]
      simpa [he] using h n
  · rw [if_neg hm] at hn
    refine ⟨_, by rw [hn]; rfl, fun n => ?_⟩
    by_cases he : n = name.lexeme
    · subst he
      simp
    · rw [List.lookup_cons, List.lookup_cons, beq_false_of_ne he]
      simpa [he] using h n

theorem Scope.Holds.after {scope : Scope} {names : List Token} (h : scope.Holds names)
    (outer : List Scope) (more : List Token) :
    ∃ scope', Scopes.after (scope :: outer) more = scope' :: outer ∧
      Scope.Holds scope' (names ++ more) := by
  induction more generalizing scope names with
  | nil => exact ⟨scope, rfl, by rwa [List.append_nil]⟩
  | cons name more ih =>
    obtain ⟨scope₁, he, h₁⟩ := h.bind outer name
    obtain ⟨scope', he', h'⟩ := ih h₁
    refine ⟨scope', ?_, by simpa using h'⟩
    rw [Scopes.after, List.foldl_cons, he]
    exact he'

namespace Placed

variable {path : List Construct} {names more : List Token} {r r' : Resolution}

theorem start : Placed [] [] .start := ⟨rfl, rfl, by simp [Resolution.start], by simp [Resolution.start]⟩

/-- What was declared on the way is in the scope. -/
theorem onward (h : Placed path names r) (ho : r.Onward more r') :
    Placed path (names ++ more) r' := by
  refine ⟨ho.body.trans h.body, ho.context.trans h.context, ?_, ?_⟩
  · rw [h.global, ho.scopes]
    cases hs : r.scopes with
    | nil => simp [Scopes.after_nil]
    | cons scope outer =>
      obtain ⟨scope', he, -⟩ := (h.holds scope (by rw [hs]; rfl)).after outer more
      simp [he]
  · cases hs : r.scopes with
    | nil => simp [ho.scopes, hs, Scopes.after_nil]
    | cons scope outer =>
      obtain ⟨scope', he, h'⟩ := (h.holds scope (by rw [hs]; rfl)).after outer more
      simpa [ho.scopes, hs, he] using h'

theorem onward_nil (h : Placed path names r) (ho : r.Onward [] r') : Placed path names r' := by
  simpa using h.onward ho

/-- Between statements no name waits for its initializer. -/
theorem not_inInitializer (h : Placed path names r) (name : String) :
    r.inInitializer name = false := by
  rw [inInitializer]
  cases hs : r.scopes with
  | nil => rfl
  | cons scope outer =>
    have := h.holds scope (by rw [hs]; rfl) name
    simp only [this]
    split <;> rfl

/-- A declaration is reported if the scope has the name. -/
theorem mem_errors_declare (h : Placed path names r) (name : Token) (x : ScopeError) :
    x ∈ (r.declare name).errors ↔ x ∈ r.errors ∨
      path ≠ [] ∧ name.lexeme ∈ names.map Token.lexeme ∧ x = ⟨name, .alreadyDeclared⟩ := by
  rw [declare]
  cases hs : r.scopes with
  | nil => simp [h.global.2 hs]
  | cons scope outer =>
    have hpath : path ≠ [] := fun he => by simp [h.global.1 he] at hs
    have hl := h.holds scope (by rw [hs]; rfl) name.lexeme
    by_cases hm : name.lexeme ∈ names.map Token.lexeme
    · rw [if_pos hm] at hl
      simp [hl, report, hpath, hm]
    · rw [if_neg hm] at hl
      simp [hl, hm]

/-- While its initializer is read, only the declared name waits for it. -/
theorem inInitializer_declare (h : Placed path names r) (name : Token) (n : String) :
    (r.declare name).inInitializer n = true ↔
      path ≠ [] ∧ name.lexeme ∉ names.map Token.lexeme ∧ n = name.lexeme := by
  rw [inInitializer, scopes_declare]
  cases hs : r.scopes with
  | nil => simp [Scopes.declare, h.global.2 hs]
  | cons scope outer =>
    have hpath : path ≠ [] := fun he => by simp [h.global.1 he] at hs
    have hholds := h.holds scope (by rw [hs]; rfl)
    have hl := hholds name.lexeme
    rw [Scopes.declare]
    -- a name that the scope has already is not declared again, and does not wait
    by_cases hm : name.lexeme ∈ names.map Token.lexeme
    · rw [if_pos hm] at hl
      simp only [hl, hholds n, hm, not_true, false_and, and_false, iff_false]
      split <;> simp
    · rw [if_neg hm] at hl
      by_cases he : n = name.lexeme
      · subst he
        simp [hl, hpath, hm]
      · simp only [hl, List.lookup_cons, beq_false_of_ne he, hholds n, he, and_false, iff_false]
        split <;> simp

/-- The start of a new scope. -/
theorem opened (c : Construct) (hbody : bodyOf (c :: path) = r.body)
    (hcontext : contextOf (c :: path) = r.context) (scopes : List Scope) :
    Placed (c :: path) [] { r with scopes := [] :: scopes } :=
  ⟨hbody.symm, hcontext.symm, by simp, by simp [Scope.Holds]⟩

end Placed

/-! ## What is reported of an expression -/

/-- What is reported of a node by itself. -/
def Expr.faults (r : Resolution) : Expr → List ScopeError
  | .var _ name => if r.inInitializer name.lexeme then [⟨name, .ownInitializer⟩] else []
  | .self _ keyword => if r.context = .outside then [⟨keyword, .thisOutsideClass⟩] else []
  | .super _ keyword _ =>
    match r.context with
    | .outside => [⟨keyword, .superOutsideClass⟩]
    | .base => [⟨keyword, .superWithoutSuperclass⟩]
    | .derived => []
  | _ => []

theorem Expr.faults_onward {r r' : Resolution} (h : r.Onward [] r') (e : Expr) :
    e.faults r' = e.faults r := by
  have hi : ∀ name, r'.inInitializer name = r.inInitializer name := fun name => by
    rw [inInitializer, inInitializer, show r'.scopes = r.scopes from h.scopes]
  cases e <;> simp only [Expr.faults, hi, h.context]

theorem errors_use (r : Resolution) (id : Nat) (name : Token) :
    (r.use id name).errors = r.errors := by
  rw [use]
  split <;> rfl

theorem errors_useVariable (r : Resolution) (id : Nat) (name : Token) :
    (r.useVariable id name).errors = r.errors ++ (Expr.var id name).faults r := by
  rw [useVariable, errors_use, Expr.faults]
  split <;> simp [report]

theorem errors_useSelf (r : Resolution) (id : Nat) (keyword : Token) :
    (r.useSelf id keyword).errors = r.errors ++ (Expr.self id keyword).faults r := by
  rw [useSelf, Expr.faults]
  split
  · rename_i h
    simp [h, report]
  · rename_i h
    rw [errors_use, if_neg h, List.append_nil]

theorem errors_useSuper (r : Resolution) (id : Nat) (keyword method : Token) :
    (r.useSuper id keyword).errors = r.errors ++ (Expr.super id keyword method).faults r := by
  rw [useSuper, errors_use, Expr.faults]
  cases r.context <;> simp [report]

/-- What is reported of several trees is reported of one of them. -/
theorem mem_errors_append {r r' : Resolution} {errors errors' : List ScopeError}
    {es es' : List Expr} {x : ScopeError} (h : r.Onward [] r')
    (he : x ∈ errors ↔ x ∈ r.errors ∨ ∃ p ∈ es, x ∈ p.faults r)
    (he' : x ∈ errors' ↔ x ∈ errors ∨ ∃ p ∈ es', x ∈ p.faults r') :
    x ∈ errors' ↔ x ∈ r.errors ∨ ∃ p ∈ es ++ es', x ∈ p.faults r := by
  rw [he', he]
  simp only [Expr.faults_onward h, List.mem_append]
  constructor
  · rintro ((hx | ⟨p, hp, hx⟩) | ⟨p, hp, hx⟩)
    · exact .inl hx
    · exact .inr ⟨p, .inl hp, hx⟩
    · exact .inr ⟨p, .inr hp, hx⟩
  · rintro (hx | ⟨p, hp | hp, hx⟩)
    · exact .inl (.inl hx)
    · exact .inl (.inr ⟨p, hp, hx⟩)
    · exact .inr ⟨p, hp, hx⟩

/-- A node of which nothing is reported. -/
theorem mem_errors_cons {r : Resolution} {errors : List ScopeError} {e : Expr} {es : List Expr}
    {x : ScopeError} (hfaults : e.faults r = [])
    (he : x ∈ errors ↔ x ∈ r.errors ∨ ∃ p ∈ es, x ∈ p.faults r) :
    x ∈ errors ↔ x ∈ r.errors ∨ ∃ p ∈ e :: es, x ∈ p.faults r := by
  rw [he]
  simp [hfaults]

mutual

/-- What is reported of an expression is reported of a part of it. -/
theorem Expr.mem_errors (x : ScopeError) : (e : Expr) → (r : Resolution) →
    (x ∈ (e.resolve r).errors ↔ x ∈ r.errors ∨ ∃ p ∈ e.parts, x ∈ p.faults r)
  | .number _, r | .string _, r | .boolean _, r | .nil, r => by
    simp [Expr.resolve, Expr.parts, Expr.faults]
  | .group inner, r => mem_errors_cons rfl (Expr.mem_errors x inner r)
  | .unary _ operand, r => mem_errors_cons rfl (Expr.mem_errors x operand r)
  | .binary left _ right, r | .logical left _ right, r =>
    mem_errors_cons rfl (mem_errors_append (left.onward r) (Expr.mem_errors x left r)
      (Expr.mem_errors x right _))
  | .choice condition thenCase elseCase, r => by
    have hthen := mem_errors_append (condition.onward r) (Expr.mem_errors x condition r)
      (Expr.mem_errors x thenCase _)
    have helse := mem_errors_append ((condition.onward r).trans (thenCase.onward _)) hthen
      (Expr.mem_errors x elseCase _)
    rw [List.append_assoc] at helse
    exact mem_errors_cons rfl helse
  | .comma items, r => mem_errors_cons rfl (Expr.mem_errorsAll x items r)
  | .var id name, r => by
    simp [Expr.resolve, errors_useVariable, Expr.parts]
  | .assign id name value, r => by
    refine mem_errors_cons rfl ?_
    rw [Expr.resolve, errors_use]
    exact Expr.mem_errors x value r
  | .call callee _ arguments, r =>
    mem_errors_cons rfl (mem_errors_append (callee.onward r) (Expr.mem_errors x callee r)
      (Expr.mem_errorsAll x arguments _))
  | .get object _, r => mem_errors_cons rfl (Expr.mem_errors x object r)
  | .set object _ value, r => by
    have h := mem_errors_append (value.onward r) (Expr.mem_errors x value r)
      (Expr.mem_errors x object _)
    refine mem_errors_cons rfl (h.trans ?_)
    simp only [List.mem_append, or_comm]
  | .self id keyword, r => by
    simp [Expr.resolve, errors_useSelf, Expr.parts]
  | .super id keyword method, r => by
    simp [Expr.resolve, errors_useSuper r id keyword method, Expr.parts]

theorem Expr.mem_errorsAll (x : ScopeError) : (es : List Expr) → (r : Resolution) →
    (x ∈ (Expr.resolveAll es r).errors ↔ x ∈ r.errors ∨ ∃ p ∈ Expr.partsAll es, x ∈ p.faults r)
  | [], r => by simp [Expr.resolveAll, Expr.partsAll]
  | e :: es, r =>
    mem_errors_append (e.onward r) (Expr.mem_errors x e r) (Expr.mem_errorsAll x es _)

end

end Lox
