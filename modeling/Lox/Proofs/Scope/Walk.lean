import Mathlib
import Lox.Resolve

/-
  Walks — what a resolution leaves behind

  Resolving an expression leaves the open scopes, the body and the class around
  it as they were. A statement adds the names that it declares to the innermost
  scope, and nothing else. What was reported stays reported.
-/

namespace Lox

/-- The names that a statement declares in the scope around it. Branches and loops
open no scope. -/
def Stmt.declared : Stmt → List Token
  | .varDecl name _ => [name]
  | .function declaration => [declaration.name]
  | .classDecl name _ _ => [name]
  | .branch _ thenCase none => thenCase.declared
  | .branch _ thenCase (some elseCase) => thenCase.declared ++ elseCase.declared
  | .loop _ body => body.declared
  | .expression _ | .print _ | .block _ | .yield _ _ => []

/-- The names that several statements declare. -/
def Stmt.declaredAll (ss : List Stmt) : List Token := ss.flatMap Stmt.declared

theorem Stmt.declaredAll_cons (s : Stmt) (rest : List Stmt) :
    Stmt.declaredAll (s :: rest) = s.declared ++ Stmt.declaredAll rest := rfl

/-! ## Names that enter a scope -/

namespace Scopes

/-- A name that waits for its initializer in the innermost scope, unless it is
there already. -/
def declare (name : String) : List Scope → List Scope
  | [] => []
  | scope :: outer =>
    match scope.lookup name with
    | some _ => scope :: outer
    | none => ((name, false) :: scope) :: outer

/-- A name that is ready in the innermost scope. -/
def define (name : String) : List Scope → List Scope
  | [] => []
  | scope :: outer => ((name, true) :: scope) :: outer

/-- A name that is declared and ready. -/
def bind (scopes : List Scope) (name : Token) : List Scope :=
  define name.lexeme (declare name.lexeme scopes)

/-- What declarations leave. -/
def after (scopes : List Scope) (names : List Token) : List Scope := names.foldl bind scopes

theorem after_nil (names : List Token) : after [] names = [] := by
  induction names with
  | nil => rfl
  | cons name names ih => exact ih

theorem after_append (scopes : List Scope) (names more : List Token) :
    after scopes (names ++ more) = after (after scopes names) more :=
  List.foldl_append

theorem tail_declare (name : String) (scopes : List Scope) :
    (declare name scopes).tail = scopes.tail := by
  cases scopes with
  | nil => rfl
  | cons scope outer =>
    simp only [declare]
    split <;> rfl

theorem tail_define (name : String) (scopes : List Scope) :
    (define name scopes).tail = scopes.tail := by
  cases scopes <;> rfl

/-- Declarations leave the outer scopes as they are. -/
theorem tail_after (names : List Token) (scopes : List Scope) :
    (after scopes names).tail = scopes.tail := by
  induction names generalizing scopes with
  | nil => rfl
  | cons name names ih => exact (ih _).trans ((tail_define _ _).trans (tail_declare _ _))

end Scopes

/-! ## Steps of a walk -/

namespace Resolution

/-- `r.Onward names r'`: the walk got from `r` to `r'` and declared the names. -/
structure Onward (r : Resolution) (names : List Token) (r' : Resolution) : Prop where
  scopes : r'.scopes = Scopes.after r.scopes names
  body : r'.body = r.body
  context : r'.context = r.context
  errors : r.errors <+: r'.errors

namespace Onward

variable {r r' r'' : Resolution} {names more : List Token}

theorem refl (r : Resolution) : r.Onward [] r := ⟨rfl, rfl, rfl, List.prefix_refl _⟩

theorem trans (h : r.Onward names r') (h' : r'.Onward more r'') : r.Onward (names ++ more) r'' :=
  ⟨by rw [h'.scopes, h.scopes, Scopes.after_append], h'.body.trans h.body,
    h'.context.trans h.context, h.errors.trans h'.errors⟩

theorem report (r : Resolution) (token : Token) (problem : ScopeProblem) :
    r.Onward [] (r.report token problem) := ⟨rfl, rfl, rfl, List.prefix_append _ _⟩

theorem ite {c : Prop} [Decidable c] (h : r.Onward names r') (h' : r.Onward names r'') :
    r.Onward names (if c then r' else r'') := by
  split
  · exact h
  · exact h'

end Onward

variable (r : Resolution)

theorem scopes_declare (name : Token) :
    (r.declare name).scopes = Scopes.declare name.lexeme r.scopes := by
  rw [declare]
  split
  · rename_i h
    rw [h]
    rfl
  · rename_i h
    rw [h, Scopes.declare]
    cases hl : List.lookup name.lexeme _ <;> simp_all [Resolution.report]

theorem scopes_define (name : Token) :
    (r.define name).scopes = Scopes.define name.lexeme r.scopes := by
  rw [define]
  split <;> (rename_i h; rw [h]; rfl)

theorem body_declare (name : Token) : (r.declare name).body = r.body := by
  rw [declare]
  split
  · rfl
  · split <;> rfl

theorem context_declare (name : Token) : (r.declare name).context = r.context := by
  rw [declare]
  split
  · rfl
  · split <;> rfl

theorem distances_declare (name : Token) : (r.declare name).distances = r.distances := by
  rw [declare]
  split
  · rfl
  · split <;> rfl

theorem errors_declare (name : Token) : r.errors <+: (r.declare name).errors := by
  rw [declare]
  split
  · exact List.prefix_refl _
  · split
    · exact List.prefix_append _ _
    · exact List.prefix_refl _

theorem body_define (name : Token) : (r.define name).body = r.body := by
  rw [define]
  split <;> rfl

theorem context_define (name : Token) : (r.define name).context = r.context := by
  rw [define]
  split <;> rfl

theorem errors_define (name : Token) : (r.define name).errors = r.errors := by
  rw [define]
  split <;> rfl

theorem distances_define (name : Token) : (r.define name).distances = r.distances := by
  rw [define]
  split <;> rfl

theorem Onward.declared (name : Token) : r.Onward [name] ((r.declare name).define name) :=
  ⟨by rw [scopes_define, scopes_declare]; rfl, by rw [body_define, body_declare],
    by rw [context_define, context_declare], errors_define (r.declare name) name ▸ r.errors_declare name⟩

/-- A name is declared before its initializer and ready after it. -/
theorem Onward.initialized {name : Token} {r' : Resolution}
    (h : (r.declare name).Onward [] r') : r.Onward [name] (r'.define name) := by
  refine ⟨?_, ?_, ?_, ?_⟩
  · rw [scopes_define, h.scopes]
    show Scopes.define _ (r.declare name).scopes = _
    rw [scopes_declare]
    rfl
  · rw [body_define, h.body, body_declare]
  · rw [context_define, h.context, context_declare]
  · rw [errors_define]
    exact (r.errors_declare name).trans h.errors

theorem Onward.declaredAll (names : List Token) : r.Onward names (r.declareAll names) := by
  induction names generalizing r with
  | nil => exact .refl r
  | cons name names ih => exact (declared r name).trans (ih _)

theorem Onward.use (id : Nat) (name : Token) : r.Onward [] (r.use id name) := by
  rw [Resolution.use]
  split
  · exact ⟨rfl, rfl, rfl, List.prefix_refl _⟩
  · exact .refl r

theorem Onward.useVariable (id : Nat) (name : Token) : r.Onward [] (r.useVariable id name) :=
  .trans (.ite (.report r _ _) (.refl r)) (.use _ id name)

theorem Onward.useSelf (id : Nat) (keyword : Token) : r.Onward [] (r.useSelf id keyword) := by
  rw [Resolution.useSelf]
  split
  · exact .report r _ _
  · exact .use r id keyword

theorem Onward.useSuper (id : Nat) (keyword : Token) : r.Onward [] (r.useSuper id keyword) := by
  rw [Resolution.useSuper]
  split
  · exact (report r keyword .superOutsideClass).trans (.use _ id keyword)
  · exact (report r keyword .superWithoutSuperclass).trans (.use _ id keyword)
  · exact .use r id keyword

theorem Onward.checkReturn (keyword : Token) (hasValue : Bool) :
    r.Onward [] (r.checkReturn keyword hasValue) :=
  .trans (.ite (.report r _ _) (.refl r)) (.ite (.report _ _ _) (.refl _))

theorem Onward.checkSuperclass (name : Token) (superclass : Expr) :
    r.Onward [] (r.checkSuperclass name superclass) := by
  cases superclass with
  | var id word => exact .ite (.report r _ _) (.refl r)
  | _ => exact .refl r

/-! ### The class around makes no difference to declarations -/

theorem declare_withContext (r : Resolution) (context : ClassContext) (name : Token) :
    ({ r with context } : Resolution).declare name = { r.declare name with context } := by
  obtain ⟨scopes, _, _, _, _⟩ := r
  cases scopes with
  | nil => rfl
  | cons scope outer =>
    simp only [declare]
    cases scope.lookup name.lexeme <;> rfl

theorem define_withContext (r : Resolution) (context : ClassContext) (name : Token) :
    ({ r with context } : Resolution).define name = { r.define name with context } := by
  obtain ⟨scopes, _, _, _, _⟩ := r
  cases scopes <;> rfl

theorem checkSuperclass_withContext (r : Resolution) (context : ClassContext) (name : Token)
    (e : Expr) : ({ r with context } : Resolution).checkSuperclass name e =
      { r.checkSuperclass name e with context } := by
  cases e with
  | var id word =>
    rw [checkSuperclass, checkSuperclass]
    split <;> rfl
  | _ => rfl

/-- A scope that was opened is closed again. -/
theorem Onward.inScope (opened : List String) (names : List Token) {declared : List Token}
    {r' : Resolution} (h : ((r.opened opened).declareAll names).Onward declared r') : r.Onward [] r'.closed := by
  have h := (Onward.declaredAll (r.opened opened) names).trans h
  exact ⟨by rw [closed, h.scopes, Scopes.tail_after]; rfl, h.body, h.context, h.errors⟩

end Resolution

open Resolution

/-! ## Trees -/

mutual

theorem Expr.onward : (e : Expr) → (r : Resolution) → r.Onward [] (e.resolve r)
  | .number _, r | .string _, r | .boolean _, r | .nil, r => .refl r
  | .group inner, r => inner.onward r
  | .unary _ operand, r => operand.onward r
  | .binary left _ right, r | .logical left _ right, r => (left.onward r).trans (right.onward _)
  | .choice condition thenCase elseCase, r =>
    ((condition.onward r).trans (thenCase.onward _)).trans (elseCase.onward _)
  | .comma items, r => Expr.onwardAll items r
  | .var id name, r => .useVariable r id name
  | .assign id name value, r => (value.onward r).trans (.use _ id name)
  | .call callee _ arguments, r => (callee.onward r).trans (Expr.onwardAll arguments _)
  | .get object _, r => object.onward r
  | .set object _ value, r => (value.onward r).trans (object.onward _)
  | .self id keyword, r => .useSelf r id keyword
  | .super id keyword _, r => .useSuper r id keyword

theorem Expr.onwardAll : (es : List Expr) → (r : Resolution) →
    r.Onward [] (Expr.resolveAll es r)
  | [], r => .refl r
  | e :: es, r => (e.onward r).trans (Expr.onwardAll es _)

end

mutual

theorem Stmt.onward : (s : Stmt) → (r : Resolution) → r.Onward s.declared (s.resolve r)
  | .expression e, r => e.onward r
  | .print e, r => e.onward r
  | .varDecl name none, r => .declared r name
  | .varDecl name (some initial), r => .initialized r (initial.onward _)
  | .block body, r => .inScope r [] [] (Stmt.onwardAll body _)
  | .branch condition thenCase none, r => (condition.onward r).trans (thenCase.onward _)
  | .branch condition thenCase (some elseCase), r =>
    ((condition.onward r).trans (thenCase.onward _)).trans (elseCase.onward _)
  | .loop condition body, r => (condition.onward r).trans (body.onward _)
  | .function declaration, r =>
    (Onward.declared r declaration.name).trans (declaration.onward .function _)
  | .yield keyword none, r => .checkReturn r keyword false
  | .yield keyword (some value), r => (Onward.checkReturn r keyword true).trans (value.onward _)
  | .classDecl name none methods, r => by
    have h := (Onward.declared { r with context := .base } name).trans
      (.inScope _ [selfName] [] (Function.onwardMethods methods _))
    exact ⟨h.scopes, h.body, rfl, h.errors⟩
  | .classDecl name (some superclass) methods, r => by
    have h := ((Onward.declared { r with context := .derived } name).trans
      (.checkSuperclass _ name superclass)).trans (superclass.onward _)
    have h := h.trans (.inScope _ [superName] [] (.inScope _ [selfName] []
      (Function.onwardMethods methods _)))
    exact ⟨h.scopes, h.body, rfl, h.errors⟩

theorem Stmt.onwardAll : (ss : List Stmt) → (r : Resolution) →
    r.Onward (Stmt.declaredAll ss) (Stmt.resolveAll ss r)
  | [], r => .refl r
  | s :: rest, r => (s.onward r).trans (Stmt.onwardAll rest _)

theorem Function.onward : (f : Function) → (kind : Body) → (r : Resolution) →
    r.Onward [] (f.resolve kind r)
  | .mk name parameters body, kind, r => by
    have h := Onward.inScope { r with body := kind } [] parameters (Stmt.onwardAll body
      ((({ r with body := kind } : Resolution).opened []).declareAll parameters))
    exact ⟨h.scopes, rfl, h.context, h.errors⟩

theorem Function.onwardMethods : (fs : List Function) → (r : Resolution) →
    r.Onward [] (Function.resolveMethods fs r)
  | [], r => .refl r
  | f :: fs, r => (f.onward f.methodBody r).trans (Function.onwardMethods fs _)

end

/-- A walk that has a result reported nothing. -/
theorem Resolution.of_result {r : Resolution} {distances : Distances}
    (h : r.result = .ok distances) : r.errors = [] ∧ r.distances = distances := by
  rw [Resolution.result] at h
  split at h
  · rename_i hnone
    cases h
    exact ⟨by simpa using hnone, rfl⟩
  · cases h

end Lox
