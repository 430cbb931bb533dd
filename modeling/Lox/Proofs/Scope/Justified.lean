import Lox.Proofs.Scope.Placed

/-
  Reported errors break rules

  A resolution that has come to a statement reports nothing there that is not
  justified by the constructs around it (`Stmt.justified`).
-/

namespace Lox

open Resolution

/-- Every reported error names a token at which a rule is broken. -/
def Justified (program : List Stmt) (errors : List ScopeError) : Prop :=
  ∀ x ∈ errors, Breaks program x.problem x.token

section Justified

variable {program : List Stmt} {path : List Construct} {names : List Token} {r : Resolution}
  {s : Stmt}

/-- The faults of a node in an expression of a statement, apart from variables that
wait for their initializers. -/
theorem breaks_of_fault {e p : Expr} {x : ScopeError} (hs : Stands program path s)
    (hcontext : r.context = contextOf path) (he : e ∈ s.expressions) (hp : p ∈ e.parts)
    (hx : x ∈ p.faults r)
    (hvariable : ∀ id name, p = .var id name → r.inInitializer name.lexeme = true →
      Breaks program .ownInitializer name) : Breaks program x.problem x.token := by
  cases p with
  | var id name =>
    rw [Expr.faults] at hx
    split at hx
    · rename_i hi
      obtain rfl := List.mem_singleton.1 hx
      exact hvariable id name rfl hi
    · cases hx
  | self id keyword =>
    rw [Expr.faults, hcontext] at hx
    split at hx
    · rename_i hc
      obtain rfl := List.mem_singleton.1 hx
      exact .thisOutsideClass hs he hp (contextOf_eq_outside.1 hc)
    · cases hx
  | super id keyword method =>
    rw [Expr.faults, hcontext] at hx
    split at hx
    · rename_i hc
      obtain rfl := List.mem_singleton.1 hx
      exact .superOutsideClass hs he hp (contextOf_eq_outside.1 hc)
    · rename_i hc
      obtain rfl := List.mem_singleton.1 hx
      exact .superWithoutSuperclass hs he hp (contextOf_eq_base.1 hc)
    · cases hx
  | _ => cases hx

theorem Placed.justified_expression (h : Placed path names r) (hs : Stands program path s)
    {e : Expr} (he : e ∈ s.expressions) (hr : Justified program r.errors) :
    Justified program (e.resolve r).errors := by
  intro x hx
  obtain hx | ⟨p, hp, hx⟩ := (Expr.mem_errors x e r).1 hx
  · exact hr x hx
  · refine breaks_of_fault hs h.context he hp hx fun id name _ hi => ?_
    rw [h.not_inInitializer] at hi
    cases hi

theorem Placed.justified_declare (h : Placed path names r) {name : Token} {after : List Token}
    (hshares : path ≠ [] → Shares program (names ++ name :: after))
    (hr : Justified program r.errors) : Justified program (r.declare name).errors := by
  intro x hx
  obtain hx | ⟨hpath, hm, rfl⟩ := (h.mem_errors_declare name x).1 hx
  · exact hr x hx
  · obtain ⟨earlier, hearlier, hl⟩ := List.mem_map.1 hm
    exact .alreadyDeclared (hshares hpath) hearlier hl

theorem Placed.justified_initializer (h : Placed path names r) {name : Token} {initial : Expr}
    (hs : Stands program path (.varDecl name (some initial)))
    (hr : Justified program (r.declare name).errors) :
    Justified program (initial.resolve (r.declare name)).errors := by
  intro x hx
  obtain hx | ⟨p, hp, hx⟩ := (Expr.mem_errors x initial _).1 hx
  · exact hr x hx
  · refine breaks_of_fault hs ((r.context_declare name).trans h.context) (by simp [Stmt.expressions])
      hp hx ?_
    rintro id word rfl hi
    obtain ⟨hpath, -, hn⟩ := (h.inInitializer_declare name _).1 hi
    exact .ownInitializer hs hpath hp hn

theorem errors_checkReturn (r : Resolution) (keyword : Token) (hasValue : Bool) :
    (r.checkReturn keyword hasValue).errors =
      r.errors ++ (if r.body = .topLevel then [⟨keyword, .topLevelReturn⟩] else []) ++
        if hasValue = true ∧ r.body = .initializer then [⟨keyword, .initializerValue⟩] else [] := by
  by_cases ht : r.body = .topLevel
  · simp [checkReturn, report, ht]
  · by_cases hi : hasValue = true ∧ r.body = .initializer <;> simp [checkReturn, report, ht, hi]

theorem Placed.justified_return (h : Placed path names r) {keyword : Token}
    {value : Option Expr} (hs : Stands program path (.yield keyword value))
    (hr : Justified program r.errors) :
    Justified program (r.checkReturn keyword value.isSome).errors := by
  intro x hx
  rw [errors_checkReturn, List.mem_append, List.mem_append] at hx
  -- what was reported before, a return outside of functions, and a value of an initializer
  obtain (hx | hx) | hx := hx
  · exact hr x hx
  · split at hx
    · rename_i hb
      obtain rfl := List.mem_singleton.1 hx
      exact .topLevelReturn hs (bodyOf_eq_topLevel.1 (h.body ▸ hb))
    · cases hx
  · split at hx
    · rename_i hb
      obtain rfl := List.mem_singleton.1 hx
      obtain ⟨e, rfl⟩ := Option.isSome_iff_exists.1 hb.1
      obtain ⟨f, hf, hname⟩ := bodyOf_eq_initializer.1 (h.body ▸ hb.2)
      exact .initializerValue hs hf hname
    · cases hx

theorem justified_superclass {name : Token} {superclass : Expr} {methods : List Function}
    (hs : Stands program path (.classDecl name (some superclass) methods))
    (hr : Justified program r.errors) :
    Justified program (r.checkSuperclass name superclass).errors := by
  cases superclass with
  | var id word =>
    rw [checkSuperclass]
    split
    · rename_i hw
      exact List.forall_mem_append.2 ⟨hr, List.forall_mem_singleton.2 (.ownSuperclass hs hw)⟩
    · exact hr
  | _ => exact hr

theorem Placed.justified_declareAll {parameters : List Token} (h : Placed path names r)
    {after : List Token} (hshares : Shares program (names ++ (parameters ++ after)))
    (hr : Justified program r.errors) : Justified program (r.declareAll parameters).errors := by
  induction parameters generalizing r names with
  | nil => exact hr
  | cons name parameters ih =>
    refine ih (h.onward (.declared r name)) (by simpa using hshares) ?_
    rw [errors_define]
    exact h.justified_declare (fun _ => hshares) hr

/-- In a class with a superclass, and between statements, nothing is reported. -/
theorem Placed.justified_derived (h : Placed path names r) (e : Expr)
    (hr : Justified program r.errors) :
    Justified program (e.resolve { r with context := .derived }).errors := by
  intro x hx
  obtain hx | ⟨p, hp, hx⟩ := (Expr.mem_errors x e _).1 hx
  · exact hr x hx
  · have hi : ∀ name, ({ r with context := .derived } : Resolution).inInitializer name = false :=
      h.not_inInitializer
    cases p <;> simp [Expr.faults, hi] at hx

end Justified

section

variable {program : List Stmt}

mutual

theorem Stmt.justified {path : List Construct} (names after : List Token) :
    (s : Stmt) → (r : Resolution) → Stands program path s → Placed path names r →
      (path ≠ [] → Shares program (names ++ (s.declared ++ after))) →
      Justified program r.errors → Justified program (s.resolve r).errors
  | .expression e, r, hs, h, _, hr | .print e, r, hs, h, _, hr =>
    h.justified_expression hs (List.mem_singleton.2 rfl) hr
  | .varDecl name none, r, hs, h, hshares, hr => by
    rw [Stmt.resolve, errors_define]
    exact h.justified_declare hshares hr
  | .varDecl name (some initial), r, hs, h, hshares, hr => by
    rw [Stmt.resolve, errors_define]
    exact h.justified_initializer hs (h.justified_declare hshares hr)
  | .block body, r, hs, h, hshares, hr =>
    Stmt.justifiedAll [] [] body _ (fun s hmem => .block hs hmem)
      (Placed.opened (.block body) h.body.symm h.context.symm r.scopes)
      (fun _ => by simpa using Shares.block hs) hr
  | .branch condition thenCase none, r, hs, h, hshares, hr =>
    Stmt.justified names after thenCase _ (.thenCase hs) (h.onward_nil (condition.onward r)) hshares
      (h.justified_expression hs (List.mem_singleton.2 rfl) hr)
  | .branch condition thenCase (some elseCase), r, hs, h, hshares, hr => by
    have hcondition := h.onward_nil (condition.onward r)
    refine Stmt.justified _ after elseCase _ (.elseCase hs)
      (hcondition.onward (thenCase.onward _)) (fun hp => ?_)
      (Stmt.justified names (elseCase.declared ++ after) thenCase _ (.thenCase hs) hcondition
        (fun hp => ?_) (h.justified_expression hs (List.mem_singleton.2 rfl) hr))
    · simpa [Stmt.declared] using hshares hp
    · simpa [Stmt.declared] using hshares hp
  | .loop condition body, r, hs, h, hshares, hr =>
    Stmt.justified names after body _ (.loop hs) (h.onward_nil (condition.onward r)) hshares
      (h.justified_expression hs (List.mem_singleton.2 rfl) hr)
  | .function declaration, r, hs, h, hshares, hr => by
    have ho := Onward.declared r declaration.name
    refine Function.justified (.function declaration) declaration _ (fun s hmem => .function hs hmem)
      (.function hs) rfl (h.context.symm.trans ho.context.symm) ?_
    rw [errors_define]
    exact h.justified_declare hshares hr
  | .yield keyword none, r, hs, h, _, hr => h.justified_return hs hr
  | .yield keyword (some value), r, hs, h, _, hr =>
    (h.onward_nil (.checkReturn r keyword true)).justified_expression hs
      (List.mem_singleton.2 rfl) (h.justified_return hs hr)
  | .classDecl name none methods, r, hs, h, hshares, hr => by
    have hdeclare : Justified program ((r.declare name).define name).errors := by
      rw [errors_define]
      exact h.justified_declare hshares hr
    rw [Stmt.resolve, inClass, declare_withContext, define_withContext]
    exact Function.justifiedMethods methods _ (fun f hf s hmem => .method hs hf hmem)
      (fun f hf => .method hs hf) rfl hdeclare
  | .classDecl name (some superclass) methods, r, hs, h, hshares, hr => by
    have hdeclare : Justified program ((r.declare name).define name).errors := by
      rw [errors_define]
      exact h.justified_declare hshares hr
    have hplaced := (h.onward (.declared r name)).onward_nil (.checkSuperclass _ name superclass)
    have hsuperclass := hplaced.justified_derived superclass (justified_superclass hs hdeclare)
    have hcontext := (superclass.onward { ((r.declare name).define name).checkSuperclass name
      superclass with context := .derived }).context
    rw [Stmt.resolve, inClass, declare_withContext, define_withContext,
      checkSuperclass_withContext]
    exact Function.justifiedMethods methods _ (fun f hf s hmem => .method hs hf hmem)
      (fun f hf => .method hs hf) hcontext.symm hsuperclass

theorem Stmt.justifiedAll {path : List Construct} (names after : List Token) :
    (ss : List Stmt) → (r : Resolution) → (∀ s ∈ ss, Stands program path s) →
      Placed path names r →
      (path ≠ [] → Shares program (names ++ (Stmt.declaredAll ss ++ after))) →
      Justified program r.errors → Justified program (Stmt.resolveAll ss r).errors
  | [], r, _, _, _, hr => hr
  | s :: rest, r, hs, h, hshares, hr => by
    refine Stmt.justifiedAll _ after rest _ (fun s hmem => hs s (.tail _ hmem))
      (h.onward (s.onward r)) (fun hp => ?_)
      (Stmt.justified names (Stmt.declaredAll rest ++ after) s r (hs s (.head _)) h
        (fun hp => ?_) hr)
    · simpa [Stmt.declaredAll_cons] using hshares hp
    · simpa [Stmt.declaredAll_cons] using hshares hp

theorem Function.justified {path : List Construct} {kind : Body} (c : Construct) :
    (f : Function) → (r : Resolution) → (∀ s ∈ f.body, Stands program (c :: path) s) →
      Shares program (f.parameters ++ Stmt.declaredAll f.body) → bodyOf (c :: path) = kind →
      contextOf (c :: path) = r.context → Justified program r.errors →
      Justified program (f.resolve kind r).errors
  | .mk _ parameters body, r, hs, hshares, hbody, hcontext, hr => by
    have h := Placed.opened (r := { r with body := kind }) c hbody hcontext r.scopes
    exact Stmt.justifiedAll parameters [] body _ hs
      (h.onward (.declaredAll _ parameters)) (fun _ => (List.append_nil _).symm ▸ hshares)
      (h.justified_declareAll hshares hr)

theorem Function.justifiedMethods {path : List Construct} {superclass : Option Expr} :
    (fs : List Function) → (r : Resolution) →
      (∀ f ∈ fs, ∀ s ∈ f.body, Stands program (.method f :: .cls superclass :: path) s) →
      (∀ f ∈ fs, Shares program (f.parameters ++ Stmt.declaredAll f.body)) →
      contextOf (.cls superclass :: path) = r.context → Justified program r.errors →
      Justified program (Function.resolveMethods fs r).errors
  | [], _, _, _, _, hr => hr
  | f :: fs, r, hs, hshares, hcontext, hr =>
    Function.justifiedMethods fs _ (fun f hf => hs f (.tail _ hf))
      (fun f hf => hshares f (.tail _ hf)) (hcontext.trans (f.onward _ r).context.symm)
      (Function.justified (.method f) f r (hs f (.head _)) (hshares f (.head _)) rfl hcontext hr)

end

end

end Lox
