import Lox.Proofs.Scope.Fine
import Lox.Proofs.Scope.Rules

/-
  Where names wait

  A name that is declared and not yet ready is met in one place only: the
  initializer of its own declaration, in an inner scope (`Stmt.initializes`).
-/

namespace Lox

open Resolution

mutual

/-- The node of a site is a part of the expression. -/
theorem Expr.node_mem_parts (os : List Opener) : (e : Expr) → (r : Resolution) →
    ∀ site ∈ e.sites os r, site.node ∈ e.parts
  | .number _, _ | .string _, _ | .boolean _, _ | .nil, _ => nofun
  | .group inner, r => fun site h => .tail _ (inner.node_mem_parts os r site h)
  | .unary _ operand, r => fun site h => .tail _ (operand.node_mem_parts os r site h)
  | .binary left _ right, r | .logical left _ right, r =>
    List.forall_mem_append.2
      ⟨fun site h => .tail _ (List.mem_append_left _ (left.node_mem_parts os r site h)),
        fun site h => .tail _ (List.mem_append_right _ (right.node_mem_parts os _ site h))⟩
  | .choice condition thenCase elseCase, r =>
    List.forall_mem_append.2
      ⟨fun site h => .tail _ (List.mem_append_left _ (condition.node_mem_parts os r site h)),
        List.forall_mem_append.2
          ⟨fun site h => .tail _ (List.mem_append_right _ (List.mem_append_left _
              (thenCase.node_mem_parts os _ site h))),
            fun site h => .tail _ (List.mem_append_right _ (List.mem_append_right _
              (elseCase.node_mem_parts os _ site h)))⟩⟩
  | .comma items, r => fun site h => .tail _ (Expr.node_mem_partsAll os items r site h)
  | .var _ _, _ | .self _ _, _ | .super _ _ _, _ => List.forall_mem_singleton.2 (.head _)
  | .assign _ _ value, r =>
    List.forall_mem_append.2
      ⟨fun site h => .tail _ (value.node_mem_parts os r site h),
        List.forall_mem_singleton.2 (.head _)⟩
  | .call callee _ arguments, r =>
    List.forall_mem_append.2
      ⟨fun site h => .tail _ (List.mem_append_left _ (callee.node_mem_parts os r site h)),
        fun site h => .tail _ (List.mem_append_right _
          (Expr.node_mem_partsAll os arguments _ site h))⟩
  | .get object _, r => fun site h => .tail _ (object.node_mem_parts os r site h)
  | .set object _ value, r =>
    List.forall_mem_append.2
      ⟨fun site h => .tail _ (List.mem_append_right _ (value.node_mem_parts os r site h)),
        fun site h => .tail _ (List.mem_append_left _ (object.node_mem_parts os _ site h))⟩

theorem Expr.node_mem_partsAll (os : List Opener) : (es : List Expr) → (r : Resolution) →
    ∀ site ∈ Expr.sitesAll os es r, site.node ∈ Expr.partsAll es
  | [], _ => nofun
  | e :: es, r =>
    List.forall_mem_append.2
      ⟨fun site h => List.mem_append_left _ (e.node_mem_parts os r site h),
        fun site h => List.mem_append_right _ (Expr.node_mem_partsAll os es _ site h)⟩

end

/-- One of the scopes around the site holds its name and waits for the initializer. -/
def Site.Waits (site : Site) : Prop := ∃ scope ∈ site.scopes, scope.lookup site.name = some false

/-- The node is a part of the initializer of an inner variable with this name. -/
def Initializes (program : List Stmt) (node : Expr) (name : String) : Prop :=
  ∃ path declared initial, Stands program path (.varDecl declared (some initial)) ∧
    path ≠ [] ∧ node ∈ initial.parts ∧ declared.lexeme = name

/-- Between statements no name waits. -/
theorem Sane.not_waits {r : Resolution} (h : Sane r) {os : List Opener} {e : Expr} {site : Site}
    (hsite : site ∈ e.sites os r) : ¬site.Waits := by
  rintro ⟨scope, hscope, hlookup⟩
  rw [e.scopes_of_mem_sites os r site hsite] at hscope
  exact h.ready scope hscope _ hlookup

/-- In the scopes around an initializer, only the declared name waits. -/
theorem Sane.waits_declare {r : Resolution} (h : Sane r) (name : Token) {scope : Scope}
    {n : String} (hscope : scope ∈ (r.declare name).scopes) (hlookup : scope.lookup n = some false) :
    r.scopes ≠ [] ∧ name.lexeme = n := by
  rw [scopes_declare] at hscope
  cases hs : r.scopes with
  | nil =>
    rw [hs] at hscope
    cases hscope
  | cons inner outer =>
    refine ⟨List.cons_ne_nil _ _, ?_⟩
    have hready := h.ready
    rw [hs] at hscope hready
    rw [Scopes.declare] at hscope
    split at hscope
    · exact absurd hlookup (hready scope hscope n)
    · obtain rfl | hscope := List.mem_cons.1 hscope
      · -- any other name of the innermost scope was there before, and was ready
        by_contra hne
        rw [List.lookup_cons, beq_false_of_ne (Ne.symm hne)] at hlookup
        exact hready inner (.head _) n hlookup
      · exact absurd hlookup (hready scope (.tail _ hscope) n)

section

variable {program : List Stmt}

/-- The sites of an initializer that wait use the name that is declared. -/
theorem Sane.initializes {path : List Construct} {r : Resolution} (h : Sane r) (os : List Opener)
    {name : Token} {initial : Expr} (hs : Stands program path (.varDecl name (some initial)))
    (hpath : r.scopes ≠ [] → path ≠ []) :
    ∀ site ∈ initial.sites os (r.declare name), site.Waits →
      Initializes program site.node site.name := by
  rintro site hsite ⟨scope, hscope, hlookup⟩
  rw [initial.scopes_of_mem_sites os _ site hsite] at hscope
  obtain ⟨hne, hname⟩ := h.waits_declare name hscope hlookup
  exact ⟨path, name, initial, hs, hpath hne, initial.node_mem_parts os _ site hsite, hname⟩

theorem scopes_ne_nil_of_onward {r r' : Resolution} {names : List Token}
    (ho : r.Onward names r') (h : r'.scopes ≠ []) : r.scopes ≠ [] := by
  intro hs
  rw [ho.scopes, hs, Scopes.after_nil] at h
  exact h rfl

mutual

/-- A site of a statement waits only in the initializer of its own name. -/
theorem Stmt.initializes {path : List Construct} (os : List Opener) : (s : Stmt) →
    (r : Resolution) → Stands program path s → Sane r → (r.scopes ≠ [] → path ≠ []) → s.Proper →
      ∀ site ∈ s.sites os r, site.Waits → Initializes program site.node site.name
  | .expression e, r, _, hr, _, _ | .print e, r, _, hr, _, _ =>
    fun _ hsite hwaits => absurd hwaits (hr.not_waits hsite)
  | .varDecl _ none, _, _, _, _, _ => nofun
  | .varDecl name (some initial), r, hs, hr, hpath, _ => hr.initializes os hs hpath
  | .block body, r, hs, hr, _, hp =>
    Stmt.initializesAll (.block body :: os) body _ (fun _ hmem => .block hs hmem) hr.opened
      (fun _ => List.cons_ne_nil _ _) hp
  | .branch condition thenCase none, r, hs, hr, hpath, hp =>
    have ho := condition.onward r
    List.forall_mem_append.2
      ⟨fun _ hsite hwaits => absurd hwaits (hr.not_waits hsite),
        Stmt.initializes os thenCase _ (.thenCase hs) (hr.onward ho (by simp))
          (fun h => hpath (scopes_ne_nil_of_onward ho h)) hp.2.1⟩
  | .branch condition thenCase (some elseCase), r, hs, hr, hpath, hp =>
    have ho := condition.onward r
    have ho' := thenCase.onward (condition.resolve r)
    have hr' := hr.onward ho (by simp)
    List.forall_mem_append.2
      ⟨fun _ hsite hwaits => absurd hwaits (hr.not_waits hsite), List.forall_mem_append.2
        ⟨Stmt.initializes os thenCase _ (.thenCase hs) hr'
            (fun h => hpath (scopes_ne_nil_of_onward ho h)) hp.2.1.1,
          Stmt.initializes os elseCase _ (.elseCase hs)
            (hr'.onward ho' (Stmt.Proper.plain_declared hp.2.1.1))
            (fun h => hpath (scopes_ne_nil_of_onward (ho.trans ho') h)) hp.2.2.1⟩⟩
  | .loop condition body, r, hs, hr, hpath, hp =>
    have ho := condition.onward r
    List.forall_mem_append.2
      ⟨fun _ hsite hwaits => absurd hwaits (hr.not_waits hsite),
        Stmt.initializes os body _ (.loop hs) (hr.onward ho (by simp))
          (fun h => hpath (scopes_ne_nil_of_onward ho h)) hp.2.1⟩
  | .function declaration, r, hs, hr, _, hp =>
    Function.initializes os (.function declaration) declaration .function _
      (fun _ hmem => .function hs hmem)
      (hr.onward (.declared r declaration.name)
        (Stmt.Proper.plain_declared (s := .function declaration) hp)) hp
  | .yield _ none, _, _, _, _, _ => nofun
  | .yield keyword (some value), r, _, hr, _, _ => fun _ hsite hwaits =>
    absurd hwaits ((hr.onward (.checkReturn r keyword true) (by simp)).not_waits hsite)
  | .classDecl name none methods, r, hs, hr, _, hp => by
    have hdeclared := hr.onward (.declared r name) (List.forall_mem_singleton.2 hp.1)
    rw [Stmt.sites, declare_withContext, define_withContext]
    exact Function.initializesMethods (.self :: os) methods _
      (fun _ hf _ hmem => .method hs hf hmem)
      (Sane.openedSelf (r := { (r.declare name).define name with context := .base })
        hdeclared.ready rfl) hp.2.2
  | .classDecl name (some superclass) methods, r, hs, hr, _, hp => by
    have hdeclared := hr.onward (.declared r name) (List.forall_mem_singleton.2 hp.1)
    rw [Stmt.sites, declare_withContext, define_withContext, checkSuperclass_withContext]
    let r₁ : Resolution := { ((r.declare name).define name).checkSuperclass name superclass with
      context := .derived }
    have hready : ∀ scope ∈ r₁.scopes, scope.Ready :=
      (Onward.checkSuperclass _ name superclass).scopes ▸ hdeclared.ready
    have ho := superclass.onward r₁
    refine List.forall_mem_append.2 ⟨?_, Function.initializesMethods (.self :: .super :: os) methods
      _ (fun _ hf _ hmem => .method hs hf hmem)
      (Sane.openedSuper (r := superclass.resolve r₁) (ho.scopes ▸ hready) ho.context) hp.2.2⟩
    rintro site hsite ⟨scope, hscope, hlookup⟩
    rw [superclass.scopes_of_mem_sites os r₁ site hsite] at hscope
    exact absurd hlookup (hready scope hscope _)

theorem Stmt.initializesAll {path : List Construct} (os : List Opener) : (ss : List Stmt) →
    (r : Resolution) → (∀ s ∈ ss, Stands program path s) → Sane r → (r.scopes ≠ [] → path ≠ []) →
      Stmt.AllProper ss → ∀ site ∈ Stmt.sitesAll os ss r, site.Waits →
        Initializes program site.node site.name
  | [], _, _, _, _, _ => nofun
  | s :: rest, r, hs, hr, hpath, hp =>
    have ho := s.onward r
    List.forall_mem_append.2
      ⟨Stmt.initializes os s r (hs s (.head _)) hr hpath hp.1,
        Stmt.initializesAll os rest _ (fun s hmem => hs s (.tail _ hmem))
          (hr.onward ho hp.1.plain_declared) (fun h => hpath (scopes_ne_nil_of_onward ho h)) hp.2⟩

theorem Function.initializes {path : List Construct} (os : List Opener) (c : Construct) :
    (f : Function) → (kind : Body) → (r : Resolution) →
      (∀ s ∈ f.body, Stands program (c :: path) s) → Sane r → f.Proper →
        ∀ site ∈ f.sites os kind r, site.Waits → Initializes program site.node site.name
  | .mk name parameters body, kind, r, hs, hr, hp =>
    have hopened : Sane (({ r with body := kind } : Resolution).opened []) :=
      Sane.opened (r := { r with body := kind }) ⟨hr.ready, hr.within⟩
    Stmt.initializesAll (.function ⟨name, parameters, body⟩ :: os) body _ hs
      (hopened.onward (.declaredAll _ parameters) hp.2.1) (fun _ => List.cons_ne_nil _ _) hp.2.2

theorem Function.initializesMethods {path : List Construct} {superclass : Option Expr}
    (os : List Opener) : (fs : List Function) → (r : Resolution) →
      (∀ f ∈ fs, ∀ s ∈ f.body, Stands program (.method f :: .cls superclass :: path) s) →
        Sane r → Function.AllProper fs → ∀ site ∈ Function.sitesMethods os fs r, site.Waits →
          Initializes program site.node site.name
  | [], _, _, _, _ => nofun
  | f :: fs, r, hs, hr, hp =>
    List.forall_mem_append.2
      ⟨Function.initializes os (.method f) f f.methodBody r (hs f (.head _)) hr hp.1,
        Function.initializesMethods os fs _ (fun f hf => hs f (.tail _ hf))
          (hr.onward (f.onward _ r) (by simp)) hp.2⟩

end

end

end Lox
