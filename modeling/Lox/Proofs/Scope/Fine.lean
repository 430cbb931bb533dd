import Lox.Proofs.Scope.Placed
import Lox.Proofs.Scope.Proper
import Lox.Proofs.Scope.Recorded

/-
  Sites of accepted trees

  In a tree whose walk reports nothing, variables do not stand in their own
  initializers, and `this` and `super` stand inside the scopes that bind them
  (`Stmt.fine`).
-/

namespace Lox

open Resolution

/-! ## Names that are known -/

/-- Whether a name is known depends on nothing but the name. -/
theorem Known.congr {scope scope' : Scope} {outer : List Scope} {name : String} {d : Nat}
    (h : Known (scope :: outer) name d) (hl : scope'.lookup name = scope.lookup name) :
    Known (scope' :: outer) name d := by
  cases d with
  | zero => exact hl.trans h
  | succ d => exact ⟨hl.trans h.1, h.2⟩

/-- The scopes bind what the class around them promises. -/
def Within (scopes : List Scope) : ClassContext → Prop
  | .outside => True
  | .base => ∃ d, Known scopes selfName d
  | .derived => ∃ d, Known scopes selfName d ∧ Known scopes superName (d + 1)

namespace Within

variable {scopes outer : List Scope} {scope scope' : Scope} {context : ClassContext}

theorem congr (h : Within (scope :: outer) context)
    (hself : scope'.lookup selfName = scope.lookup selfName)
    (hsuper : scope'.lookup superName = scope.lookup superName) :
    Within (scope' :: outer) context := by
  cases context with
  | outside => trivial
  | base =>
    obtain ⟨d, h⟩ := h
    exact ⟨d, h.congr hself⟩
  | derived =>
    obtain ⟨d, h, h'⟩ := h
    exact ⟨d, h.congr hself, h'.congr hsuper⟩

theorem step (h : Within scopes context) (hself : scope.lookup selfName = none)
    (hsuper : scope.lookup superName = none) : Within (scope :: scopes) context := by
  cases context with
  | outside => trivial
  | base =>
    obtain ⟨d, h⟩ := h
    exact ⟨d + 1, h.step hself⟩
  | derived =>
    obtain ⟨d, h, h'⟩ := h
    exact ⟨d + 1, h.step hself, h'.step hsuper⟩

end Within

/-! ## Declarations keep scopes ready -/

theorem Scope.ready_cons {scope : Scope} (h : scope.Ready) (name : String) :
    Scope.Ready ((name, true) :: scope) := by
  intro n
  rw [List.lookup_cons]
  split
  · simp
  · exact h n

/-- A name behind a ready one of the same spelling does not count. -/
theorem Scope.ready_of_shadowed {scope : Scope} (h : scope.Ready) (name : String) :
    Scope.Ready ((name, true) :: (name, false) :: scope) := by
  intro n
  rw [List.lookup_cons, List.lookup_cons]
  cases hn : n == name with
  | true => simp
  | false => exact h n

/-- A plain declaration leaves the scope ready, and its other names as they are. -/
theorem Scopes.bind_cons {scope : Scope} (h : scope.Ready) (outer : List Scope) (name : Token) :
    ∃ scope' : Scope, Scopes.bind (scope :: outer) name = scope' :: outer ∧ scope'.Ready ∧
      ∀ other, other ≠ name.lexeme → scope'.lookup other = scope.lookup other := by
  rw [Scopes.bind, Scopes.declare]
  cases hl : scope.lookup name.lexeme with
  | some ready =>
    refine ⟨_, rfl, Scope.ready_cons h _, fun other ho => ?_⟩
    rw [List.lookup_cons, beq_false_of_ne ho]
  | none =>
    refine ⟨_, rfl, Scope.ready_of_shadowed h _, fun other ho => ?_⟩
    rw [List.lookup_cons, List.lookup_cons, beq_false_of_ne ho]

theorem Scopes.after_cons {scope : Scope} (h : scope.Ready) (outer : List Scope)
    (names : List Token) :
    ∃ scope' : Scope, Scopes.after (scope :: outer) names = scope' :: outer ∧ scope'.Ready ∧
      ∀ other, (∀ name ∈ names, other ≠ name.lexeme) →
        scope'.lookup other = scope.lookup other := by
  induction names generalizing scope with
  | nil => exact ⟨scope, rfl, h, fun _ _ => rfl⟩
  | cons name names ih =>
    obtain ⟨scope₁, he, h₁, hl₁⟩ := Scopes.bind_cons h outer name
    obtain ⟨scope', he', h', hl'⟩ := ih h₁
    refine ⟨scope', ?_, h', fun other ho => ?_⟩
    · rw [Scopes.after, List.foldl_cons, he]
      exact he'
    · rw [hl' other fun n hn => ho n (.tail _ hn), hl₁ other (ho name (.head _))]

/-! ## Resolutions between statements -/

/-- All names of the open scopes are ready, and the scopes are those of the class. -/
structure Sane (r : Resolution) : Prop where
  ready : ∀ scope ∈ r.scopes, scope.Ready
  within : Within r.scopes r.context

namespace Sane

variable {r r' : Resolution} {names : List Token}

theorem start : Sane .start := ⟨by simp [Resolution.start], trivial⟩

theorem onward (h : Sane r) (ho : r.Onward names r') (hplain : ∀ name ∈ names, name.Plain) :
    Sane r' := by
  obtain ⟨hready, hwithin⟩ := h
  have hs := ho.scopes
  rw [← ho.context] at hwithin
  cases hscopes : r.scopes with
  | nil =>
    rw [hscopes, Scopes.after_nil] at hs
    exact ⟨by simp [hs], by rwa [hs, ← hscopes]⟩
  | cons scope outer =>
    rw [hscopes] at hready hwithin hs
    -- only the innermost scope is added to, by names other than `this` and `super`
    obtain ⟨scope', he, hscope', hl⟩ := Scopes.after_cons (hready scope (.head _)) outer names
    rw [he] at hs
    refine ⟨?_, ?_⟩
    · rw [hs]
      exact List.forall_mem_cons.2 ⟨hscope', fun s hm => hready s (.tail _ hm)⟩
    · rw [hs]
      exact hwithin.congr (hl _ fun n hn => (hplain n hn).1.symm)
        (hl _ fun n hn => (hplain n hn).2.symm)

theorem opened (h : Sane r) : Sane (r.opened []) := by
  refine ⟨List.forall_mem_cons.2 ⟨?_, h.ready⟩, h.within.step rfl rfl⟩
  intro name hn
  cases hn

/-- The scope of `this`. -/
theorem openedSelf (h : ∀ scope ∈ r.scopes, scope.Ready) (hc : r.context = .base) :
    Sane (r.opened [selfName]) := by
  refine ⟨List.forall_mem_cons.2 ⟨Scope.ready_cons (fun _ => by simp) _, h⟩, ?_⟩
  show Within _ r.context
  rw [hc]
  exact ⟨0, rfl⟩

/-- The scopes of `super` and `this`. -/
theorem openedSuper (h : ∀ scope ∈ r.scopes, scope.Ready) (hc : r.context = .derived) :
    Sane ((r.opened [superName]).opened [selfName]) := by
  refine ⟨List.forall_mem_cons.2 ⟨Scope.ready_cons (fun _ => by simp) _,
    List.forall_mem_cons.2 ⟨Scope.ready_cons (fun _ => by simp) _, h⟩⟩, ?_⟩
  show Within _ r.context
  rw [hc]
  exact ⟨0, rfl, by decide, rfl⟩

end Sane

/-- Inside an expression, the names of all open scopes are ready but those of the innermost
one, where a name may wait for the expression. -/
structure SaneInside (r : Resolution) : Prop where
  ready : ∀ scope ∈ r.scopes.tail, scope.Ready
  within : Within r.scopes r.context

theorem SaneInside.onward {r r' : Resolution} (h : SaneInside r) (ho : r.Onward [] r') :
    SaneInside r' :=
  ⟨ho.scopes ▸ h.ready, ho.context.symm ▸ ho.scopes.symm ▸ h.within⟩

theorem Sane.inside {r : Resolution} (h : Sane r) : SaneInside r :=
  ⟨fun scope hm => h.ready scope (List.mem_of_mem_tail hm), h.within⟩

/-! ## Expressions -/

theorem fine_variable {os : List Opener} {r : Resolution} {id : Nat} {name : Token}
    (hready : ∀ scope ∈ r.scopes.tail, scope.Ready) (h : (r.useVariable id name).errors = []) :
    Site.Fine ⟨.var id name, id, name.lexeme, os, r.scopes⟩ := by
  intro d hd
  refine known_of_ready ?_ hd
  rw [errors_useVariable, List.append_eq_nil_iff, Expr.faults] at h
  -- only in the innermost scope may a name wait, and then it is reported
  have hi : r.inInitializer name.lexeme = false := by
    have h := h.2
    split at h
    · cases h
    · simp_all
  cases hs : r.scopes with
  | nil => simp
  | cons scope outer =>
    rw [hs] at hready
    refine List.forall_mem_cons.2 ⟨fun hn => ?_, fun s hm => hready s hm _⟩
    rw [inInitializer, hs] at hi
    simp [hn] at hi

mutual

theorem Expr.fine (os : List Opener) : (e : Expr) → (r : Resolution) → SaneInside r →
    e.Proper → (e.resolve r).errors = [] → ∀ site ∈ e.sites os r, site.Fine
  | .number _, _, _, _, _ | .string _, _, _, _, _ | .boolean _, _, _, _, _ | .nil, _, _, _, _ => by
    simp [Expr.sites]
  | .group inner, r, hr, hp, h => Expr.fine os inner r hr hp h
  | .unary _ operand, r, hr, hp, h => Expr.fine os operand r hr hp.2 h
  | .binary left _ right, r, hr, hp, h => by
    have ho := left.onward r
    exact List.forall_mem_append.2
      ⟨Expr.fine os left r hr hp.2.1 ((right.onward _).errors_eq_nil h),
        Expr.fine os right _ (hr.onward ho) hp.2.2 h⟩
  | .logical left _ right, r, hr, hp, h => by
    have ho := left.onward r
    exact List.forall_mem_append.2
      ⟨Expr.fine os left r hr hp.1 ((right.onward _).errors_eq_nil h),
        Expr.fine os right _ (hr.onward ho) hp.2 h⟩
  | .choice condition thenCase elseCase, r, hr, hp, h => by
    have ho := condition.onward r
    have ho' := ho.trans (thenCase.onward _)
    have hthen := (elseCase.onward _).errors_eq_nil h
    exact List.forall_mem_append.2
      ⟨Expr.fine os condition r hr hp.1 ((thenCase.onward _).errors_eq_nil hthen),
        List.forall_mem_append.2
          ⟨Expr.fine os thenCase _ (hr.onward ho) hp.2.1 hthen,
            Expr.fine os elseCase _ (hr.onward ho') hp.2.2 h⟩⟩
  | .comma items, r, hr, hp, h => Expr.fineAll os items r hr hp h
  | .var id name, r, hr, _, h => List.forall_mem_singleton.2 (fine_variable hr.ready h)
  | .assign id name value, r, hr, hp, h =>
    List.forall_mem_append.2
      ⟨Expr.fine os value r hr hp.2 ((Onward.use _ id name).errors_eq_nil h),
        List.forall_mem_singleton.2 trivial⟩
  | .call callee _ arguments, r, hr, hp, h => by
    have ho := callee.onward r
    exact List.forall_mem_append.2
      ⟨Expr.fine os callee r hr hp.1 ((Expr.onwardAll arguments _).errors_eq_nil h),
        Expr.fineAll os arguments _ (hr.onward ho) hp.2 h⟩
  | .get object _, r, hr, hp, h => Expr.fine os object r hr hp h
  | .set object _ value, r, hr, hp, h => by
    have ho := value.onward r
    exact List.forall_mem_append.2
      ⟨Expr.fine os value r hr hp.2 ((object.onward _).errors_eq_nil h),
        Expr.fine os object _ (hr.onward ho) hp.1 h⟩
  | .self id keyword, r, hr, hp, h => by
    refine List.forall_mem_singleton.2 ?_
    have hp : keyword.lexeme = selfName := hp
    rw [Expr.resolve, errors_useSelf, List.append_eq_nil_iff, Expr.faults] at h
    show ∃ d, Known r.scopes keyword.lexeme d
    rw [hp]
    -- inside a class the walk knows where `this` is
    have hw := hr.within
    cases hc : r.context with
    | outside => simp [hc] at h
    | base => rwa [hc] at hw
    | derived =>
      rw [hc] at hw
      obtain ⟨d, hd, -⟩ := hw
      exact ⟨d, hd⟩
  | .super id keyword method, r, hr, hp, h => by
    refine List.forall_mem_singleton.2 ?_
    have hp : keyword.lexeme = superName := hp
    rw [Expr.resolve, errors_useSuper r id keyword method, List.append_eq_nil_iff, Expr.faults] at h
    show ∃ d, Known r.scopes selfName d ∧ Known r.scopes keyword.lexeme (d + 1)
    rw [hp]
    have hw := hr.within
    cases hc : r.context with
    | outside | base => simp [hc] at h
    | derived => rwa [hc] at hw

theorem Expr.fineAll (os : List Opener) : (es : List Expr) → (r : Resolution) →
    SaneInside r → Expr.AllProper es → (Expr.resolveAll es r).errors = [] →
      ∀ site ∈ Expr.sitesAll os es r, site.Fine
  | [], _, _, _, _ => by simp [Expr.sitesAll]
  | e :: es, r, hr, hp, h => by
    have ho := e.onward r
    exact List.forall_mem_append.2
      ⟨Expr.fine os e r hr hp.1 ((Expr.onwardAll es _).errors_eq_nil h),
        Expr.fineAll os es _ (hr.onward ho) hp.2 h⟩

end

/-- Between statements. -/
theorem Sane.fine {r : Resolution} (h : Sane r) (os : List Opener) {e : Expr} (hp : e.Proper)
    (he : (e.resolve r).errors = []) : ∀ site ∈ e.sites os r, site.Fine :=
  e.fine os r h.inside hp he

/-! ## Statements -/

theorem Stmt.Proper.plain_declared {s : Stmt} (h : s.Proper) : ∀ name ∈ s.declared, name.Plain := by
  cases s with
  | varDecl name initial => exact List.forall_mem_singleton.2 h.1
  | function declaration =>
    cases declaration
    exact List.forall_mem_singleton.2 h.1
  | classDecl name superclass methods => exact List.forall_mem_singleton.2 h.1
  | branch condition thenCase elseCase =>
    cases elseCase with
    | none => simp [Stmt.declared, h.2.2]
    | some elseCase => simp [Stmt.declared, h.2.1.2, h.2.2.2]
  | loop condition body => simp [Stmt.declared, h.2.2]
  | _ => simp [Stmt.declared]

/-- While an initializer is read, only the innermost scope may have a name that waits. -/
theorem Sane.declare {r : Resolution} (h : Sane r) {name : Token} (hplain : name.Plain) :
    SaneInside (r.declare name) := by
  constructor
  · rw [scopes_declare, Scopes.tail_declare]
    exact h.inside.ready
  rw [scopes_declare, context_declare]
  have hw := h.within
  cases hs : r.scopes with
  | nil => rwa [hs] at hw
  | cons scope outer =>
    rw [hs] at hw
    rw [Scopes.declare]
    split
    · exact hw
    · refine hw.congr ?_ ?_
      · rw [List.lookup_cons, beq_false_of_ne hplain.1.symm]
      · rw [List.lookup_cons, beq_false_of_ne hplain.2.symm]

mutual

theorem Stmt.fine (os : List Opener) : (s : Stmt) → (r : Resolution) → Sane r → s.Proper →
    (s.resolve r).errors = [] → ∀ site ∈ s.sites os r, site.Fine
  | .expression e, r, hr, hp, h => hr.fine os hp h
  | .print e, r, hr, hp, h => hr.fine os hp h
  | .varDecl name none, r, _, _, _ => by simp [Stmt.sites]
  | .varDecl name (some initial), r, hr, hp, h => by
    rw [Stmt.resolve, errors_define] at h
    exact initial.fine os _ (hr.declare hp.1) (hp.2 initial rfl) h
  | .block body, r, hr, hp, h => Stmt.fineAll (.block body :: os) body _ hr.opened hp h
  | .branch condition thenCase none, r, hr, hp, h =>
    List.forall_mem_append.2
      ⟨hr.fine os hp.1 ((thenCase.onward _).errors_eq_nil h),
        Stmt.fine os thenCase _ (hr.onward (condition.onward r) (by simp)) hp.2.1 h⟩
  | .branch condition thenCase (some elseCase), r, hr, hp, h => by
    have hthen := (elseCase.onward _).errors_eq_nil h
    have hr' := hr.onward (condition.onward r) (by simp)
    exact List.forall_mem_append.2
      ⟨hr.fine os hp.1 ((thenCase.onward _).errors_eq_nil hthen), List.forall_mem_append.2
        ⟨Stmt.fine os thenCase _ hr' hp.2.1.1 hthen,
          Stmt.fine os elseCase _ (hr'.onward (thenCase.onward _)
            (Stmt.Proper.plain_declared hp.2.1.1)) hp.2.2.1 h⟩⟩
  | .loop condition body, r, hr, hp, h =>
    List.forall_mem_append.2
      ⟨hr.fine os hp.1 ((body.onward _).errors_eq_nil h),
        Stmt.fine os body _ (hr.onward (condition.onward r) (by simp)) hp.2.1 h⟩
  | .function declaration, r, hr, hp, h =>
    Function.fine os declaration .function _ (hr.onward (.declared r declaration.name)
      (Stmt.Proper.plain_declared (s := .function declaration) hp)) hp h
  | .yield _ none, r, _, _, _ => by simp [Stmt.sites]
  | .yield keyword (some value), r, hr, hp, h =>
    (hr.onward (.checkReturn r keyword true) (by simp)).fine os (hp value rfl) h
  | .classDecl name none methods, r, hr, hp, h => by
    have hdeclared := hr.onward (.declared r name) (List.forall_mem_singleton.2 hp.1)
    rw [Stmt.resolve, inClass, declare_withContext, define_withContext] at h
    rw [Stmt.sites, declare_withContext, define_withContext]
    exact Function.fineMethods (.self :: os) methods _
      (Sane.openedSelf (r := { (r.declare name).define name with context := .base })
        hdeclared.ready rfl) hp.2.2 h
  | .classDecl name (some superclass) methods, r, hr, hp, h => by
    obtain ⟨id, word, rfl, hword⟩ := hp.2.1 superclass rfl
    have hdeclared := hr.onward (.declared r name) (List.forall_mem_singleton.2 hp.1)
    rw [Stmt.resolve, inClass, declare_withContext, define_withContext,
      checkSuperclass_withContext] at h
    rw [Stmt.sites, declare_withContext, define_withContext, checkSuperclass_withContext]
    let r₁ : Resolution := { ((r.declare name).define name).checkSuperclass name (.var id word) with
      context := .derived }
    have hscopes : r₁.scopes = ((r.declare name).define name).scopes :=
      (Onward.checkSuperclass _ name (.var id word)).scopes
    have ho := Expr.onward (.var id word) r₁
    have hmethods := (Function.onwardMethods methods
      ((((Expr.var id word).resolve r₁).opened [superName]).opened [selfName])).errors_eq_nil h
    refine List.forall_mem_append.2 ⟨List.forall_mem_singleton.2 (fine_variable (r := r₁) ?_ hmethods),
      Function.fineMethods (.self :: .super :: os) methods _
        (Sane.openedSuper (r := (Expr.var id word).resolve r₁) ?_ ho.context) hp.2.2 h⟩
    · rw [hscopes]
      exact fun scope hm => hdeclared.ready scope (List.mem_of_mem_tail hm)
    · rw [ho.scopes]
      exact hscopes ▸ hdeclared.ready

theorem Stmt.fineAll (os : List Opener) : (ss : List Stmt) → (r : Resolution) → Sane r →
    Stmt.AllProper ss → (Stmt.resolveAll ss r).errors = [] →
      ∀ site ∈ Stmt.sitesAll os ss r, site.Fine
  | [], _, _, _, _ => by simp [Stmt.sitesAll]
  | s :: rest, r, hr, hp, h =>
    List.forall_mem_append.2
      ⟨Stmt.fine os s r hr hp.1 ((Stmt.onwardAll rest _).errors_eq_nil h),
        Stmt.fineAll os rest _ (hr.onward (s.onward r) hp.1.plain_declared) hp.2 h⟩

theorem Function.fine (os : List Opener) : (f : Function) → (kind : Body) → (r : Resolution) →
    Sane r → f.Proper → (f.resolve kind r).errors = [] → ∀ site ∈ f.sites os kind r, site.Fine
  | .mk name parameters body, kind, r, hr, hp, h => by
    have hopened : Sane (({ r with body := kind } : Resolution).opened []) :=
      Sane.opened (r := { r with body := kind }) ⟨hr.ready, hr.within⟩
    exact Stmt.fineAll (.function ⟨name, parameters, body⟩ :: os) body _
      (hopened.onward (.declaredAll _ parameters) hp.2.1) hp.2.2 h

theorem Function.fineMethods (os : List Opener) : (fs : List Function) → (r : Resolution) →
    Sane r → Function.AllProper fs → (Function.resolveMethods fs r).errors = [] →
      ∀ site ∈ Function.sitesMethods os fs r, site.Fine
  | [], _, _, _, _ => by simp [Function.sitesMethods]
  | f :: fs, r, hr, hp, h =>
    List.forall_mem_append.2
      ⟨Function.fine os f f.methodBody r hr hp.1 ((Function.onwardMethods fs _).errors_eq_nil h),
        Function.fineMethods os fs _ (hr.onward (f.onward _ r) (by simp)) hp.2 h⟩

end

end Lox
