import Lox.Proofs.Scope.Justified

/-
  The verdict of a resolution

  The walk comes to every statement of a program (`Stands.visited`), so whatever
  is wrong there is reported (`Breaks.reported`). As nothing else is, a program is
  refused exactly if it breaks a static rule, and every reported error names a
  token at which one is broken (`refused_iff_breaks`).
-/

namespace Lox

open Resolution

/-! ## The walk comes everywhere -/

/-- The walk comes to a statement, and what is reported there stays reported. -/
def Visited (program : List Stmt) (path : List Construct) (s : Stmt) : Prop :=
  ∃ names r, Placed path names r ∧
    (s.resolve r).errors ⊆ (Stmt.resolveAll program .start).errors

theorem Stmt.visits {path : List Construct} {s : Stmt} {ss : List Stmt} (hs : s ∈ ss)
    {names : List Token} {r : Resolution} (h : Placed path names r) :
    ∃ names' r', Placed path names' r' ∧ (s.resolve r').errors ⊆ (Stmt.resolveAll ss r).errors := by
  induction ss generalizing r names with
  | nil => cases hs
  | cons first rest ih =>
    obtain rfl | hs := List.mem_cons.1 hs
    · exact ⟨names, r, h, (Stmt.onwardAll rest _).errors.subset⟩
    · exact ih hs (h.onward (first.onward r))

theorem Function.visits {f : Function} {fs : List Function} (hf : f ∈ fs) (r : Resolution) :
    ∃ r', r.Onward [] r' ∧
      (f.resolve f.methodBody r').errors ⊆ (Function.resolveMethods fs r).errors := by
  induction fs generalizing r with
  | nil => cases hf
  | cons first rest ih =>
    obtain rfl | hf := List.mem_cons.1 hf
    · exact ⟨r, .refl r, (Function.onwardMethods rest _).errors.subset⟩
    · obtain ⟨r', h, hsub⟩ := ih hf (first.resolve first.methodBody r)
      exact ⟨r', (first.onward _ r).trans h, hsub⟩

/-- The start of the scope of a body. -/
def Resolution.enterBody (r : Resolution) (kind : Body) : Resolution :=
  ({ r with body := kind } : Resolution).opened []

theorem Function.errors_resolve (f : Function) (kind : Body) (r : Resolution) :
    (f.resolve kind r).errors =
      (Stmt.resolveAll f.body ((r.enterBody kind).declareAll f.parameters)).errors := by
  cases f
  rfl

theorem Placed.enterBody (path : List Construct) (c : Construct) (kind : Body)
    {r : Resolution} (hbody : bodyOf (c :: path) = kind)
    (hcontext : contextOf (c :: path) = r.context) : Placed (c :: path) [] (r.enterBody kind) :=
  Placed.opened (r := { r with body := kind }) c hbody hcontext r.scopes

/-- The walk comes to the bodies of methods. -/
theorem visits_method {program : List Stmt} {path : List Construct} {name : Token}
    {superclass : Option Expr} {methods : List Function} {f : Function}
    (h : Visited program path (.classDecl name superclass methods)) (hf : f ∈ methods) :
    ∃ r, contextOf (.cls superclass :: path) = r.context ∧
      (f.resolve f.methodBody r).errors ⊆ (Stmt.resolveAll program .start).errors := by
  obtain ⟨names, r, h, hsub⟩ := h
  cases superclass with
  | none =>
    obtain ⟨r', ho, hsub'⟩ := Function.visits hf
      (((({ r with context := .base } : Resolution).declare name).define name).opened [selfName])
    have hc := ho.context.trans (Onward.declared { r with context := .base } name).context
    exact ⟨r', hc.symm, List.Subset.trans hsub' hsub⟩
  | some superclass =>
    have hs := ((Onward.declared { r with context := .derived } name).trans
      (.checkSuperclass _ name superclass)).trans (superclass.onward _)
    obtain ⟨r', ho, hsub'⟩ := Function.visits hf (((superclass.resolve
      (((({ r with context := .derived } : Resolution).declare name).define
        name).checkSuperclass name superclass)).opened [superName]).opened [selfName])
    exact ⟨r', (ho.context.trans hs.context).symm, List.Subset.trans hsub' hsub⟩

/-- The walk comes to every statement of the program. -/
theorem Stands.visited {program : List Stmt} {path : List Construct} {s : Stmt}
    (h : Stands program path s) : Visited program path s := by
  induction h with
  | top hs => exact Stmt.visits hs .start
  | @block path body s _ hmem ih =>
    obtain ⟨names, r, h, hsub⟩ := ih
    obtain ⟨names', r', h', hsub'⟩ := Stmt.visits hmem
      (Placed.opened (.block body) h.body.symm h.context.symm r.scopes)
    exact ⟨names', r', h', List.Subset.trans hsub' hsub⟩
  -- the errors of a branch stay while the other branch is resolved
  | @thenCase path condition s elseCase _ ih =>
    obtain ⟨names, r, h, hsub⟩ := ih
    refine ⟨names, _, h.onward_nil (condition.onward r), List.Subset.trans ?_ hsub⟩
    cases elseCase with
    | none => exact fun _ hx => hx
    | some elseCase => exact (elseCase.onward _).errors.subset
  | @elseCase path condition thenCase s _ ih =>
    obtain ⟨names, r, h, hsub⟩ := ih
    exact ⟨_, _, (h.onward_nil (condition.onward r)).onward (thenCase.onward _), hsub⟩
  | @loop path condition s _ ih =>
    obtain ⟨names, r, h, hsub⟩ := ih
    exact ⟨names, _, h.onward_nil (condition.onward r), hsub⟩
  | @function path f s _ hmem ih =>
    obtain ⟨names, r, h, hsub⟩ := ih
    have ho := Onward.declared r f.name
    obtain ⟨names', r', h', hsub'⟩ := Stmt.visits hmem ((Placed.enterBody path (.function f)
      .function rfl (h.context.symm.trans ho.context.symm)).onward
        (.declaredAll _ f.parameters))
    refine ⟨names', r', h', List.Subset.trans hsub' ?_⟩
    rw [← f.errors_resolve]
    exact hsub
  -- a method begins with its own parameters, in the context of its class
  | @method path name superclass methods f s _ hf hmem ih =>
    obtain ⟨r, hc, hsub⟩ := visits_method ih hf
    obtain ⟨names', r', h', hsub'⟩ := Stmt.visits hmem ((Placed.enterBody
      (.cls superclass :: path) (.method f) f.methodBody rfl hc).onward
        (.declaredAll _ f.parameters))
    refine ⟨names', r', h', List.Subset.trans hsub' ?_⟩
    rw [← f.errors_resolve]
    exact hsub

/-! ## Broken rules are reported -/

/-- A position in two lists one after the other is one in the first or in the second. -/
theorem split_append {as bs before after : List Token} {t : Token}
    (h : as ++ bs = before ++ t :: after) :
    (∃ after', as = before ++ t :: after') ∨
      ∃ before', before = as ++ before' ∧ bs = before' ++ t :: after := by
  obtain ⟨c, rfl, hc⟩ | ⟨c, rfl, hc⟩ := List.append_eq_append_iff.1 h
  · exact .inr ⟨c, rfl, hc⟩
  · cases c with
    | nil => exact .inr ⟨[], by simp, by simpa using hc.symm⟩
    | cons u c =>
      obtain ⟨rfl, -⟩ := List.cons.inj hc
      exact .inl ⟨c, rfl⟩

theorem Placed.reports_declare {path : List Construct} {names : List Token} {r : Resolution}
    (h : Placed path names r) (hpath : path ≠ []) {name : Token}
    (hname : name.lexeme ∈ names.map Token.lexeme) :
    ⟨name, .alreadyDeclared⟩ ∈ (r.declare name).errors :=
  (h.mem_errors_declare name _).2 (.inr ⟨hpath, hname, rfl⟩)

theorem eq_of_singleton {name t : Token} {before after : List Token}
    (h : [name] = before ++ t :: after) : before = [] ∧ t = name := by
  cases before with
  | nil => exact ⟨rfl, (List.cons.inj h).1.symm⟩
  | cons u before => simp at h

theorem Placed.reports_declareAll {path : List Construct} {names before after : List Token}
    {t : Token} {r : Resolution} (h : Placed path names r) (hpath : path ≠ [])
    (ht : t.lexeme ∈ (names ++ before).map Token.lexeme) :
    ⟨t, .alreadyDeclared⟩ ∈ (r.declareAll (before ++ t :: after)).errors := by
  induction before generalizing names r with
  | nil =>
    refine (Onward.declaredAll _ after).errors.subset ?_
    rw [errors_define]
    exact h.reports_declare hpath (by simpa using ht)
  | cons name before ih => exact ih (h.onward (.declared r name)) (by simpa using ht)

mutual

/-- A name that its scope has already is reported. -/
theorem Stmt.reports_declared {path : List Construct} (hpath : path ≠ []) {t : Token}
    (names before after : List Token) (ht : t.lexeme ∈ (names ++ before).map Token.lexeme) :
    (s : Stmt) → (r : Resolution) → Placed path names r → s.declared = before ++ t :: after →
      ⟨t, .alreadyDeclared⟩ ∈ (s.resolve r).errors
  | .expression _, r, _, hs | .print _, r, _, hs | .block _, r, _, hs | .yield _ _, r, _, hs => by
    simp [Stmt.declared] at hs
  | .varDecl name none, r, h, hs => by
    obtain ⟨rfl, rfl⟩ := eq_of_singleton hs
    rw [Stmt.resolve, errors_define]
    exact h.reports_declare hpath (by simpa using ht)
  | .varDecl name (some initial), r, h, hs => by
    obtain ⟨rfl, rfl⟩ := eq_of_singleton hs
    rw [Stmt.resolve, errors_define]
    exact (initial.onward _).errors.subset (h.reports_declare hpath (by simpa using ht))
  | .branch condition thenCase none, r, h, hs =>
    Stmt.reports_declared hpath names before after ht thenCase _
      (h.onward_nil (condition.onward r)) hs
  | .branch condition thenCase (some elseCase), r, h, hs => by
    have hcondition := h.onward_nil (condition.onward r)
    -- the name is declared by the first branch, or by the second one behind all of the first
    obtain ⟨after', hthen⟩ | ⟨before', rfl, helse⟩ := split_append hs
    · exact (elseCase.onward _).errors.subset
        (Stmt.reports_declared hpath names before after' ht thenCase _ hcondition hthen)
    · exact Stmt.reports_declared hpath _ before' after (by simpa using ht) elseCase _
        (hcondition.onward (thenCase.onward _)) helse
  | .loop condition body, r, h, hs =>
    Stmt.reports_declared hpath names before after ht body _ (h.onward_nil (condition.onward r)) hs
  | .function declaration, r, h, hs => by
    obtain ⟨rfl, rfl⟩ := eq_of_singleton hs
    refine (declaration.onward .function _).errors.subset ?_
    rw [errors_define]
    exact h.reports_declare hpath (by simpa using ht)
  | .classDecl name none methods, r, h, hs => by
    obtain ⟨rfl, rfl⟩ := eq_of_singleton hs
    rw [Stmt.resolve, inClass, declare_withContext, define_withContext]
    refine (Onward.inScope _ [selfName] [] (Function.onwardMethods methods _)).errors.subset ?_
    show _ ∈ ((r.declare t).define t).errors
    rw [errors_define]
    exact h.reports_declare hpath (by simpa using ht)
  | .classDecl name (some superclass) methods, r, h, hs => by
    obtain ⟨rfl, rfl⟩ := eq_of_singleton hs
    rw [Stmt.resolve, inClass, declare_withContext, define_withContext]
    refine (((Onward.checkSuperclass _ t superclass).trans (superclass.onward _)).trans
      (.inScope _ [superName] [] (.inScope _ [selfName] []
        (Function.onwardMethods methods _)))).errors.subset ?_
    show _ ∈ ((r.declare t).define t).errors
    rw [errors_define]
    exact h.reports_declare hpath (by simpa using ht)

theorem Stmt.reports_declaredAll {path : List Construct} (hpath : path ≠ []) {t : Token}
    (names before after : List Token) (ht : t.lexeme ∈ (names ++ before).map Token.lexeme) :
    (ss : List Stmt) → (r : Resolution) → Placed path names r →
      Stmt.declaredAll ss = before ++ t :: after →
      ⟨t, .alreadyDeclared⟩ ∈ (Stmt.resolveAll ss r).errors
  | [], r, _, hs => by simp [Stmt.declaredAll] at hs
  | s :: rest, r, h, hs => by
    obtain ⟨after', hfirst⟩ | ⟨before', rfl, hrest⟩ := split_append hs
    · exact (Stmt.onwardAll rest _).errors.subset
        (Stmt.reports_declared hpath names before after' ht s r h hfirst)
    · exact Stmt.reports_declaredAll hpath _ before' after (by simpa using ht) rest _
        (h.onward (s.onward r)) hrest

end

/-- The same for parameters and body of a function. -/
theorem Function.reports_declared {path : List Construct} {c : Construct} {kind : Body}
    {f : Function} {r : Resolution} (hbody : bodyOf (c :: path) = kind)
    (hcontext : contextOf (c :: path) = r.context) {before after : List Token} {t : Token}
    (hs : f.parameters ++ Stmt.declaredAll f.body = before ++ t :: after)
    (ht : t.lexeme ∈ before.map Token.lexeme) :
    ⟨t, .alreadyDeclared⟩ ∈ (f.resolve kind r).errors := by
  have h := Placed.enterBody path c kind hbody hcontext
  rw [f.errors_resolve]
  obtain ⟨after', hparameters⟩ | ⟨before', rfl, hrest⟩ := split_append hs
  · refine (Stmt.onwardAll f.body _).errors.subset ?_
    rw [hparameters]
    exact h.reports_declareAll (List.cons_ne_nil _ _) ht
  · exact Stmt.reports_declaredAll (List.cons_ne_nil _ _) f.parameters before' after ht f.body _
      (h.onward (.declaredAll _ _)) hrest

/-- A scope with two declarations of one name is reported. -/
theorem Shares.reported {program : List Stmt} {before after : List Token} {t : Token}
    (h : Shares program (before ++ t :: after)) (ht : t.lexeme ∈ before.map Token.lexeme) :
    ⟨t, .alreadyDeclared⟩ ∈ (Stmt.resolveAll program .start).errors := by
  generalize hnames : before ++ t :: after = names at h
  cases h with
  | @block path body hs =>
    obtain ⟨_, r, h, hsub⟩ := hs.visited
    exact hsub (Stmt.reports_declaredAll (List.cons_ne_nil _ _) [] before after ht body _
      (Placed.opened (.block body) h.body.symm h.context.symm r.scopes) hnames.symm)
  | @function path f hs =>
    obtain ⟨_, r, h, hsub⟩ := hs.visited
    have ho := Onward.declared r f.name
    exact hsub (Function.reports_declared (c := .function f) rfl
      (h.context.symm.trans ho.context.symm) hnames.symm ht)
  | @method path name superclass methods f hs hf =>
    obtain ⟨r, hc, hsub⟩ := visits_method hs.visited hf
    exact hsub (Function.reports_declared (c := .method f) rfl
      (show contextOf (.method f :: .cls superclass :: path) = r.context from hc) hnames.symm ht)

/-- In a program that is accepted, the names of a scope are distinct. -/
theorem Shares.nodup {program : List Stmt} {names : List Token} (h : Shares program names)
    (herrors : (Stmt.resolveAll program .start).errors = []) : (names.map Token.lexeme).Nodup := by
  have hnew : ∀ before t after, names = before ++ t :: after →
      t.lexeme ∉ before.map Token.lexeme := by
    rintro before t after rfl ht
    have hreported := h.reported ht
    rw [herrors] at hreported
    cases hreported
  clear h herrors
  -- each name is compared with those before it, so the induction adds names at the end
  induction names using List.reverseRecOn with
  | nil => exact .nil
  | append_singleton names t ih =>
    rw [List.map_append, List.map_singleton]
    have hbefore : ∀ before u after, names = before ++ u :: after →
        u.lexeme ∉ before.map Token.lexeme := fun before u after hs =>
      hnew before u (after ++ [t]) (by rw [hs, List.append_assoc, List.cons_append])
    exact (ih hbefore).append (List.nodup_singleton _)
      (List.disjoint_singleton.2 (hnew names t [] rfl))

/-- What is reported of a part of an expression is reported of its statement. -/
theorem Placed.reports_expression {path : List Construct} {names : List Token} {r : Resolution}
    (h : Placed path names r) {s : Stmt} {e p : Expr} (he : e ∈ s.expressions) (hp : p ∈ e.parts)
    {x : ScopeError} (hx : ∀ r' : Resolution, r'.context = contextOf path → x ∈ p.faults r') :
    x ∈ (s.resolve r).errors := by
  -- only the context of the walk decides about the fault, and it is that of the path
  have hmem : ∀ r' : Resolution, r'.context = contextOf path → x ∈ (e.resolve r').errors :=
    fun r' hr' => (Expr.mem_errors x e r').2 (.inr ⟨p, hp, hx r' hr'⟩)
  cases s with
  | expression e' | print e' =>
    obtain rfl := List.mem_singleton.1 he
    exact hmem r h.context
  | varDecl name initial =>
    obtain rfl := Option.mem_toList.1 he
    rw [Stmt.resolve, errors_define]
    exact hmem _ ((r.context_declare name).trans h.context)
  | branch condition thenCase elseCase =>
    obtain rfl := List.mem_singleton.1 he
    cases elseCase with
    | none => exact (thenCase.onward _).errors.subset (hmem r h.context)
    | some elseCase =>
      exact ((thenCase.onward _).trans (elseCase.onward _)).errors.subset (hmem r h.context)
  | loop condition body =>
    obtain rfl := List.mem_singleton.1 he
    exact (body.onward _).errors.subset (hmem r h.context)
  | yield keyword value =>
    obtain rfl := Option.mem_toList.1 he
    exact hmem _ ((Onward.checkReturn r keyword true).context.trans h.context)
  | block _ | function _ | classDecl _ _ _ => cases he

/-- A variable that is read in its own initializer is reported, or its declaration is. -/
theorem Placed.reports_initializer {path : List Construct} {names : List Token} {r : Resolution}
    (h : Placed path names r) (hpath : path ≠ []) {name word : Token} {initial : Expr} {id : Nat}
    (hword : .var id word ∈ initial.parts) (hname : word.lexeme = name.lexeme) :
    ∃ x, x ∈ ((Stmt.varDecl name (some initial)).resolve r).errors := by
  rw [Stmt.resolve, errors_define]
  by_cases hm : name.lexeme ∈ names.map Token.lexeme
  · exact ⟨_, (initial.onward _).errors.subset (h.reports_declare hpath hm)⟩
  · refine ⟨⟨word, .ownInitializer⟩, (Expr.mem_errors _ initial _).2 (.inr ⟨_, hword, ?_⟩)⟩
    rw [Expr.faults, if_pos ((h.inInitializer_declare name _).2 ⟨hpath, hm, hname⟩)]
    exact List.mem_singleton.2 rfl

/-- A program that breaks a rule is reported. -/
theorem Breaks.reported {program : List Stmt} {problem : ScopeProblem} {token : Token}
    (h : Breaks program problem token) : ∃ x, x ∈ (Stmt.resolveAll program .start).errors := by
  cases h with
  | alreadyDeclared hshares hearlier hl =>
    exact ⟨_, hshares.reported (List.mem_map.2 ⟨_, hearlier, hl⟩)⟩
  | ownInitializer hs hpath hword hname =>
    obtain ⟨_, r, h, hsub⟩ := hs.visited
    obtain ⟨x, hx⟩ := h.reports_initializer hpath hword hname
    exact ⟨x, hsub hx⟩
  -- a return is checked before its value is resolved, and errors stay
  | @topLevelReturn path _ value hs hpath =>
    obtain ⟨_, r, h, hsub⟩ := hs.visited
    have hb := h.body.trans (bodyOf_eq_topLevel.2 hpath)
    have hx : ∀ hasValue, ⟨token, .topLevelReturn⟩ ∈ (r.checkReturn token hasValue).errors :=
      fun hasValue => by simp [errors_checkReturn, hb]
    cases value with
    | none => exact ⟨_, hsub (hx false)⟩
    | some e => exact ⟨_, hsub ((e.onward _).errors.subset (hx true))⟩
  | @initializerValue path _ value f hs hf hname =>
    obtain ⟨_, r, h, hsub⟩ := hs.visited
    have hb := h.body.trans (bodyOf_eq_initializer.2 ⟨f, hf, hname⟩)
    refine ⟨⟨token, .initializerValue⟩, hsub ((value.onward _).errors.subset ?_)⟩
    simp [errors_checkReturn, hb]
  -- the context at a node is that of its path, which says what classes are around it
  | thisOutsideClass hs he hp hpath =>
    obtain ⟨_, r, h, hsub⟩ := hs.visited
    refine ⟨⟨token, .thisOutsideClass⟩, hsub (h.reports_expression he hp fun r' hr' => ?_)⟩
    rw [Expr.faults, hr', if_pos (contextOf_eq_outside.2 hpath)]
    exact List.mem_singleton.2 rfl
  | superOutsideClass hs he hp hpath =>
    obtain ⟨_, r, h, hsub⟩ := hs.visited
    refine ⟨⟨token, .superOutsideClass⟩, hsub (h.reports_expression he hp fun r' hr' => ?_)⟩
    rw [Expr.faults, hr', contextOf_eq_outside.2 hpath]
    exact List.mem_singleton.2 rfl
  | superWithoutSuperclass hs he hp hpath =>
    obtain ⟨_, r, h, hsub⟩ := hs.visited
    refine ⟨⟨token, .superWithoutSuperclass⟩, hsub (h.reports_expression he hp fun r' hr' => ?_)⟩
    rw [Expr.faults, hr', contextOf_eq_base.2 hpath]
    exact List.mem_singleton.2 rfl
  | @ownSuperclass path name _ id methods hs hw =>
    obtain ⟨_, r, h, hsub⟩ := hs.visited
    refine ⟨⟨token, .ownSuperclass⟩, hsub ?_⟩
    refine ((Expr.onward (.var id token) _).trans (.inScope _ [superName] [] (.inScope _ [selfName] []
      (Function.onwardMethods methods _)))).errors.subset ?_
    rw [checkSuperclass, if_pos hw]
    exact List.mem_append_right _ (List.mem_singleton.2 rfl)

/-! ## The verdict -/

theorem resolveProgram_cases (program : List Stmt) :
    (∃ distances, resolveProgram program = .ok distances ∧
      (Stmt.resolveAll program .start).errors = []) ∨
    resolveProgram program = .error (Stmt.resolveAll program .start).errors ∧
      (Stmt.resolveAll program .start).errors ≠ [] := by
  rw [resolveProgram, Resolution.result]
  cases (Stmt.resolveAll program .start).errors with
  | nil => exact .inl ⟨_, rfl, rfl⟩
  | cons x xs => exact .inr ⟨rfl, List.cons_ne_nil _ _⟩

/-- A program is refused exactly if it breaks a static rule, and each error that is
reported then names a rule and a token at which it is broken. -/
theorem refused_iff_breaks (program : List Stmt) :
    ((∃ errors, resolveProgram program = .error errors) ↔
      ∃ problem token, Breaks program problem token) ∧
    ∀ errors, resolveProgram program = .error errors →
      errors ≠ [] ∧ ∀ e ∈ errors, Breaks program e.problem e.token := by
  -- each report is justified by the walk, and each breach is reported on it
  have hjustified : Justified program (Stmt.resolveAll program .start).errors :=
    Stmt.justifiedAll [] [] program .start (fun s hs => .top hs) .start (fun h => absurd rfl h)
      (by simp [Justified, Resolution.start])
  obtain ⟨distances, hr, hnone⟩ | ⟨hr, hsome⟩ := resolveProgram_cases program
  · refine ⟨⟨?_, ?_⟩, ?_⟩
    · rintro ⟨errors, he⟩
      cases hr.symm.trans he
    · rintro ⟨problem, token, hb⟩
      obtain ⟨x, hx⟩ := hb.reported
      rw [hnone] at hx
      cases hx
    · intro errors he
      cases hr.symm.trans he
  · refine ⟨⟨fun _ => ?_, fun _ => ⟨_, hr⟩⟩, fun errors he => ?_⟩
    · obtain ⟨x, hx⟩ := List.exists_mem_of_ne_nil _ hsome
      exact ⟨_, _, hjustified x hx⟩
    · cases hr.symm.trans he
      exact ⟨hsome, hjustified⟩

/-- A parameter and a variable of the body with one name: they share a scope. -/
theorem refused_iff_breaks_parameter :
    let program : List Stmt := [.function (.mk ⟨.identifier, "f", 1⟩ [⟨.identifier, "x", 1⟩]
      [.varDecl ⟨.identifier, "x", 2⟩ none])]
    resolveProgram program = .error [⟨⟨.identifier, "x", 2⟩, .alreadyDeclared⟩] ∧
      Breaks program .alreadyDeclared ⟨.identifier, "x", 2⟩ := by
  intro program
  have hr : resolveProgram program = .error [⟨⟨.identifier, "x", 2⟩, .alreadyDeclared⟩] := rfl
  exact ⟨hr, ((refused_iff_breaks program).2 _ hr).2 _ (List.mem_singleton.2 rfl)⟩

end Lox
