import Lox.Proofs.Scope.Site

/-
  Recorded distances

  A walk that reports nothing records the distances of its sites, and nothing
  else (`Stmt.distances_resolve`). Ids that belong to one site each can then be
  looked up again (`Site.getElem?_recordAll`).
-/

namespace Lox

open Resolution

namespace Site

/-- The distance of a site, recorded under its id. -/
def recordIn (ds : Distances) (site : Site) : Distances :=
  match distance? site.scopes site.name with
  | some distance => ds.insert site.id distance
  | none => ds

def recordAll (ds : Distances) (sites : List Site) : Distances := sites.foldl recordIn ds

theorem recordAll_append (ds : Distances) (sites more : List Site) :
    recordAll ds (sites ++ more) = recordAll (recordAll ds sites) more := List.foldl_append

theorem getElem?_recordIn_of_ne {ds : Distances} {site : Site} {id : Nat} (h : site.id ≠ id) :
    (site.recordIn ds)[id]? = ds[id]? := by
  unfold recordIn
  split
  · simp [Std.TreeMap.getElem?_insert, h]
  · rfl

theorem getElem?_recordAll_of_not_mem {ds : Distances} {sites : List Site} {id : Nat}
    (h : id ∉ sites.map Site.id) : (recordAll ds sites)[id]? = ds[id]? := by
  induction sites generalizing ds with
  | nil => rfl
  | cons site sites ih =>
    obtain ⟨hsite, hsites⟩ : id ≠ site.id ∧ id ∉ sites.map Site.id := by
      simpa [not_or] using h
    exact (ih hsites).trans (getElem?_recordIn_of_ne (Ne.symm hsite))

/-- Of an id that belongs to one site only, the distance of that site is recorded. -/
theorem getElem?_recordAll {ds : Distances} {sites : List Site} {site : Site}
    (hids : (sites.map Site.id).Nodup) (hsite : site ∈ sites) (hnew : ds[site.id]? = none) :
    (recordAll ds sites)[site.id]? = distance? site.scopes site.name := by
  induction sites generalizing ds with
  | nil => cases hsite
  | cons first sites ih =>
    obtain ⟨hfirst, hids⟩ := List.nodup_cons.1 hids
    obtain rfl | hsite := List.mem_cons.1 hsite
    · -- no later site has the same id, so the record stays
      refine (getElem?_recordAll_of_not_mem hfirst).trans ?_
      unfold recordIn
      split
      · rename_i h
        simp [h]
      · rename_i h
        rw [h, hnew]
    · refine ih hids hsite ?_
      rw [getElem?_recordIn_of_ne ?_, hnew]
      rintro he
      exact hfirst (he ▸ List.mem_map_of_mem hsite)

end Site

/-! ## What a walk records -/

theorem Resolution.Onward.errors_eq_nil {r r' : Resolution} {names : List Token}
    (h : r.Onward names r') (h' : r'.errors = []) : r.errors = [] :=
  List.prefix_nil.1 (h' ▸ h.errors)

theorem distances_use (r : Resolution) (node : Expr) (os : List Opener) (id : Nat) (name : Token) :
    (r.use id name).distances =
      Site.recordIn r.distances ⟨node, id, name.lexeme, os, r.scopes⟩ := by
  rw [use, Site.recordIn]
  cases distance? r.scopes name.lexeme <;> rfl

theorem distances_useVariable (r : Resolution) (node : Expr) (os : List Opener) (id : Nat)
    (name : Token) : (r.useVariable id name).distances =
      Site.recordIn r.distances ⟨node, id, name.lexeme, os, r.scopes⟩ := by
  rw [useVariable, distances_use _ node os]
  split <;> rfl

theorem distances_useSelf (r : Resolution) (node : Expr) (os : List Opener) (id : Nat)
    (keyword : Token) (h : (r.useSelf id keyword).errors = []) :
    (r.useSelf id keyword).distances =
      Site.recordIn r.distances ⟨node, id, keyword.lexeme, os, r.scopes⟩ := by
  rw [useSelf] at h ⊢
  cases hc : r.context with
  | outside => simp [hc, report] at h
  | base | derived => exact distances_use r node os id keyword

theorem distances_useSuper (r : Resolution) (node : Expr) (os : List Opener) (id : Nat)
    (keyword : Token) : (r.useSuper id keyword).distances =
      Site.recordIn r.distances ⟨node, id, keyword.lexeme, os, r.scopes⟩ := by
  rw [useSuper, distances_use _ node os]
  cases r.context <;> rfl

theorem distances_checkReturn (r : Resolution) (keyword : Token) (hasValue : Bool) :
    (r.checkReturn keyword hasValue).distances = r.distances := by
  rw [checkReturn]
  split <;> split <;> rfl

theorem distances_checkSuperclass (r : Resolution) (name : Token) (superclass : Expr) :
    (r.checkSuperclass name superclass).distances = r.distances := by
  cases superclass with
  | var id word =>
    rw [checkSuperclass]
    split <;> rfl
  | _ => rfl

theorem distances_declareAll (r : Resolution) (names : List Token) :
    (r.declareAll names).distances = r.distances := by
  induction names generalizing r with
  | nil => rfl
  | cons name names ih => exact (ih _).trans ((distances_define _ _).trans (distances_declare _ _))

mutual

theorem Expr.distances_resolve (os : List Opener) : (e : Expr) → (r : Resolution) →
    (e.resolve r).errors = [] → (e.resolve r).distances = Site.recordAll r.distances (e.sites os r)
  | .number _, _, _ | .string _, _, _ | .boolean _, _, _ | .nil, _, _ => rfl
  | .group inner, r, h => Expr.distances_resolve os inner r h
  | .unary _ operand, r, h => Expr.distances_resolve os operand r h
  | .binary left _ right, r, h | .logical left _ right, r, h => by
    have hl := Expr.distances_resolve os left r ((right.onward _).errors_eq_nil h)
    exact (Expr.distances_resolve os right _ h).trans (by rw [hl, ← Site.recordAll_append]; rfl)
  | .choice condition thenCase elseCase, r, h => by
    have hthen := (elseCase.onward _).errors_eq_nil h
    have hc := Expr.distances_resolve os condition r ((thenCase.onward _).errors_eq_nil hthen)
    have ht := Expr.distances_resolve os thenCase _ hthen
    exact (Expr.distances_resolve os elseCase _ h).trans
      (by rw [ht, hc, ← Site.recordAll_append, ← Site.recordAll_append]; rfl)
  | .comma items, r, h => Expr.distances_resolveAll os items r h
  | .var id name, r, _ => distances_useVariable r (.var id name) os id name
  | .assign id name value, r, h => by
    have hv := Expr.distances_resolve os value r ((Onward.use _ id name).errors_eq_nil h)
    refine (distances_use _ (.assign id name value) os id name).trans ?_
    rw [hv, Expr.sites, Site.recordAll_append]
    rfl
  | .call callee _ arguments, r, h => by
    have hc := Expr.distances_resolve os callee r ((Expr.onwardAll arguments _).errors_eq_nil h)
    exact (Expr.distances_resolveAll os arguments _ h).trans
      (by rw [hc, ← Site.recordAll_append]; rfl)
  | .get object _, r, h => Expr.distances_resolve os object r h
  | .set object _ value, r, h => by
    have hv := Expr.distances_resolve os value r ((object.onward _).errors_eq_nil h)
    exact (Expr.distances_resolve os object _ h).trans (by rw [hv, ← Site.recordAll_append]; rfl)
  | .self id keyword, r, h => distances_useSelf r (.self id keyword) os id keyword h
  | .super id keyword method, r, _ =>
    distances_useSuper r (.super id keyword method) os id keyword

theorem Expr.distances_resolveAll (os : List Opener) : (es : List Expr) → (r : Resolution) →
    (Expr.resolveAll es r).errors = [] →
      (Expr.resolveAll es r).distances = Site.recordAll r.distances (Expr.sitesAll os es r)
  | [], _, _ => rfl
  | e :: es, r, h => by
    have he := Expr.distances_resolve os e r ((Expr.onwardAll es _).errors_eq_nil h)
    exact (Expr.distances_resolveAll os es _ h).trans
      (by rw [he, ← Site.recordAll_append]; rfl)

end

mutual

theorem Stmt.distances_resolve (os : List Opener) : (s : Stmt) → (r : Resolution) →
    (s.resolve r).errors = [] → (s.resolve r).distances = Site.recordAll r.distances (s.sites os r)
  | .expression e, r, h => e.distances_resolve os r h
  | .print e, r, h => e.distances_resolve os r h
  | .varDecl name none, r, _ => (distances_define _ name).trans (distances_declare r name)
  | .varDecl name (some initial), r, h => by
    rw [Stmt.resolve, errors_define] at h
    refine (distances_define _ name).trans ((initial.distances_resolve os _ h).trans ?_)
    rw [distances_declare]
    rfl
  | .block body, r, h => Stmt.distances_resolveAll (.block body :: os) body _ h
  | .branch condition thenCase none, r, h => by
    have hc := condition.distances_resolve os r ((thenCase.onward _).errors_eq_nil h)
    exact (Stmt.distances_resolve os thenCase _ h).trans
      (by rw [hc, ← Site.recordAll_append]; rfl)
  | .branch condition thenCase (some elseCase), r, h => by
    have hthen := (elseCase.onward _).errors_eq_nil h
    have hc := condition.distances_resolve os r ((thenCase.onward _).errors_eq_nil hthen)
    have ht := Stmt.distances_resolve os thenCase _ hthen
    exact (Stmt.distances_resolve os elseCase _ h).trans
      (by rw [ht, hc, ← Site.recordAll_append, ← Site.recordAll_append]; rfl)
  | .loop condition body, r, h => by
    have hc := condition.distances_resolve os r ((body.onward _).errors_eq_nil h)
    exact (Stmt.distances_resolve os body _ h).trans
      (by rw [hc, ← Site.recordAll_append]; rfl)
  | .function declaration, r, h => by
    refine (Function.distances_resolve os declaration .function _ h).trans ?_
    rw [distances_define, distances_declare]
    rfl
  | .yield keyword none, r, _ => distances_checkReturn r keyword false
  | .yield keyword (some value), r, h => by
    refine (value.distances_resolve os _ h).trans ?_
    rw [distances_checkReturn]
    rfl
  | .classDecl name none methods, r, h => by
    refine (Function.distances_resolveMethods (.self :: os) methods _ h).trans ?_
    show Site.recordAll (((_ : Resolution).declare name).define name).distances _ = _
    rw [distances_define, distances_declare]
    rfl
  | .classDecl name (some superclass) methods, r, h => by
    let r₁ := ((({ r with context := .derived } : Resolution).declare name).define
      name).checkSuperclass name superclass
    let r₂ := ((superclass.resolve r₁).opened [superName]).opened [selfName]
    have hs := superclass.distances_resolve os r₁ ((Function.onwardMethods methods r₂).errors_eq_nil h)
    refine (Function.distances_resolveMethods (.self :: .super :: os) methods r₂ h).trans ?_
    rw [distances_checkSuperclass, distances_define, distances_declare] at hs
    show Site.recordAll (superclass.resolve r₁).distances _ = _
    rw [hs, ← Site.recordAll_append]
    rfl

theorem Stmt.distances_resolveAll (os : List Opener) : (ss : List Stmt) → (r : Resolution) →
    (Stmt.resolveAll ss r).errors = [] →
      (Stmt.resolveAll ss r).distances = Site.recordAll r.distances (Stmt.sitesAll os ss r)
  | [], _, _ => rfl
  | s :: rest, r, h => by
    have hs := Stmt.distances_resolve os s r ((Stmt.onwardAll rest _).errors_eq_nil h)
    exact (Stmt.distances_resolveAll os rest _ h).trans
      (by rw [hs, ← Site.recordAll_append]; rfl)

theorem Function.distances_resolve (os : List Opener) : (f : Function) → (kind : Body) →
    (r : Resolution) → (f.resolve kind r).errors = [] →
      (f.resolve kind r).distances = Site.recordAll r.distances (f.sites os kind r)
  | .mk name parameters body, kind, r, h => by
    refine (Stmt.distances_resolveAll (.function ⟨name, parameters, body⟩ :: os) body _ h).trans ?_
    rw [distances_declareAll]
    rfl

theorem Function.distances_resolveMethods (os : List Opener) : (fs : List Function) →
    (r : Resolution) → (Function.resolveMethods fs r).errors = [] →
      (Function.resolveMethods fs r).distances =
        Site.recordAll r.distances (Function.sitesMethods os fs r)
  | [], _, _ => rfl
  | f :: fs, r, h => by
    have hf := Function.distances_resolve os f f.methodBody r
      ((Function.onwardMethods fs _).errors_eq_nil h)
    exact (Function.distances_resolveMethods os fs _ h).trans
      (by rw [hf, ← Site.recordAll_append]; rfl)

end

end Lox
