import Lox.Proofs.Scope.Walk

/-
  Sites — the uses of names in a tree, with the scopes around them

  The sites of a tree are listed along the walk of its resolution: each node
  that is looked up by its id stands with the scopes that are open when the
  resolution comes to it, and with what these scopes were opened for.
-/

namespace Lox

open Resolution (distance?)

/-- What a scope is opened for, and what a frame is made for. -/
inductive Opener where
  | block (body : List Stmt)
  | function (declaration : Function)
  /-- the scope of `this` around the methods of a class -/
  | self
  /-- the scope of `super` around the methods of a class with a superclass -/
  | super

/-- A use of a name: its node, the id and the name that it is looked up by, and
the scopes around it with their openers, the innermost first. -/
structure Site where
  node : Expr
  id : Nat
  name : String
  openers : List Opener
  scopes : List Scope

mutual

/-- The sites of an expression that stands in scopes with the given openers. -/
def Expr.sites (os : List Opener) : Expr → Resolution → List Site
  | .number _, _ | .string _, _ | .boolean _, _ | .nil, _ => []
  | .group inner, r => inner.sites os r
  | .unary _ operand, r => operand.sites os r
  | .binary left _ right, r => left.sites os r ++ right.sites os (left.resolve r)
  | .logical left _ right, r => left.sites os r ++ right.sites os (left.resolve r)
  | .choice condition thenCase elseCase, r =>
    condition.sites os r ++ (thenCase.sites os (condition.resolve r) ++
      elseCase.sites os (thenCase.resolve (condition.resolve r)))
  | .comma items, r => Expr.sitesAll os items r
  | .var id name, r => [⟨.var id name, id, name.lexeme, os, r.scopes⟩]
  | .assign id name value, r =>
    value.sites os r ++
      [⟨.assign id name value, id, name.lexeme, os, (value.resolve r).scopes⟩]
  | .call callee _ arguments, r =>
    callee.sites os r ++ Expr.sitesAll os arguments (callee.resolve r)
  | .get object _, r => object.sites os r
  | .set object _ value, r => value.sites os r ++ object.sites os (value.resolve r)
  | .self id keyword, r => [⟨.self id keyword, id, keyword.lexeme, os, r.scopes⟩]
  | .super id keyword method, r =>
    [⟨.super id keyword method, id, keyword.lexeme, os, r.scopes⟩]

def Expr.sitesAll (os : List Opener) : List Expr → Resolution → List Site
  | [], _ => []
  | e :: es, r => e.sites os r ++ Expr.sitesAll os es (e.resolve r)

end

mutual

/-- The sites of a statement. -/
def Stmt.sites (os : List Opener) : Stmt → Resolution → List Site
  | .expression e, r => e.sites os r
  | .print e, r => e.sites os r
  | .varDecl _ none, _ => []
  | .varDecl name (some initial), r => initial.sites os (r.declare name)
  | .block body, r => Stmt.sitesAll (.block body :: os) body (r.opened [])
  | .branch condition thenCase none, r =>
    condition.sites os r ++ thenCase.sites os (condition.resolve r)
  | .branch condition thenCase (some elseCase), r =>
    condition.sites os r ++ (thenCase.sites os (condition.resolve r) ++
      elseCase.sites os (thenCase.resolve (condition.resolve r)))
  | .loop condition body, r => condition.sites os r ++ body.sites os (condition.resolve r)
  | .function declaration, r =>
    declaration.sites os .function ((r.declare declaration.name).define declaration.name)
  | .yield _ none, _ => []
  | .yield keyword (some value), r => value.sites os (r.checkReturn keyword true)
  | .classDecl name none methods, r =>
    Function.sitesMethods (.self :: os) methods
      (((({ r with context := .base } : Resolution).declare name).define name).opened [selfName])
  | .classDecl name (some superclass) methods, r =>
    let r := ((({ r with context := .derived } : Resolution).declare name).define
      name).checkSuperclass name superclass
    superclass.sites os r ++ Function.sitesMethods (.self :: .super :: os) methods
      (((superclass.resolve r).opened [superName]).opened [selfName])

def Stmt.sitesAll (os : List Opener) : List Stmt → Resolution → List Site
  | [], _ => []
  | s :: rest, r => s.sites os r ++ Stmt.sitesAll os rest (s.resolve r)

def Function.sites (os : List Opener) : Function → Body → Resolution → List Site
  | .mk name parameters body, kind, r =>
    Stmt.sitesAll (.function ⟨name, parameters, body⟩ :: os) body
      ((({ r with body := kind } : Resolution).opened []).declareAll parameters)

def Function.sitesMethods (os : List Opener) : List Function → Resolution → List Site
  | [], _ => []
  | f :: fs, r => f.sites os f.methodBody r ++ Function.sitesMethods os fs (f.resolve f.methodBody r)

end

/-! ## Scopes of an expression -/

mutual

/-- Expressions open no scopes. -/
theorem Expr.scopes_of_mem_sites (os : List Opener) : (e : Expr) → (r : Resolution) →
    ∀ site ∈ e.sites os r, site.scopes = r.scopes
  | .number _, _ | .string _, _ | .boolean _, _ | .nil, _ => nofun
  | .group inner, r => inner.scopes_of_mem_sites os r
  | .unary _ operand, r => operand.scopes_of_mem_sites os r
  | .binary left _ right, r | .logical left _ right, r => by
    intro site hsite
    obtain h | h := List.mem_append.1 hsite
    · exact left.scopes_of_mem_sites os r site h
    · exact (right.scopes_of_mem_sites os _ site h).trans (left.onward r).scopes
  | .choice condition thenCase elseCase, r => by
    intro site hsite
    have hthen := (condition.onward r).scopes
    have helse := (thenCase.onward (condition.resolve r)).scopes
    obtain h | h := List.mem_append.1 hsite
    · exact condition.scopes_of_mem_sites os r site h
    obtain h | h := List.mem_append.1 h
    · exact (thenCase.scopes_of_mem_sites os _ site h).trans hthen
    · exact (elseCase.scopes_of_mem_sites os _ site h).trans (helse.trans hthen)
  | .comma items, r => Expr.scopes_of_mem_sitesAll os items r
  | .var _ _, _ | .self _ _, _ | .super _ _ _, _ => fun site hsite => by
    obtain rfl := List.mem_singleton.1 hsite
    rfl
  | .assign _ _ value, r => by
    intro site hsite
    obtain h | h := List.mem_append.1 hsite
    · exact value.scopes_of_mem_sites os r site h
    · obtain rfl := List.mem_singleton.1 h
      exact (value.onward r).scopes
  | .call callee _ arguments, r => by
    intro site hsite
    obtain h | h := List.mem_append.1 hsite
    · exact callee.scopes_of_mem_sites os r site h
    · exact (Expr.scopes_of_mem_sitesAll os arguments _ site h).trans (callee.onward r).scopes
  | .get object _, r => object.scopes_of_mem_sites os r
  | .set object _ value, r => by
    intro site hsite
    obtain h | h := List.mem_append.1 hsite
    · exact value.scopes_of_mem_sites os r site h
    · exact (object.scopes_of_mem_sites os _ site h).trans (value.onward r).scopes

theorem Expr.scopes_of_mem_sitesAll (os : List Opener) : (es : List Expr) → (r : Resolution) →
    ∀ site ∈ Expr.sitesAll os es r, site.scopes = r.scopes
  | [], _ => nofun
  | e :: es, r => by
    intro site hsite
    obtain h | h := List.mem_append.1 hsite
    · exact e.scopes_of_mem_sites os r site h
    · exact (Expr.scopes_of_mem_sitesAll os es _ site h).trans (e.onward r).scopes

end

/-! ## Names in scopes -/

/-- `Known scopes name d`: the innermost of the scopes that holds the name lies
`d` steps outward, and the name is ready for use there. -/
def Known : List Scope → String → Nat → Prop
  | [], _, _ => False
  | scope :: _, name, 0 => scope.lookup name = some true
  | scope :: outer, name, d + 1 => scope.lookup name = none ∧ Known outer name d

/-- No name of the scope is still waiting for its initializer. -/
def Scope.Ready (scope : Scope) : Prop := ∀ name, scope.lookup name ≠ some false

/-- What keeping the static rules says about a site. A variable does not stand in
its own initializer, and `this` and `super` stand in methods that have them. -/
def Site.Fine (site : Site) : Prop :=
  match site.node with
  | .var _ _ => ∀ d, distance? site.scopes site.name = some d → Known site.scopes site.name d
  | .self _ _ => ∃ d, Known site.scopes site.name d
  | .super _ _ _ => ∃ d, Known site.scopes selfName d ∧ Known site.scopes site.name (d + 1)
  | _ => True

theorem distance?_cons (scope : Scope) (outer : List Scope) (name : String) :
    distance? (scope :: outer) name =
      if (scope.lookup name).isSome then some 0 else (distance? outer name).map (· + 1) := by
  rw [distance?, List.findIdx?_cons]
  rfl

theorem Known.distance?_eq {scopes : List Scope} {name : String} {d : Nat}
    (h : Known scopes name d) : distance? scopes name = some d := by
  induction scopes generalizing d with
  | nil => exact absurd h id
  | cons scope outer ih =>
    rw [distance?_cons]
    cases d with
    | zero =>
      have h : scope.lookup name = some true := h
      simp [h]
    | succ d => simp [h.1, ih h.2]

/-- In scopes that are ready, every name that is found is known. -/
theorem known_of_ready {scopes : List Scope} {name : String} {d : Nat}
    (hready : ∀ scope ∈ scopes, scope.lookup name ≠ some false)
    (h : distance? scopes name = some d) : Known scopes name d := by
  induction scopes generalizing d with
  | nil => simp [distance?] at h
  | cons scope outer ih =>
    have hscope := hready scope (by simp)
    have houter : ∀ s ∈ outer, s.lookup name ≠ some false :=
      fun s hs => hready s (List.mem_cons_of_mem _ hs)
    rw [distance?_cons] at h
    cases hl : scope.lookup name with
    | none =>
      rw [hl] at h
      obtain ⟨d', hd', rfl⟩ := Option.map_eq_some_iff.1 h
      exact ⟨hl, ih houter hd'⟩
    | some ready =>
      rw [hl] at h hscope
      obtain rfl : 0 = d := by simpa using h
      cases ready with
      -- the first scope that has the name has it ready
      | false => exact absurd rfl hscope
      | true => exact hl

/-- A scope that does not hold the name is stepped over. -/
theorem Known.step {scope : Scope} {outer : List Scope} {name : String} {d : Nat}
    (h : Known outer name d) (hscope : scope.lookup name = none) :
    Known (scope :: outer) name (d + 1) := ⟨hscope, h⟩

end Lox
