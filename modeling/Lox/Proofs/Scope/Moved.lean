import Lox.Proofs.Parse.Moved.Stmt
import Lox.Proofs.Scope.Site

/-
  Resolution on other lines

  A walk looks at names and never at lines or ids. So the walk over a tree that
  was relabelled opens the same scopes, reports the same broken rules on the
  other lines, and records the same distances under the other ids; what was
  recorded before stays below (`Stmt.moved_resolveAll`).
-/

namespace Lox

/-- A broken rule on another line. -/
def ScopeError.mapLine (g : Nat → Nat) (e : ScopeError) : ScopeError :=
  { e with token := e.token.mapLine g }

namespace Resolution

/-- `Moved g c base r r'`: the second walk has come as far as the first one, on other
lines and with ids that begin `c` further on, over recorded distances. -/
structure Moved (g : Nat → Nat) (c : Nat) (base : Nat → Option Nat) (r r' : Resolution) : Prop where
  scopes : r'.scopes = r.scopes
  body : r'.body = r.body
  context : r'.context = r.context
  errors : r'.errors = r.errors.map (·.mapLine g)
  distances : ∀ id, r'.distances[id + c]? = (r.distances[id]?).or (base id)

namespace Moved

variable {g : Nat → Nat} {c : Nat} {base : Nat → Option Nat} {r r' : Resolution}

theorem report (h : Moved g c base r r') (token : Token) (problem : ScopeProblem) :
    Moved g c base (r.report token problem) (r'.report (token.mapLine g) problem) :=
  { h with
    errors := by
      rw [Resolution.report, Resolution.report, h.errors, List.map_append]
      rfl }

/-- A decision that falls the same way in both. -/
theorem ite {p q : Prop} [Decidable p] [Decidable q] (hpq : p ↔ q) {s s' : Resolution}
    (h : Moved g c base r r') (hs : Moved g c base s s') :
    Moved g c base (if p then r else s) (if q then r' else s') := by
  by_cases hp : p
  · rw [if_pos hp, if_pos (hpq.1 hp)]
    exact h
  · rw [if_neg hp, if_neg (mt hpq.2 hp)]
    exact hs

theorem opened (h : Moved g c base r r') (names : List String) :
    Moved g c base (r.opened names) (r'.opened names) :=
  { h with scopes := congrArg (names.map (·, true) :: ·) h.scopes }

theorem closed (h : Moved g c base r r') : Moved g c base r.closed r'.closed :=
  { h with scopes := congrArg List.tail h.scopes }

theorem withBody (h : Moved g c base r r') (body : Body) :
    Moved g c base { r with body } { r' with body } :=
  { h with body := rfl }

theorem withContext (h : Moved g c base r r') (context : ClassContext) :
    Moved g c base { r with context } { r' with context } :=
  { h with context := rfl }

theorem declare (h : Moved g c base r r') (name : Token) :
    Moved g c base (r.declare name) (r'.declare (name.mapLine g)) := by
  rw [Resolution.declare, Resolution.declare, h.scopes, Token.mapLine_lexeme]
  split
  · exact h
  · split
    · exact h.report name .alreadyDeclared
    · exact { h with scopes := rfl }

theorem define (h : Moved g c base r r') (name : Token) :
    Moved g c base (r.define name) (r'.define (name.mapLine g)) := by
  rw [Resolution.define, Resolution.define, h.scopes, Token.mapLine_lexeme]
  split
  · exact h
  · exact { h with scopes := rfl }

theorem declareAll (h : Moved g c base r r') (names : List Token) :
    Moved g c base (r.declareAll names) (r'.declareAll (names.map (·.mapLine g))) := by
  induction names generalizing r r' with
  | nil => exact h
  | cons name names ih => exact ih ((h.declare name).define name)

theorem use (h : Moved g c base r r') (id : Nat) (name : Token) :
    Moved g c base (r.use id name) (r'.use (id + c) (name.mapLine g)) := by
  rw [Resolution.use, Resolution.use, h.scopes, Token.mapLine_lexeme]
  split
  · refine { h with scopes := rfl, distances := fun i => ?_ }
    rw [Std.TreeMap.getElem?_insert, Std.TreeMap.getElem?_insert, h.distances]
    by_cases hi : id = i
    · simp [hi]
    · simp [hi]
  · exact h

theorem inInitializer_eq (h : Moved g c base r r') (name : String) :
    r'.inInitializer name = r.inInitializer name := by
  rw [inInitializer, inInitializer, h.scopes]

theorem useVariable (h : Moved g c base r r') (id : Nat) (name : Token) :
    Moved g c base (r.useVariable id name) (r'.useVariable (id + c) (name.mapLine g)) := by
  rw [Resolution.useVariable, Resolution.useVariable, h.inInitializer_eq, Token.mapLine_lexeme]
  exact (Moved.ite .rfl (h.report name _) h).use id name

theorem useSelf (h : Moved g c base r r') (id : Nat) (keyword : Token) :
    Moved g c base (r.useSelf id keyword) (r'.useSelf (id + c) (keyword.mapLine g)) := by
  rw [Resolution.useSelf, Resolution.useSelf, h.context]
  split
  · exact h.report keyword _
  · exact h.use id keyword

theorem useSuper (h : Moved g c base r r') (id : Nat) (keyword : Token) :
    Moved g c base (r.useSuper id keyword) (r'.useSuper (id + c) (keyword.mapLine g)) := by
  rw [Resolution.useSuper, Resolution.useSuper, h.context]
  cases r.context with
  | outside => exact (h.report keyword .superOutsideClass).use id keyword
  | base => exact (h.report keyword .superWithoutSuperclass).use id keyword
  | derived => exact h.use id keyword

theorem checkReturn (h : Moved g c base r r') (keyword : Token) (hasValue : Bool) :
    Moved g c base (r.checkReturn keyword hasValue) (r'.checkReturn (keyword.mapLine g) hasValue) := by
  have hfirst := Moved.ite (p := r.body = .topLevel) (q := r'.body = .topLevel) (by rw [h.body])
    (h.report keyword .topLevelReturn) h
  exact .ite (by rw [hfirst.body]) (hfirst.report keyword .initializerValue) hfirst

theorem checkSuperclass (h : Moved g c base r r') (name : Token) (superclass : Expr)
    (id : Nat → Nat) :
    Moved g c base (r.checkSuperclass name superclass)
      (r'.checkSuperclass (name.mapLine g) (superclass.relabel g id)) := by
  cases superclass with
  | var i word => exact .ite .rfl (h.report word _) h
  | _ => exact h

end Moved
end Resolution

open Resolution

/-! ## Trees -/

section Trees

variable {g : Nat → Nat} {c : Nat} {base : Nat → Option Nat}

mutual

theorem Expr.moved_resolve : (e : Expr) → {r r' : Resolution} → Moved g c base r r' →
    Moved g c base (e.resolve r) ((e.relabel g (· + c)).resolve r')
  | .number _, _, _, h | .string _, _, _, h | .boolean _, _, _, h | .nil, _, _, h => h
  | .group inner, _, _, h => inner.moved_resolve h
  | .unary _ operand, _, _, h => operand.moved_resolve h
  | .binary left _ right, _, _, h | .logical left _ right, _, _, h =>
    right.moved_resolve (left.moved_resolve h)
  | .choice condition thenCase elseCase, _, _, h =>
    elseCase.moved_resolve (thenCase.moved_resolve (condition.moved_resolve h))
  | .comma items, _, _, h => Expr.moved_resolveAll items h
  | .var id name, _, _, h => h.useVariable id name
  | .assign id name value, _, _, h => (value.moved_resolve h).use id name
  | .call callee _ arguments, _, _, h => Expr.moved_resolveAll arguments (callee.moved_resolve h)
  | .get object _, _, _, h => object.moved_resolve h
  | .set object _ value, _, _, h => object.moved_resolve (value.moved_resolve h)
  | .self id keyword, _, _, h => h.useSelf id keyword
  | .super id keyword _, _, _, h => h.useSuper id keyword

theorem Expr.moved_resolveAll : (es : List Expr) → {r r' : Resolution} → Moved g c base r r' →
    Moved g c base (Expr.resolveAll es r) (Expr.resolveAll (Expr.relabelAll g (· + c) es) r')
  | [], _, _, h => h
  | e :: es, _, _, h => Expr.moved_resolveAll es (e.moved_resolve h)

end

theorem Function.methodBody_relabel (f : Function) (id : Nat → Nat) :
    (f.relabel g id).methodBody = f.methodBody := by
  cases f
  rfl

mutual

theorem Stmt.moved_resolve : (s : Stmt) → {r r' : Resolution} → Moved g c base r r' →
    Moved g c base (s.resolve r) ((s.relabel g (· + c)).resolve r')
  | .expression e, _, _, h => e.moved_resolve h
  | .print e, _, _, h => e.moved_resolve h
  | .varDecl name none, _, _, h => (h.declare name).define name
  | .varDecl name (some initial), _, _, h => (initial.moved_resolve (h.declare name)).define name
  | .block body, _, _, h => (Stmt.moved_resolveAll body (h.opened [])).closed
  | .branch condition thenCase none, _, _, h => thenCase.moved_resolve (condition.moved_resolve h)
  | .branch condition thenCase (some elseCase), _, _, h =>
    elseCase.moved_resolve (thenCase.moved_resolve (condition.moved_resolve h))
  | .loop condition body, _, _, h => body.moved_resolve (condition.moved_resolve h)
  | .function (.mk name parameters body), _, _, h =>
    Function.moved_resolve (.mk name parameters body) .function ((h.declare name).define name)
  | .yield keyword none, _, _, h => h.checkReturn keyword false
  | .yield keyword (some value), _, _, h => value.moved_resolve (h.checkReturn keyword true)
  | .classDecl name none methods, _, _, h => by
    have hin := (((h.withContext .base).declare name).define name).opened [selfName]
    have hout := (Function.moved_resolveMethods methods hin).closed
    exact { hout with context := h.context }
  | .classDecl name (some superclass) methods, _, _, h => by
    have hcheck := (((h.withContext .derived).declare name).define name).checkSuperclass name
      superclass (· + c)
    have hin := ((superclass.moved_resolve hcheck).opened [superName]).opened [selfName]
    have hout := (Function.moved_resolveMethods methods hin).closed.closed
    exact { hout with context := h.context }

theorem Stmt.moved_resolveAll : (ss : List Stmt) → {r r' : Resolution} → Moved g c base r r' →
    Moved g c base (Stmt.resolveAll ss r) (Stmt.resolveAll (Stmt.relabelAll g (· + c) ss) r')
  | [], _, _, h => h
  | s :: rest, _, _, h => Stmt.moved_resolveAll rest (s.moved_resolve h)

theorem Function.moved_resolve : (f : Function) → (kind : Body) → {r r' : Resolution} →
    Moved g c base r r' → Moved g c base (f.resolve kind r) ((f.relabel g (· + c)).resolve kind r')
  | .mk name parameters body, kind, _, _, h => by
    have hin := ((h.withBody kind).opened []).declareAll parameters
    have hout := (Stmt.moved_resolveAll body hin).closed
    exact { hout with body := h.body }

theorem Function.moved_resolveMethods : (fs : List Function) → {r r' : Resolution} →
    Moved g c base r r' →
    Moved g c base (Function.resolveMethods fs r)
      (Function.resolveMethods (Function.relabelAll g (· + c) fs) r')
  | [], _, _, h => h
  | f :: fs, r, r', h => by
    rw [Function.resolveMethods, Function.relabelAll, Function.resolveMethods,
      Function.methodBody_relabel]
    exact Function.moved_resolveMethods fs (f.moved_resolve f.methodBody h)

end

end Trees

/-! ## Results -/

namespace Resolution.Moved

variable {g : Nat → Nat} {c : Nat} {base : Nat → Option Nat} {r r' : Resolution}

theorem start (g : Nat → Nat) (c : Nat) : Moved g c (fun _ => none) .start .start where
  scopes := rfl
  body := rfl
  context := rfl
  errors := rfl
  distances _ := by simp [Resolution.start]

/-- The second walk finds the same distances. -/
theorem result_of_ok (h : Moved g c base r r') {ds : Distances} (hr : r.result = .ok ds) :
    ∃ ds', r'.result = .ok ds' ∧ ∀ id, ds'[id + c]? = (ds[id]?).or (base id) := by
  rw [result] at hr
  split at hr
  · rename_i hempty
    cases hr
    refine ⟨r'.distances, ?_, h.distances⟩
    rw [result, h.errors, List.isEmpty_map, if_pos hempty]
  · cases hr

/-- The second walk reports the same broken rules. -/
theorem result_of_error (h : Moved g c base r r') {errors : List ScopeError}
    (hr : r.result = .error errors) : r'.result = .error (errors.map (·.mapLine g)) := by
  rw [result] at hr
  split at hr
  · cases hr
  · rename_i hnone
    cases hr
    rw [result, h.errors, List.isEmpty_map, if_neg hnone]

end Resolution.Moved

end Lox
