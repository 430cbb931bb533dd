import Lox.Proofs.Scope.Recorded

/-
  Returns and the bodies they stand in

  A return belongs to the nearest body around it. At the top level there must be
  none, and in a method named `init` none with a value. `ReturnsIn` says so of a whole
  tree, with the functions and classes in it; a walk that reports nothing has come
  through such a tree only (`Stmt.returnsIn_of_resolve`).
-/

namespace Lox

open Resolution (Onward)

mutual

/-- All returns of a statement in a body of this kind are allowed there, and those of the
functions and methods that it declares are allowed in their bodies. -/
def Stmt.ReturnsIn : Stmt → Body → Prop
  | .expression _, _ | .print _, _ | .varDecl _ _, _ => True
  | .block body, kind => Stmt.AllReturnIn body kind
  | .branch _ thenCase none, kind => thenCase.ReturnsIn kind
  | .branch _ thenCase (some elseCase), kind => thenCase.ReturnsIn kind ∧ elseCase.ReturnsIn kind
  | .loop _ body, kind => body.ReturnsIn kind
  | .function declaration, _ => declaration.ReturnsIn .function
  | .yield _ value, kind => kind ≠ .topLevel ∧ (kind = .initializer → value = none)
  | .classDecl _ _ methods, _ => Function.MethodsReturn methods

def Stmt.AllReturnIn : List Stmt → Body → Prop
  | [], _ => True
  | s :: rest, kind => s.ReturnsIn kind ∧ Stmt.AllReturnIn rest kind

def Function.ReturnsIn : Function → Body → Prop
  | .mk _ _ body, kind => Stmt.AllReturnIn body kind

def Function.MethodsReturn : List Function → Prop
  | [] => True
  | f :: fs => f.ReturnsIn f.methodBody ∧ Function.MethodsReturn fs

end

theorem Function.ReturnsIn.body {d : Function} {kind : Body} (h : d.ReturnsIn kind) :
    Stmt.AllReturnIn d.body kind := by
  cases d
  exact h

theorem Stmt.AllReturnIn.of_mem {ss : List Stmt} {kind : Body} (h : Stmt.AllReturnIn ss kind)
    {s : Stmt} (hs : s ∈ ss) : s.ReturnsIn kind := by
  induction ss with
  | nil => cases hs
  | cons first rest ih =>
    rcases List.mem_cons.1 hs with rfl | hs
    · exact h.1
    · exact ih h.2 hs

theorem Function.MethodsReturn.of_mem {methods : List Function} (h : Function.MethodsReturn methods)
    {d : Function} (hd : d ∈ methods) : d.ReturnsIn d.methodBody := by
  induction methods with
  | nil => cases hd
  | cons first rest ih =>
    rcases List.mem_cons.1 hd with rfl | hd
    · exact h.1
    · exact ih h.2 hd

/-- A method is an initializer by its name. -/
theorem Function.methodBody_of_init {d : Function}
    (h : (d.name.lexeme == Class.initializerName) = true) : d.methodBody = .initializer :=
  if_pos (eq_of_beq h)

/-- What the check of a return lets through. -/
theorem Resolution.allowed_of_checkReturn {r : Resolution} {keyword : Token} {hasValue : Bool}
    (h : (r.checkReturn keyword hasValue).errors = []) :
    r.body ≠ .topLevel ∧ (r.body = .initializer → hasValue = false) := by
  cases hb : r.body <;> cases hasValue <;>
    simp_all [Resolution.checkReturn, Resolution.report]

mutual

theorem Stmt.returnsIn_of_resolve : (s : Stmt) → (r : Resolution) → (s.resolve r).errors = [] →
    s.ReturnsIn r.body
  | .expression _, _, _ | .print _, _, _ | .varDecl _ _, _, _ => trivial
  | .block body, r, h => Stmt.allReturnIn_of_resolve body (r.opened []) h
  | .branch condition thenCase none, r, h =>
    (condition.onward r).body ▸ thenCase.returnsIn_of_resolve (condition.resolve r) h
  | .branch condition thenCase (some elseCase), r, h => by
    have hcondition := (condition.onward r).body
    have hthen := (thenCase.onward (condition.resolve r)).body.trans hcondition
    constructor
    · exact hcondition ▸ thenCase.returnsIn_of_resolve _ ((elseCase.onward _).errors_eq_nil h)
    · exact hthen ▸ elseCase.returnsIn_of_resolve _ h
  | .loop condition body, r, h =>
    (condition.onward r).body ▸ body.returnsIn_of_resolve (condition.resolve r) h
  | .function declaration, r, h => declaration.returnsIn_of_resolve .function _ h
  | .yield keyword none, r, h =>
    ⟨(Resolution.allowed_of_checkReturn h).1, fun _ => rfl⟩
  | .yield keyword (some value), r, h => by
    obtain ⟨htop, hvalue⟩ := Resolution.allowed_of_checkReturn ((value.onward _).errors_eq_nil h)
    exact ⟨htop, fun hinit => absurd (hvalue hinit) nofun⟩
  | .classDecl _ none methods, _, h => Function.methodsReturn_of_resolve methods _ h
  | .classDecl _ (some _) methods, _, h => Function.methodsReturn_of_resolve methods _ h

theorem Stmt.allReturnIn_of_resolve : (ss : List Stmt) → (r : Resolution) →
    (Stmt.resolveAll ss r).errors = [] → Stmt.AllReturnIn ss r.body
  | [], _, _ => trivial
  | s :: rest, r, h =>
    ⟨s.returnsIn_of_resolve r ((Stmt.onwardAll rest _).errors_eq_nil h),
      (s.onward r).body ▸ Stmt.allReturnIn_of_resolve rest (s.resolve r) h⟩

theorem Function.returnsIn_of_resolve : (d : Function) → (kind : Body) → (r : Resolution) →
    (d.resolve kind r).errors = [] → d.ReturnsIn kind
  | .mk _ parameters body, kind, r, h => by
    let inner := (({ r with body := kind } : Resolution).opened []).declareAll parameters
    have hbody : inner.body = kind := (Onward.declaredAll _ parameters).body
    exact hbody ▸ Stmt.allReturnIn_of_resolve body inner h

theorem Function.methodsReturn_of_resolve : (methods : List Function) → (r : Resolution) →
    (Function.resolveMethods methods r).errors = [] → Function.MethodsReturn methods
  | [], _, _ => trivial
  | d :: rest, r, h =>
    ⟨d.returnsIn_of_resolve d.methodBody r ((Function.onwardMethods rest _).errors_eq_nil h),
      Function.methodsReturn_of_resolve rest _ h⟩

end

/-- In an accepted program all returns are allowed. -/
theorem allReturnIn_of_resolveProgram {program : List Stmt} {distances : Distances}
    (h : resolveProgram program = .ok distances) : Stmt.AllReturnIn program .topLevel :=
  Stmt.allReturnIn_of_resolve program .start (Resolution.of_result h).1

end Lox
