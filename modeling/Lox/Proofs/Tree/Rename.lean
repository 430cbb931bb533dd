import Lox.Proofs.Heap.Growth

/-
  Renaming a local variable

  A local variable gets another name: in its declaration, and at exactly those
  variables and assignments whose recorded distance leads to the scope of the
  declaration. Everything else of the tree stays as it is, the same name of other
  scopes included.

  `Stmt.AllRenames R program program'` says that the second program is the first
  one with one local variable renamed.
-/

namespace Lox

/-- What a renaming is about: the distances that are recorded for nodes, the name that a
variable has and the one that it gets. Neither name is `this` or `super`. -/
structure Renaming where
  distances : Distances
  old : String
  new : String
  old_free : ¬Heap.Reserved old
  new_free : ¬Heap.Reserved new

namespace Renaming

variable (R : Renaming)

/-- The name of a declaration in a scope that lies `away` scopes inside that of the
variable, if it lies inside it at all. -/
def declare (away : Option Nat) (name : Token) : Token :=
  if away = some 0 ∧ name.lexeme = R.old then { name with lexeme := R.new } else name

/-- The name of a node in such a scope. -/
def use (away : Option Nat) (id : Nat) (name : Token) : Token :=
  if away ≠ none ∧ R.distances[id]? = away ∧ name.lexeme = R.old then
    { name with lexeme := R.new }
  else name

end Renaming

section Rename

variable (R : Renaming) (away : Option Nat)

mutual

def Expr.rename : Expr → Expr
  | .number value => .number value
  | .string text => .string text
  | .boolean value => .boolean value
  | .nil => .nil
  | .group inner => .group inner.rename
  | .unary operator operand => .unary operator operand.rename
  | .binary left operator right => .binary left.rename operator right.rename
  | .logical left operator right => .logical left.rename operator right.rename
  | .choice condition thenCase elseCase =>
    .choice condition.rename thenCase.rename elseCase.rename
  | .comma items => .comma (Expr.renameAll items)
  | .var id name => .var id (R.use away id name)
  | .assign id name value => .assign id (R.use away id name) value.rename
  | .call callee paren arguments => .call callee.rename paren (Expr.renameAll arguments)
  | .get object name => .get object.rename name
  | .set object name value => .set object.rename name value.rename
  | .self id keyword => .self id keyword
  | .super id keyword method => .super id keyword method

def Expr.renameAll : List Expr → List Expr
  | [] => []
  | e :: es => e.rename :: Expr.renameAll es

end

end Rename

mutual

/-- A statement after the renaming. Each scope that opens is one scope further away. -/
def Stmt.rename (R : Renaming) (away : Option Nat) : Stmt → Stmt
  | .expression e => .expression (e.rename R away)
  | .print e => .print (e.rename R away)
  | .varDecl name none => .varDecl (R.declare away name) none
  | .varDecl name (some initial) => .varDecl (R.declare away name) (some (initial.rename R away))
  | .block body => .block (Stmt.renameAll R (away.map (· + 1)) body)
  | .branch condition thenCase none =>
    .branch (condition.rename R away) (thenCase.rename R away) none
  | .branch condition thenCase (some elseCase) =>
    .branch (condition.rename R away) (thenCase.rename R away) (some (elseCase.rename R away))
  | .loop condition body => .loop (condition.rename R away) (body.rename R away)
  | .function declaration => .function (declaration.rename R (away.map (· + 1)))
  | .yield keyword none => .yield keyword none
  | .yield keyword (some value) => .yield keyword (some (value.rename R away))
  -- around a method lies the scope of `this`, and around that the one of `super`
  | .classDecl name none methods =>
    .classDecl name none (Function.renameAll R (away.map (· + 2)) methods)
  | .classDecl name (some superclass) methods =>
    .classDecl name (some (superclass.rename R away))
      (Function.renameAll R (away.map (· + 3)) methods)

def Stmt.renameAll (R : Renaming) (away : Option Nat) : List Stmt → List Stmt
  | [] => []
  | s :: rest => s.rename R away :: Stmt.renameAll R away rest

/-- A function or method whose own scope, that of its parameters and its body, lies
`away` scopes inside that of the variable. -/
def Function.rename (R : Renaming) (away : Option Nat) : Function → Function
  | .mk name parameters body =>
    .mk name (parameters.map (R.declare away)) (Stmt.renameAll R away body)

def Function.renameAll (R : Renaming) (away : Option Nat) : List Function → List Function
  | [] => []
  | f :: fs => f.rename R away :: Function.renameAll R away fs

end

/-! ## The variable that is renamed -/

/-- The statements of a scope declare a variable. -/
def Stmt.DeclareVariable (name : String) (body : List Stmt) : Prop :=
  ∃ token initial, Stmt.varDecl token initial ∈ body ∧ token.lexeme = name

/-- A function has the variable as a parameter, or declares it in its body. -/
def Function.DeclaresVariable (name : String) (f : Function) : Prop :=
  (∃ token ∈ f.parameters, token.lexeme = name) ∨ Stmt.DeclareVariable name f.body

mutual

/-- `Stmt.Renames R s s'`: in one of the scopes inside the statement the variable is
declared, and there it is renamed. -/
inductive Stmt.Renames (R : Renaming) : Stmt → Stmt → Prop
  | here {body : List Stmt} : Stmt.DeclareVariable R.old body →
      Stmt.Renames R (.block body) (.block (Stmt.renameAll R (some 0) body))
  | block {body body' : List Stmt} : Stmt.AllRenames R body body' →
      Stmt.Renames R (.block body) (.block body')
  | thenCase {condition : Expr} {s s' : Stmt} {elseCase : Option Stmt} : Stmt.Renames R s s' →
      Stmt.Renames R (.branch condition s elseCase) (.branch condition s' elseCase)
  | elseCase {condition : Expr} {thenCase s s' : Stmt} : Stmt.Renames R s s' →
      Stmt.Renames R (.branch condition thenCase (some s)) (.branch condition thenCase (some s'))
  | loop {condition : Expr} {s s' : Stmt} : Stmt.Renames R s s' →
      Stmt.Renames R (.loop condition s) (.loop condition s')
  | function {f f' : Function} : Function.Renames R f f' →
      Stmt.Renames R (.function f) (.function f')
  | method {name : Token} {superclass : Option Expr} {fs fs' : List Function} :
      Function.AllRenames R fs fs' →
      Stmt.Renames R (.classDecl name superclass fs) (.classDecl name superclass fs')

/-- The same for one of several statements. -/
inductive Stmt.AllRenames (R : Renaming) : List Stmt → List Stmt → Prop
  | head {s s' : Stmt} {rest : List Stmt} : Stmt.Renames R s s' →
      Stmt.AllRenames R (s :: rest) (s' :: rest)
  | tail {s : Stmt} {rest rest' : List Stmt} : Stmt.AllRenames R rest rest' →
      Stmt.AllRenames R (s :: rest) (s :: rest')

inductive Function.Renames (R : Renaming) : Function → Function → Prop
  | here {f : Function} : f.DeclaresVariable R.old → Function.Renames R f (f.rename R (some 0))
  | body {name : Token} {parameters : List Token} {body body' : List Stmt} :
      Stmt.AllRenames R body body' →
      Function.Renames R (.mk name parameters body) (.mk name parameters body')

inductive Function.AllRenames (R : Renaming) : List Function → List Function → Prop
  | head {f f' : Function} {rest : List Function} : Function.Renames R f f' →
      Function.AllRenames R (f :: rest) (f' :: rest)
  | tail {f : Function} {rest rest' : List Function} : Function.AllRenames R rest rest' →
      Function.AllRenames R (f :: rest) (f :: rest')

end

/-! ## Names that do not occur -/

section Avoids

variable (name : String)

mutual

/-- No variable of the expression has this name. -/
def Expr.Avoids : Expr → Prop
  | .number _ | .string _ | .boolean _ | .nil | .self _ _ | .super _ _ _ => True
  | .group inner => inner.Avoids
  | .unary _ operand => operand.Avoids
  | .binary left _ right | .logical left _ right => left.Avoids ∧ right.Avoids
  | .choice condition thenCase elseCase =>
    condition.Avoids ∧ thenCase.Avoids ∧ elseCase.Avoids
  | .comma items => Expr.AllAvoid items
  | .var _ token => token.lexeme ≠ name
  | .assign _ token value => token.lexeme ≠ name ∧ value.Avoids
  | .call callee _ arguments => callee.Avoids ∧ Expr.AllAvoid arguments
  | .get object _ => object.Avoids
  | .set object _ value => object.Avoids ∧ value.Avoids

def Expr.AllAvoid : List Expr → Prop
  | [] => True
  | e :: es => e.Avoids ∧ Expr.AllAvoid es

end

mutual

/-- Nothing that the statement declares or uses as a variable has this name. -/
def Stmt.Avoids : Stmt → Prop
  | .expression e | .print e => e.Avoids name
  | .varDecl token initial => token.lexeme ≠ name ∧ ∀ e ∈ initial, e.Avoids name
  | .block body => Stmt.AllAvoid body
  | .branch condition thenCase none => condition.Avoids name ∧ thenCase.Avoids
  | .branch condition thenCase (some elseCase) =>
    condition.Avoids name ∧ thenCase.Avoids ∧ elseCase.Avoids
  | .loop condition body => condition.Avoids name ∧ body.Avoids
  | .function declaration => declaration.name.lexeme ≠ name ∧ declaration.Avoids
  | .yield _ value => ∀ e ∈ value, e.Avoids name
  | .classDecl token superclass methods =>
    token.lexeme ≠ name ∧ (∀ e ∈ superclass, e.Avoids name) ∧ Function.AllAvoid methods

def Stmt.AllAvoid : List Stmt → Prop
  | [] => True
  | s :: rest => s.Avoids ∧ Stmt.AllAvoid rest

/-- The names inside a function or method; that of a method is no variable. -/
def Function.Avoids : Function → Prop
  | .mk _ parameters body => (∀ token ∈ parameters, token.lexeme ≠ name) ∧ Stmt.AllAvoid body

def Function.AllAvoid : List Function → Prop
  | [] => True
  | f :: fs => f.Avoids ∧ Function.AllAvoid fs

end

end Avoids

/-! ## What a name becomes -/

namespace Renaming

variable (R : Renaming)

theorem declare_none (name : Token) : R.declare none name = name := by
  simp [declare]

theorem use_none (id : Nat) (name : Token) : R.use none id name = name := by
  simp [use]

/-- Another name stays as it is. -/
theorem use_of_ne (away : Option Nat) (id : Nat) {name : Token} (h : name.lexeme ≠ R.old) :
    R.use away id name = name := if_neg fun h' => h h'.2.2

theorem line_use (away : Option Nat) (id : Nat) (name : Token) :
    (R.use away id name).line = name.line := by
  rw [use]
  split <;> rfl

/-- What a name is called whose scope lies at the given distance, if it has one: in the
scope of the variable, the two names change places. -/
def name (away distance : Option Nat) (n : String) : String :=
  if away ≠ none ∧ distance = away then Equiv.swap R.old R.new n else n

variable {away distance : Option Nat} {n : String}

theorem name_of_ne (hold : n ≠ R.old) (hnew : n ≠ R.new) : R.name away distance n = n := by
  rw [name, Equiv.swap_apply_of_ne_of_ne hold hnew, ite_self]

theorem name_none : R.name none distance n = n := if_neg fun h => h.1 rfl

/-- A name that is in no scope is global, and stays as it is. -/
theorem name_global : R.name away none n = n := if_neg fun h => h.1 h.2.symm

theorem name_of_distance_ne (h : distance ≠ away) : R.name away distance n = n :=
  if_neg fun h' => h h'.2

theorem name_here (d : Nat) : R.name (some d) (some d) n = Equiv.swap R.old R.new n :=
  if_pos ⟨nofun, rfl⟩

/-- The same from one scope further in. -/
theorem name_deeper (R : Renaming) (away distance : Option Nat) (n : String) :
    R.name (away.map (· + 1)) (distance.map (· + 1)) n = R.name away distance n := by
  cases away with
  | none => exact R.name_none.trans R.name_none.symm
  | some a => cases distance <;> simp [name]

theorem name_injective (R : Renaming) (away distance : Option Nat) :
    Function.Injective (R.name away distance) := by
  intro a b h
  unfold name at h
  split at h
  · exact (Equiv.swap R.old R.new).injective h
  · exact h

theorem lexeme_use (id : Nat) {token : Token} (h : away ≠ none → token.lexeme ≠ R.new) :
    (R.use away id token).lexeme = R.name away R.distances[id]? token.lexeme := by
  rw [use, name]
  by_cases hhere : away ≠ none ∧ R.distances[id]? = away
  · by_cases hold : token.lexeme = R.old
    · rw [if_pos ⟨hhere.1, hhere.2, hold⟩, if_pos hhere, hold, Equiv.swap_apply_left]
    · rw [if_neg fun h' => hold h'.2.2, if_pos hhere,
        Equiv.swap_apply_of_ne_of_ne hold (h hhere.1)]
  · rw [if_neg fun h' => hhere ⟨h'.1, h'.2.1⟩, if_neg hhere]

theorem lexeme_declare {token : Token} (h : away ≠ none → token.lexeme ≠ R.new) :
    (R.declare away token).lexeme = R.name away (some 0) token.lexeme := by
  rw [declare, name]
  by_cases hhere : away = some 0
  · subst hhere
    by_cases hold : token.lexeme = R.old
    · rw [if_pos ⟨rfl, hold⟩, if_pos ⟨nofun, rfl⟩, hold, Equiv.swap_apply_left]
    · rw [if_neg fun h' => hold h'.2, if_pos ⟨nofun, rfl⟩,
        Equiv.swap_apply_of_ne_of_ne hold (h nofun)]
  · rw [if_neg fun h' => hhere h'.1, if_neg fun h' => hhere h'.2.symm]

end Renaming

/-! ## Outside the scope -/

mutual

/-- Outside the scope of the variable nothing is renamed. -/
theorem Expr.rename_none (R : Renaming) : (e : Expr) → e.rename R none = e
  | .number _ | .string _ | .boolean _ | .nil | .self _ _ | .super _ _ _ => rfl
  | .group inner => congrArg Expr.group (inner.rename_none R)
  | .unary operator operand => congrArg (Expr.unary operator) (operand.rename_none R)
  | .binary left operator right =>
    congrArg₂ (Expr.binary · operator ·) (left.rename_none R) (right.rename_none R)
  | .logical left operator right =>
    congrArg₂ (Expr.logical · operator ·) (left.rename_none R) (right.rename_none R)
  | .choice condition thenCase elseCase => by
    rw [Expr.rename, condition.rename_none, thenCase.rename_none, elseCase.rename_none]
  | .comma items => congrArg Expr.comma (Expr.renameAll_none R items)
  | .var id name => congrArg (Expr.var id) (R.use_none id name)
  | .assign id name value =>
    congrArg₂ (Expr.assign id) (R.use_none id name) (value.rename_none R)
  | .call callee paren arguments =>
    congrArg₂ (Expr.call · paren ·) (callee.rename_none R) (Expr.renameAll_none R arguments)
  | .get object name => congrArg (Expr.get · name) (object.rename_none R)
  | .set object name value =>
    congrArg₂ (Expr.set · name ·) (object.rename_none R) (value.rename_none R)

theorem Expr.renameAll_none (R : Renaming) : (es : List Expr) → Expr.renameAll R none es = es
  | [] => rfl
  | e :: es => congrArg₂ List.cons (e.rename_none R) (Expr.renameAll_none R es)

end

mutual

theorem Stmt.rename_none (R : Renaming) : (s : Stmt) → s.rename R none = s
  | .expression e => congrArg Stmt.expression (e.rename_none R)
  | .print e => congrArg Stmt.print (e.rename_none R)
  | .varDecl name none => congrArg (Stmt.varDecl · none) (R.declare_none name)
  | .varDecl name (some initial) =>
    congrArg₂ (Stmt.varDecl · <| some ·) (R.declare_none name) (initial.rename_none R)
  | .block body => congrArg Stmt.block (Stmt.renameAll_none R body)
  | .branch condition thenCase none =>
    congrArg₂ (Stmt.branch · · none) (condition.rename_none R) (thenCase.rename_none R)
  | .branch condition thenCase (some elseCase) => by
    rw [Stmt.rename, condition.rename_none, thenCase.rename_none, elseCase.rename_none]
  | .loop condition body =>
    congrArg₂ Stmt.loop (condition.rename_none R) (body.rename_none R)
  | .function declaration => congrArg Stmt.function (declaration.rename_none R)
  | .yield _ none => rfl
  | .yield keyword (some value) => congrArg (Stmt.yield keyword <| some ·) (value.rename_none R)
  | .classDecl name none methods =>
    congrArg (Stmt.classDecl name none) (Function.renameAll_none R methods)
  | .classDecl name (some superclass) methods =>
    congrArg₂ (Stmt.classDecl name <| some ·) (superclass.rename_none R)
      (Function.renameAll_none R methods)

theorem Stmt.renameAll_none (R : Renaming) : (ss : List Stmt) → Stmt.renameAll R none ss = ss
  | [] => rfl
  | s :: rest => congrArg₂ List.cons (s.rename_none R) (Stmt.renameAll_none R rest)

theorem Function.rename_none (R : Renaming) : (f : Function) → f.rename R none = f
  | .mk name parameters body => by
    have hp : parameters.map (R.declare none) = parameters :=
      (List.map_congr_left fun token _ => R.declare_none token).trans (List.map_id' parameters)
    rw [Function.rename, hp, Stmt.renameAll_none]

theorem Function.renameAll_none (R : Renaming) : (fs : List Function) →
    Function.renameAll R none fs = fs
  | [] => rfl
  | f :: fs => congrArg₂ List.cons (f.rename_none R) (Function.renameAll_none R fs)

end

end Lox
