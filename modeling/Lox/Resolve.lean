import Lox.Eval.Basic

/-
  Resolution — scope distances and the static rules

  A walk over the tree in which the scopes of the program are opened and closed
  as they will be when it runs. At each use of a name that one of the open
  scopes declares, the number of scopes between is recorded as its distance; a
  name that none declares is global. On the way the walk reports every broken
  rule, and goes on.
-/

namespace Lox

/-- The names of a scope. A name is false while its initializer is read. -/
abbrev Scope := List (String × Bool)

/-- What a return leaves. -/
inductive Body where
  | topLevel
  | function
  | method
  | initializer
  deriving DecidableEq, Repr

/-- What `this` and `super` belong to. -/
inductive ClassContext where
  | outside
  /-- a class without superclass -/
  | base
  /-- a class with a superclass -/
  | derived
  deriving DecidableEq, Repr

/-- How far a resolution has come. -/
structure Resolution where
  /-- The open scopes, the innermost first. -/
  scopes : List Scope
  body : Body
  context : ClassContext
  errors : List ScopeError
  distances : Distances

namespace Resolution

/-- The state at the top level. -/
def start : Resolution := ⟨[], .topLevel, .outside, [], ∅⟩

/-- Reports a broken rule. -/
def report (r : Resolution) (token : Token) (problem : ScopeProblem) : Resolution :=
  { r with errors := r.errors ++ [⟨token, problem⟩] }

/-- Opens a scope that holds the given names. -/
def opened (r : Resolution) (names : List String) : Resolution :=
  { r with scopes := names.map (·, true) :: r.scopes }

/-- Closes the innermost scope. -/
def closed (r : Resolution) : Resolution := { r with scopes := r.scopes.tail }

/-- Closing a scope undoes opening it. -/
theorem closed_opened (r : Resolution) (names : List String) : (r.opened names).closed = r := rfl

/-- Declares a name in the innermost scope, where it must be new. Global names
are not kept. -/
def declare (r : Resolution) (name : Token) : Resolution :=
  match r.scopes with
  | [] => r
  | scope :: outer =>
    match scope.lookup name.lexeme with
    | some _ => r.report name .alreadyDeclared
    | none => { r with scopes := ((name.lexeme, false) :: scope) :: outer }

/-- Marks a name of the innermost scope as ready for use. -/
def define (r : Resolution) (name : Token) : Resolution :=
  match r.scopes with
  | [] => r
  | scope :: outer => { r with scopes := ((name.lexeme, true) :: scope) :: outer }

/-- The number of scopes inside the innermost one that holds a name. -/
def distance? (scopes : List Scope) (name : String) : Option Nat :=
  scopes.findIdx? fun scope => (scope.lookup name).isSome

/-- Records the distance of a use of a name. -/
def use (r : Resolution) (id : Nat) (name : Token) : Resolution :=
  match distance? r.scopes name.lexeme with
  | some distance => { r with distances := r.distances.insert id distance }
  | none => r

/-- Whether the innermost scope is still reading the initializer of a name. -/
def inInitializer (r : Resolution) (name : String) : Bool :=
  match r.scopes with
  | [] => false
  | scope :: _ => scope.lookup name == some false

/-- A use of a variable. -/
def useVariable (r : Resolution) (id : Nat) (name : Token) : Resolution :=
  (if r.inInitializer name.lexeme then r.report name .ownInitializer else r).use id name

/-- A use of `this`. -/
def useSelf (r : Resolution) (id : Nat) (keyword : Token) : Resolution :=
  match r.context with
  | .outside => r.report keyword .thisOutsideClass
  | _ => r.use id keyword

/-- A use of `super`. -/
def useSuper (r : Resolution) (id : Nat) (keyword : Token) : Resolution :=
  let r := match r.context with
    | .outside => r.report keyword .superOutsideClass
    | .base => r.report keyword .superWithoutSuperclass
    | .derived => r
  r.use id keyword

/-- The checks of a return. -/
def checkReturn (r : Resolution) (keyword : Token) (hasValue : Bool) : Resolution :=
  let r := if r.body = .topLevel then r.report keyword .topLevelReturn else r
  if hasValue && r.body = .initializer then r.report keyword .initializerValue else r

/-- The check that a class does not extend itself. -/
def checkSuperclass (r : Resolution) (name : Token) : Expr → Resolution
  | .var _ superclass =>
    if superclass.lexeme = name.lexeme then r.report superclass .ownSuperclass else r
  | _ => r

/-- Declares parameters, which can be used at once. -/
def declareAll (r : Resolution) (names : List Token) : Resolution :=
  names.foldl (fun r name => (r.declare name).define name) r

/-- Resolves something in a function body of the given kind with a scope for
parameters and body. -/
def inFunction (r : Resolution) (kind : Body) (parameters : List Token)
    (body : Resolution → Resolution) : Resolution :=
  let inner := body ((({ r with body := kind }).opened []).declareAll parameters)
  { inner.closed with body := r.body }

/-- Resolves something inside a class. -/
def inClass (r : Resolution) (context : ClassContext) (members : Resolution → Resolution) :
    Resolution :=
  { members { r with context } with context := r.context }

end Resolution

/-- The kind of a method's body. -/
def Function.methodBody (f : Function) : Body :=
  if f.name.lexeme = Class.initializerName then .initializer else .method

mutual

def Expr.resolve : Expr → Resolution → Resolution
  | .number _, r => r
  | .string _, r => r
  | .boolean _, r => r
  | .nil, r => r
  | .group inner, r => inner.resolve r
  | .unary _ operand, r => operand.resolve r
  | .binary left _ right, r => right.resolve (left.resolve r)
  | .logical left _ right, r => right.resolve (left.resolve r)
  | .choice condition thenCase elseCase, r =>
    elseCase.resolve (thenCase.resolve (condition.resolve r))
  | .comma items, r => Expr.resolveAll items r
  | .var id name, r => r.useVariable id name
  | .assign id name value, r => (value.resolve r).use id name
  | .call callee _ arguments, r => Expr.resolveAll arguments (callee.resolve r)
  | .get object _, r => object.resolve r
  -- the value comes first, as for assignments to variables
  | .set object _ value, r => object.resolve (value.resolve r)
  | .self id keyword, r => r.useSelf id keyword
  | .super id keyword _, r => r.useSuper id keyword

def Expr.resolveAll : List Expr → Resolution → Resolution
  | [], r => r
  | e :: es, r => Expr.resolveAll es (e.resolve r)

end

mutual

def Stmt.resolve : Stmt → Resolution → Resolution
  | .expression e, r => e.resolve r
  | .print e, r => e.resolve r
  | .varDecl name none, r => (r.declare name).define name
  | .varDecl name (some initial), r => (initial.resolve (r.declare name)).define name
  | .block body, r => (Stmt.resolveAll body (r.opened [])).closed
  | .branch condition thenCase none, r => thenCase.resolve (condition.resolve r)
  | .branch condition thenCase (some elseCase), r =>
    elseCase.resolve (thenCase.resolve (condition.resolve r))
  | .loop condition body, r => body.resolve (condition.resolve r)
  | .function declaration, r =>
    declaration.resolve .function ((r.declare declaration.name).define declaration.name)
  | .yield keyword none, r => r.checkReturn keyword false
  | .yield keyword (some value), r => value.resolve (r.checkReturn keyword true)
  | .classDecl name none methods, r =>
    r.inClass .base fun r =>
      (Function.resolveMethods methods
        (((r.declare name).define name).opened [selfName])).closed
  | .classDecl name (some superclass) methods, r =>
    r.inClass .derived fun r =>
      let r := superclass.resolve (((r.declare name).define name).checkSuperclass name superclass)
      (Function.resolveMethods methods ((r.opened [superName]).opened [selfName])).closed.closed

def Stmt.resolveAll : List Stmt → Resolution → Resolution
  | [], r => r
  | s :: rest, r => Stmt.resolveAll rest (s.resolve r)

def Function.resolve : Function → Body → Resolution → Resolution
  | .mk _ parameters body, kind, r => r.inFunction kind parameters (Stmt.resolveAll body)

def Function.resolveMethods : List Function → Resolution → Resolution
  | [], r => r
  | f :: fs, r => Function.resolveMethods fs (f.resolve f.methodBody r)

end

/-- The distances found by a resolution, or every broken rule. -/
def Resolution.result (r : Resolution) : Except (List ScopeError) Distances :=
  if r.errors.isEmpty then .ok r.distances else .error r.errors

/-- Resolves a program. -/
def resolveProgram (program : List Stmt) : Except (List ScopeError) Distances :=
  (Stmt.resolveAll program .start).result

/-- Resolves an expression at the top level. -/
def resolveExpression (e : Expr) : Except (List ScopeError) Distances :=
  (e.resolve .start).result

end Lox
