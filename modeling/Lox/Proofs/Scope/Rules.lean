import Lox.Proofs.Scope.Walk

/-
  The static rules

  The rules of scoping are stated on the tree itself: `Stands` tells which
  constructs stand around a statement, and `Breaks` tells which rule is broken
  at which token. Nothing here mentions the walk that finds such tokens.
-/

namespace Lox

/-- What can stand around a statement. -/
inductive Construct where
  | block (body : List Stmt)
  | function (declaration : Function)
  | method (declaration : Function)
  | cls (superclass : Option Expr)

namespace Construct

def isRoutine : Construct → Bool
  | function _ | method _ => true
  | block _ | cls _ => false

def isClass : Construct → Bool
  | cls _ => true
  | _ => false

end Construct

/-- The function or method that a statement belongs to, given what stands around it,
the innermost first. -/
def nearestRoutine? (path : List Construct) : Option Construct := path.find? (·.isRoutine)

/-- The class that a statement belongs to. -/
def nearestClass? (path : List Construct) : Option Construct := path.find? (·.isClass)

section

variable (program : List Stmt)

/-- `Stands program path s`: the statement `s` stands in the program, inside the constructs
of `path`. -/
inductive Stands : List Construct → Stmt → Prop
  | top {s : Stmt} : s ∈ program → Stands [] s
  | block {path : List Construct} {body : List Stmt} {s : Stmt} :
      Stands path (.block body) → s ∈ body → Stands (.block body :: path) s
  | thenCase {path : List Construct} {condition : Expr} {s : Stmt} {elseCase : Option Stmt} :
      Stands path (.branch condition s elseCase) → Stands path s
  | elseCase {path : List Construct} {condition : Expr} {thenCase s : Stmt} :
      Stands path (.branch condition thenCase (some s)) → Stands path s
  | loop {path : List Construct} {condition : Expr} {s : Stmt} :
      Stands path (.loop condition s) → Stands path s
  | function {path : List Construct} {f : Function} {s : Stmt} :
      Stands path (.function f) → s ∈ f.body → Stands (.function f :: path) s
  | method {path : List Construct} {name : Token} {superclass : Option Expr}
      {methods : List Function} {f : Function} {s : Stmt} :
      Stands path (.classDecl name superclass methods) → f ∈ methods → s ∈ f.body →
      Stands (.method f :: .cls superclass :: path) s

/-- `Shares program names`: these are the names that one scope inside the program
declares, in order. The parameters of a function belong to the scope of its body. -/
inductive Shares : List Token → Prop
  | block {path : List Construct} {body : List Stmt} :
      Stands program path (.block body) → Shares (Stmt.declaredAll body)
  | function {path : List Construct} {f : Function} :
      Stands program path (.function f) → Shares (f.parameters ++ Stmt.declaredAll f.body)
  | method {path : List Construct} {name : Token} {superclass : Option Expr}
      {methods : List Function} {f : Function} :
      Stands program path (.classDecl name superclass methods) → f ∈ methods →
      Shares (f.parameters ++ Stmt.declaredAll f.body)

end

mutual

/-- An expression and all that it is made of. -/
def Expr.parts : Expr → List Expr
  | .group inner => .group inner :: inner.parts
  | .unary operator operand => .unary operator operand :: operand.parts
  | .binary left operator right => .binary left operator right :: (left.parts ++ right.parts)
  | .logical left operator right => .logical left operator right :: (left.parts ++ right.parts)
  | .choice condition thenCase elseCase =>
    .choice condition thenCase elseCase ::
      (condition.parts ++ (thenCase.parts ++ elseCase.parts))
  | .comma items => .comma items :: Expr.partsAll items
  | .assign id name value => .assign id name value :: value.parts
  | .call callee paren arguments =>
    .call callee paren arguments :: (callee.parts ++ Expr.partsAll arguments)
  | .get object name => .get object name :: object.parts
  | .set object name value => .set object name value :: (object.parts ++ value.parts)
  | e => [e]

def Expr.partsAll : List Expr → List Expr
  | [] => []
  | e :: es => e.parts ++ Expr.partsAll es

end

/-- The expressions that a statement evaluates itself. A superclass is a name, which
has a rule of its own. -/
def Stmt.expressions : Stmt → List Expr
  | .expression e | .print e => [e]
  | .varDecl _ initial => initial.toList
  | .branch condition _ _ | .loop condition _ => [condition]
  | .yield _ value => value.toList
  | .block _ | .function _ | .classDecl _ _ _ => []

/-- `Breaks program problem token`: a static rule is broken at the token. -/
inductive Breaks (program : List Stmt) : ScopeProblem → Token → Prop
  /-- The scope has an earlier declaration of the name. -/
  | alreadyDeclared {before after : List Token} {earlier name : Token} :
      Shares program (before ++ name :: after) → earlier ∈ before →
      earlier.lexeme = name.lexeme → Breaks program .alreadyDeclared name
  /-- A variable of an inner scope is read in the initializer of its declaration. -/
  | ownInitializer {path : List Construct} {name word : Token} {initial : Expr} {id : Nat} :
      Stands program path (.varDecl name (some initial)) → path ≠ [] →
      .var id word ∈ initial.parts → word.lexeme = name.lexeme →
      Breaks program .ownInitializer word
  | topLevelReturn {path : List Construct} {keyword : Token} {value : Option Expr} :
      Stands program path (.yield keyword value) → nearestRoutine? path = none →
      Breaks program .topLevelReturn keyword
  | initializerValue {path : List Construct} {keyword : Token} {value : Expr} {f : Function} :
      Stands program path (.yield keyword (some value)) →
      nearestRoutine? path = some (.method f) → f.name.lexeme = Class.initializerName →
      Breaks program .initializerValue keyword
  | thisOutsideClass {path : List Construct} {s : Stmt} {e : Expr} {id : Nat}
      {keyword : Token} :
      Stands program path s → e ∈ s.expressions → .self id keyword ∈ e.parts →
      nearestClass? path = none → Breaks program .thisOutsideClass keyword
  | superOutsideClass {path : List Construct} {s : Stmt} {e : Expr} {id : Nat}
      {keyword method : Token} :
      Stands program path s → e ∈ s.expressions → .super id keyword method ∈ e.parts →
      nearestClass? path = none → Breaks program .superOutsideClass keyword
  | superWithoutSuperclass {path : List Construct} {s : Stmt} {e : Expr} {id : Nat}
      {keyword method : Token} :
      Stands program path s → e ∈ s.expressions → .super id keyword method ∈ e.parts →
      nearestClass? path = some (.cls none) → Breaks program .superWithoutSuperclass keyword
  | ownSuperclass {path : List Construct} {name word : Token} {id : Nat}
      {methods : List Function} :
      Stands program path (.classDecl name (some (.var id word)) methods) →
      word.lexeme = name.lexeme → Breaks program .ownSuperclass word

end Lox
