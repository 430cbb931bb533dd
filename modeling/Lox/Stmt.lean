import Lox.Expr

/-
  Statements — the trees that are executed

  There is no statement for counting loops: they are blocks around a `loop`.
-/

namespace Lox

mutual

inductive Stmt where
  | expression (e : Expr)
  | print (e : Expr)
  | varDecl (name : Token) (initial : Option Expr)
  | block (body : List Stmt)
  | branch (condition : Expr) (thenCase : Stmt) (elseCase : Option Stmt)
  | loop (condition : Expr) (body : Stmt)
  | function (declaration : Function)
  /-- A return from a function, with the keyword it stands at. -/
  | yield (keyword : Token) (value : Option Expr)
  | classDecl (name : Token) (superclass : Option Expr) (methods : List Function)

/-- A declaration of a function or method. -/
inductive Function where
  | mk (name : Token) (parameters : List Token) (body : List Stmt)

end

namespace Function

def name : Function → Token
  | mk name _ _ => name

def parameters : Function → List Token
  | mk _ parameters _ => parameters

def body : Function → List Stmt
  | mk _ _ body => body

/-- How many arguments a call takes. -/
def arity (f : Function) : Nat := f.parameters.length

end Function
end Lox
