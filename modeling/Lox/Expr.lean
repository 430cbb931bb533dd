import Lox.Token

/-
  Expressions — the trees that are evaluated

  Every node whose meaning depends on the scopes around it (variables,
  assignments, `this` and `super`) carries an id of its own, under which its
  scope distance is recorded. Operators keep their token, for its line and for
  its spelling in reports.
-/

namespace Lox

inductive Expr where
  | number (value : Float)
  | string (text : String)
  | boolean (value : Bool)
  | nil
  /-- An expression in parentheses. -/
  | group (inner : Expr)
  | unary (operator : Token) (operand : Expr)
  | binary (left : Expr) (operator : Token) (right : Expr)
  /-- A conjunction or disjunction, which may leave its right side out. -/
  | logical (left : Expr) (operator : Token) (right : Expr)
  /-- A choice between two expressions. -/
  | choice (condition thenCase elseCase : Expr)
  /-- Expressions evaluated in turn for the value of the last. -/
  | comma (items : List Expr)
  | var (id : Nat) (name : Token)
  | assign (id : Nat) (name : Token) (value : Expr)
  /-- A call, with its closing parenthesis. -/
  | call (callee : Expr) (paren : Token) (arguments : List Expr)
  | get (object : Expr) (name : Token)
  | set (object : Expr) (name : Token) (value : Expr)
  | self (id : Nat) (keyword : Token)
  /-- A method of the superclass. -/
  | super (id : Nat) (keyword method : Token)

namespace Expr

mutual

/-- The line an expression is reported at: that of the token that names the
operation, if there is one. -/
def line? : Expr → Option Nat
  | number _ | string _ | boolean _ | nil => none
  | group inner => inner.line?
  | unary operator _ => some operator.line
  | binary _ operator _ => some operator.line
  | logical _ operator _ => some operator.line
  | choice condition _ _ => condition.line?
  | comma items => firstLine? items
  | var _ name => some name.line
  | assign _ name _ => some name.line
  | call _ paren _ => some paren.line
  | get _ name => some name.line
  | set _ name _ => some name.line
  | self _ keyword => some keyword.line
  | super _ keyword _ => some keyword.line

/-- The first line that one of the expressions has. -/
def firstLine? : List Expr → Option Nat
  | [] => none
  | e :: es => e.line? <|> firstLine? es

end

end Expr
end Lox
