import Lox.Expr

/-
  Printed forms — expressions in prefix notation

  An expression is written as an atom or as a list in parentheses whose head
  names the operation: `1 + 2 * 3` is written `(+ 1.0 (* 2.0 3.0))`. Tokens
  appear by their spelling; ids and lines do not appear.
-/

namespace Lox.Expr

/-- Printed forms end whole numbers with a zero fraction. -/
def numberFormat : Number.Plain := ⟨none, ['.', '0']⟩

/-- The characters of a token. -/
def spelling (t : Token) : List Char := t.lexeme.toList

/-- A list in parentheses, from its head and the characters behind the head. -/
def parens (head : String) (rest : List Char) : List Char :=
  '(' :: (head.toList ++ rest ++ [')'])

mutual

/-- The characters of an expression's printed form. -/
def chars : Expr → List Char
  | number value => numberFormat.chars value
  | string text => '"' :: (text.toList ++ ['"'])
  | boolean value => (toString value).toList
  | nil => "nil".toList
  | group inner => parens "group" (' ' :: inner.chars)
  | unary operator operand => parens operator.lexeme (' ' :: operand.chars)
  | binary left operator right =>
    parens operator.lexeme (' ' :: left.chars ++ ' ' :: right.chars)
  | logical left operator right =>
    parens operator.lexeme (' ' :: left.chars ++ ' ' :: right.chars)
  | choice condition thenCase elseCase =>
    parens "?:" (' ' :: condition.chars ++ ' ' :: thenCase.chars ++ ' ' :: elseCase.chars)
  | comma items => parens "," (tailChars items)
  | var _ name => spelling name
  | assign _ name value => parens "=" (' ' :: spelling name ++ ' ' :: value.chars)
  | call callee _ arguments => parens "call" (' ' :: callee.chars ++ tailChars arguments)
  | get object name => parens "." (' ' :: object.chars ++ ' ' :: spelling name)
  | set object name value =>
    parens "="
      (' ' :: parens "." (' ' :: object.chars ++ ' ' :: spelling name) ++ ' ' :: value.chars)
  | self _ _ => "this".toList
  | super _ _ method => parens "super" (' ' :: spelling method)

/-- The characters of expressions behind a head, each after a blank. -/
def tailChars : List Expr → List Char
  | [] => []
  | e :: es => ' ' :: e.chars ++ tailChars es

end

/-- The printed form of an expression. -/
def printed (e : Expr) : String := .ofList e.chars

end Lox.Expr
