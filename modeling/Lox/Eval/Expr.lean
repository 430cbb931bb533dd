import Lox.Eval.Call
import Lox.Value.Operators

/-
  Evaluation of expressions

  Operands are evaluated from left to right, each before the next. What runs
  the bodies of called functions is a parameter, so evaluation is a recursion
  on the tree.
-/

namespace Lox

/-- Whether the left side alone decides a logical expression. -/
def decidesLogical (operator : Token) (left : Value) : Bool :=
  if operator.kind = .orWord then left.truthy else !left.truthy

variable (body : List Stmt → Eval Flow)

mutual

def Expr.eval : Expr → Eval Value
  | .number value => pure (.number value)
  | .string text => pure (.string text)
  | .boolean value => pure (.boolean value)
  | .nil => pure .nil
  | .group inner => inner.eval
  | .unary operator operand => do
    let value ← operand.eval
    Eval.ofExcept operator.line (value.unary operator)
  | .binary left operator right => do
    let a ← left.eval
    let b ← right.eval
    Eval.ofExcept operator.line (a.binary operator b)
  | .logical left operator right => do
    let value ← left.eval
    if decidesLogical operator value then pure value else right.eval
  | .choice condition thenCase elseCase => do
    if (← condition.eval).truthy then thenCase.eval else elseCase.eval
  | .comma items => Expr.evalLast .nil items
  | .var id name => Eval.readVariable id name
  | .assign id name value => do
    let v ← value.eval
    Eval.writeVariable id name v
    pure v
  | .call callee paren arguments => do
    let f ← callee.eval
    let values ← Expr.evalAll arguments
    Eval.call body paren f values
  | .get object name => do
    let o ← object.eval
    Eval.getProperty o name
  | .set object name value => do
    match ← object.eval with
    | .object id _ =>
      let v ← value.eval
      Eval.setField id name.lexeme v
      pure v
    | _ => Eval.fail name.line .noFields
  | .self id keyword => Eval.readVariable id keyword
  | .super id keyword method => Eval.superMethod id keyword method

/-- Evaluates expressions in turn; the value is that of the last, or the given
one if there is none. -/
def Expr.evalLast (last : Value) : List Expr → Eval Value
  | [] => pure last
  | e :: es => do
    let v ← e.eval
    Expr.evalLast v es

/-- Evaluates expressions in turn. -/
def Expr.evalAll : List Expr → Eval (List Value)
  | [] => pure []
  | e :: es => do
    let v ← e.eval
    let vs ← Expr.evalAll es
    pure (v :: vs)

end

end Lox
