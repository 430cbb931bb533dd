import Lox.Diagnostic
import Lox.Value

/-
  Operators — what `-`, `!` and the binary operators make of values

  Which operation an operator stands for is decided by the kind of its token.
-/

namespace Lox.Value

/-- A unary operator applied to a value. -/
def unary (operator : Token) (v : Value) : Except RuntimeProblem Value :=
  match operator.kind with
  | .minus =>
    match v with
    | number x => .ok (number (-x))
    | _ => .error .operandNotNumber
  | .bang => .ok (boolean (!v.truthy))
  | _ => .error (.invalidUnary operator.lexeme)

/-- Two numbers are added; a string and any other value, on either side, are
joined as texts. -/
def add : Value → Value → Except RuntimeProblem Value
  | number a, number b => .ok (number (a + b))
  | string a, b => .ok (string (a ++ b.display))
  | a, string b => .ok (string (a.display ++ b))
  | _, _ => .error .operandsNotAddable

/-- An operation on two numbers. -/
def onNumbers (f : Float → Float → Except RuntimeProblem Value) :
    Value → Value → Except RuntimeProblem Value
  | number a, number b => f a b
  | _, _ => .error .operandsNotNumbers

/-- A quotient; a zero divisor and an infinite quotient are errors. -/
def divide (a b : Float) : Except RuntimeProblem Value :=
  let quotient := a / b
  if b == 0 || quotient.isInf then .error .divisionByZero else .ok (number quotient)

/-- A binary operator applied to two values. -/
def binary (operator : Token) (a b : Value) : Except RuntimeProblem Value :=
  match operator.kind with
  | .plus => add a b
  | .minus => onNumbers (fun a b => .ok (number (a - b))) a b
  | .star => onNumbers (fun a b => .ok (number (a * b))) a b
  | .slash => onNumbers divide a b
  | .greater => onNumbers (fun a b => .ok (boolean (b < a))) a b
  | .greaterEqual => onNumbers (fun a b => .ok (boolean (b ≤ a))) a b
  | .less => onNumbers (fun a b => .ok (boolean (a < b))) a b
  | .lessEqual => onNumbers (fun a b => .ok (boolean (a ≤ b))) a b
  | .equalEqual => .ok (boolean (a.equals b))
  | .bangEqual => .ok (boolean (!a.equals b))
  | _ => .error (.invalidBinary operator.lexeme)

end Lox.Value
