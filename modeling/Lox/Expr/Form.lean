import Lox.Parse.Basic
import Lox.Token.Scan

/-
  Forms — expressions read from prefix notation

      form → NUMBER | STRING | IDENTIFIER | "true" | "false" | "nil" | "this"
           | "(" list ")"
      list → "group" form | "call" form form* | "super" IDENTIFIER
           | "." form IDENTIFIER | "=" form form | "?" ":" form form form
           | "," form* | ( "and" | "or" ) form form | ( "-" | "!" ) form form?
           | operator form form

  This reads what `Expr.printed` writes. Reading stops at the first error, and
  a source with a lexical error is not read at all. As in the grammar of
  expressions, the number given to a rule bounds nesting and lengths.
-/

namespace Lox.Form

open Parse

/-- Takes the next token, whatever it is. -/
def next : Parser Token := do
  match ← take? fun _ => true with
  | some t => pure t
  | none => fail .endInsideForm

/-- The binary operators that are neither logical nor signs. -/
def isBinaryHead : Kind → Bool
  | .plus | .star | .slash | .equalEqual | .bangEqual | .greater | .greaterEqual | .less
  | .lessEqual => true
  | _ => false

section Rules

variable (nested : Parser Expr)

/-- The remaining forms of a list and its closing parenthesis. -/
def remaining : Nat → Parser (List Expr × Token)
  | 0 => fail .endInsideForm
  | n + 1 => do
    match ← take? (· == .rightParen) with
    | some paren => pure ([], paren)
    | none =>
      let first ← nested
      let (more, paren) ← remaining n
      pure (first :: more, paren)

/-- The closing parenthesis behind a form that is read. -/
def closing (e : Expr) : Parser Expr := do
  let _ ← expect .rightParen .closeForm
  pure e

/-- The target of an assignment and its value. -/
def assignment (equals : Token) : Parser Expr := do
  match ← nested with
  | .var id name => pure (.assign id name (← nested))
  | .get object name => pure (.set object name (← nested))
  | _ => throw ⟨equals, .assignmentTarget⟩

/-- The two sides of a binary operator. -/
def operands (combine : Expr → Expr → Expr) : Parser Expr := do
  let left ← nested
  let right ← nested
  pure (combine left right)

/-- The one or two operands of a sign. -/
def signed (operator : Token) : Parser Expr := do
  let first ← nested
  if ← check (· == .rightParen) then pure (.unary operator first)
  else pure (.binary first operator (← nested))

/-- A list without its opening parenthesis. -/
def list (n : Nat) : Parser Expr := do
  let head ← next
  match head.kind with
  | .identifier =>
    if head.lexeme == "group" then closing (.group (← nested))
    else if head.lexeme == "call" then
      let callee ← nested
      let (arguments, paren) ← remaining nested n
      pure (.call callee paren arguments)
    else throw ⟨head, .formHead⟩
  | .superWord =>
    let method ← expect .identifier .formProperty
    closing (.super (← freshId) head method)
  | .dot =>
    let object ← nested
    let name ← expect .identifier .formProperty
    closing (.get object name)
  | .equal => closing (← assignment nested head)
  | .question =>
    let _ ← expect .colon .formColon
    let condition ← nested
    let thenCase ← nested
    let elseCase ← nested
    closing (.choice condition thenCase elseCase)
  | .comma =>
    let (items, _) ← remaining nested n
    pure (.comma items)
  | .andWord | .orWord => closing (← operands nested (.logical · head ·))
  | .minus | .bang => closing (← signed nested head)
  | kind =>
    if isBinaryHead kind then closing (← operands nested (.binary · head ·))
    else throw ⟨head, .formHead⟩

def formOf (n : Nat) : Parser Expr := do
  let t ← next
  match t.kind with
  | .number value => pure (.number value)
  | .string text => pure (.string text)
  | .trueWord => pure (.boolean true)
  | .falseWord => pure (.boolean false)
  | .nilWord => pure .nil
  | .thisWord => pure (.self (← freshId) t)
  | .identifier => pure (.var (← freshId) t)
  | .leftParen => list nested n
  | _ => throw ⟨t, .expression⟩

end Rules

def form : Nat → Parser Expr
  | 0 => fail .endInsideForm
  | n + 1 => formOf (form n) (n + 1)

/-- A form, and then the end of the tokens. -/
def wholeForm (n : Nat) : Parser Expr := do
  let e ← form n
  if ← atEnd then pure e else fail .endOfInput

/-- Reads an expression in prefix notation, with node ids from `firstId` on.
Also gives the first id that no node has. -/
def read (source : String) (firstId : Nat) : Except Diagnostic (Expr × Nat) :=
  match lexicalErrors source with
  | e :: _ => .error (.lexical e)
  | [] =>
    let tokens := tokens source
    match wholeForm (tokens.length + 1) (.start tokens firstId) with
    | .ok e s => .ok (e, s.nextId)
    | .error e _ => .error (.syntactic e)

end Lox.Form
