import Lox.Parse.Basic

/-
  Expression grammar

      expression → assignment ( "," assignment )*
      assignment → choice ( "=" assignment )?
      choice     → or ( "?" expression ":" choice )?
      or         → and ( "or" and )*
      and        → equality ( "and" equality )*
      equality   → comparison ( ( "!=" | "==" ) comparison )*
      comparison → term ( ( ">" | ">=" | "<" | "<=" ) term )*
      term       → factor ( ( "-" | "+" ) factor )*
      factor     → unary ( ( "/" | "*" ) unary )*
      unary      → ( "!" | "-" ) unary | call
      call       → primary ( "(" arguments? ")" | "." IDENTIFIER )*
      arguments  → assignment ( "," assignment )*
      primary    → "true" | "false" | "nil" | NUMBER | STRING | IDENTIFIER
                 | "this" | "super" "." IDENTIFIER | "(" expression ")"

  An assignment needs a variable or a property on its left; any other left side
  is recorded as an error and stands for the whole assignment.

  `assignment n` reads assignments nested less than `n` deep. Each level of
  nesting and each step of a chain takes a token, so a number above that of the
  tokens never stops a rule. The rules below `assignment` take the assignment
  rule of the next level as `nested`.
-/

namespace Lox.Parse

/-- The longest parameter or argument list. -/
def maxArity : Nat := 255

/-- Records an error at the next token if that token would be one entry too many. -/
def limit (count : Nat) (problem : SyntaxProblem) : Parser Unit := do
  if maxArity ≤ count then record ⟨← peek, problem⟩ else pure ()

/-- Chains of operands are grouped to the left. -/
def leftChain (operand : Parser Expr) (isOperator : Kind → Bool)
    (combine : Expr → Token → Expr → Expr) : Nat → Expr → Parser Expr
  | 0, left => pure left
  | n + 1, left => do
    match ← take? isOperator with
    | none => pure left
    | some operator =>
      let right ← operand
      leftChain operand isOperator combine n (combine left operator right)

/-- One level of left-associative operators over the next higher one. -/
def leftLevel (n : Nat) (operand : Parser Expr) (isOperator : Kind → Bool)
    (combine : Expr → Token → Expr → Expr) : Parser Expr := do
  let first ← operand
  leftChain operand isOperator combine n first

section Rules

variable (nested : Parser Expr)

/-- Further items of a comma expression. -/
def moreItems : Nat → Parser (List Expr)
  | 0 => pure []
  | n + 1 => do
    if ← accept .comma then
      let item ← nested
      let items ← moreItems n
      pure (item :: items)
    else pure []

/-- Items separated by commas; a single item is just itself. -/
def expressionOf (n : Nat) : Parser Expr := do
  let first ← nested
  match ← moreItems nested n with
  | [] => pure first
  | items => pure (.comma (first :: items))

/-- The arguments of a call, `count` of which are already read. Each one past
the longest list is recorded as an error. -/
def arguments (count : Nat) : Nat → Parser (List Expr)
  | 0 => pure []
  | n + 1 => do
    limit count .tooManyArguments
    let argument ← nested
    if ← accept .comma then
      let more ← arguments (count + 1) n
      pure (argument :: more)
    else pure [argument]

/-- A call of `callee`, whose opening parenthesis is read. -/
def finishCall (n : Nat) (callee : Expr) : Parser Expr := do
  let arguments ← unlessNext .rightParen [] (arguments nested 0 n)
  let paren ← expect .rightParen .closeArguments
  pure (.call callee paren arguments)

/-- The calls and property accesses that follow an expression. -/
def suffixes (n : Nat) : Nat → Expr → Parser Expr
  | 0, e => pure e
  | k + 1, e => do
    if ← accept .leftParen then
      let e ← finishCall nested n e
      suffixes n k e
    else if ← accept .dot then
      let name ← expect .identifier .propertyName
      suffixes n k (.get e name)
    else pure e

/-- The kinds a primary expression begins with. -/
def startsPrimary : Kind → Bool
  | .falseWord | .trueWord | .nilWord | .number _ | .string _ | .superWord | .thisWord
  | .identifier | .leftParen => true
  | _ => false

/-- The primary expression that begins with a token already read. -/
def primaryFrom (n : Nat) (t : Token) : Parser Expr :=
  match t.kind with
  | .falseWord => pure (.boolean false)
  | .trueWord => pure (.boolean true)
  | .nilWord => pure .nil
  | .number value => pure (.number value)
  | .string text => pure (.string text)
  | .superWord => do
    let _ ← expect .dot .superDot
    let method ← expect .identifier .superMethodName
    pure (.super (← freshId) t method)
  | .thisWord => do pure (.self (← freshId) t)
  | .identifier => do pure (.var (← freshId) t)
  | .leftParen => do
    let inner ← expressionOf nested n
    let _ ← expect .rightParen .closeGroup
    pure (.group inner)
  | _ => fail .expression

def primary (n : Nat) : Parser Expr := do
  match ← take? startsPrimary with
  | some t => primaryFrom nested n t
  | none => fail .expression

def call (n : Nat) : Parser Expr := do
  let e ← primary nested n
  suffixes nested n n e

/-- The operators in front of an operand. -/
def isUnaryOperator : Kind → Bool
  | .bang | .minus => true
  | _ => false

def unary (n : Nat) : Nat → Parser Expr
  | 0 => fail .expression
  | k + 1 => do
    match ← take? isUnaryOperator with
    | some operator =>
      let operand ← unary n k
      pure (.unary operator operand)
    | none => call nested n

def isFactorOperator : Kind → Bool
  | .slash | .star => true
  | _ => false

def isTermOperator : Kind → Bool
  | .minus | .plus => true
  | _ => false

def isComparison : Kind → Bool
  | .greater | .greaterEqual | .less | .lessEqual => true
  | _ => false

def isEquality : Kind → Bool
  | .bangEqual | .equalEqual => true
  | _ => false

def factor (n : Nat) : Parser Expr := leftLevel n (unary nested n n) isFactorOperator .binary

def term (n : Nat) : Parser Expr := leftLevel n (factor nested n) isTermOperator .binary

def comparison (n : Nat) : Parser Expr := leftLevel n (term nested n) isComparison .binary

def equality (n : Nat) : Parser Expr := leftLevel n (comparison nested n) isEquality .binary

def conjunction (n : Nat) : Parser Expr :=
  leftLevel n (equality nested n) (· == .andWord) .logical

def disjunction (n : Nat) : Parser Expr :=
  leftLevel n (conjunction nested n) (· == .orWord) .logical

def choice (n : Nat) : Nat → Parser Expr
  | 0 => fail .expression
  | k + 1 => do
    let condition ← disjunction nested n
    if ← accept .question then
      let thenCase ← expressionOf nested n
      let _ ← expect .colon .conditionalColon
      let elseCase ← choice n k
      pure (.choice condition thenCase elseCase)
    else pure condition

/-- An assignment to `target`, whose equals sign is read. -/
def assignTo (target : Expr) (equals : Token) : Parser Expr := do
  let value ← nested
  match target with
  | .var id name => pure (.assign id name value)
  | .get object name => pure (.set object name value)
  | other => do
    -- the rest of the source can still be parsed, so the rule goes on
    record ⟨equals, .assignmentTarget⟩
    pure other

def assignmentOf (n : Nat) : Parser Expr := do
  let target ← choice nested n n
  match ← take? (· == .equal) with
  | some equals => assignTo nested target equals
  | none => pure target

end Rules

def assignment : Nat → Parser Expr
  | 0 => fail .expression
  | n + 1 => assignmentOf (assignment n) (n + 1)

def expression (n : Nat) : Parser Expr := expressionOf (assignment n) n

end Lox.Parse
