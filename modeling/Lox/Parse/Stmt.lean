import Lox.Parse.Expr

/-
  Statement grammar

      program     → declaration* EOF
      declaration → class | "fun" function | variable | statement
      class       → "class" IDENTIFIER ( "<" IDENTIFIER )? "{" function* "}"
      function    → IDENTIFIER "(" parameters? ")" block
      parameters  → IDENTIFIER ( "," IDENTIFIER )*
      variable    → "var" IDENTIFIER ( "=" expression )? ";"
      statement   → for | "if" "(" expression ")" statement ( "else" statement )?
                  | "while" "(" expression ")" statement | "return" expression? ";"
                  | block | "print" expression ";" | expression ";"
      for         → "for" "(" ( variable | expression ";" | ";" )
                    expression? ";" expression? ")" statement
      block       → "{" declaration* "}"

  A declaration with a syntax error is left out: the error is recorded, and
  parsing goes on behind the next semicolon or before the next keyword that
  begins a declaration or statement.

  As for expressions, the number bounds the nesting and the length of lists,
  and one above the number of tokens never stops a rule.
-/

namespace Lox.Parse

/-- Keywords that begin a declaration or a statement. -/
def startsStatement : Kind → Bool
  | .classWord | .funWord | .varWord | .forWord | .ifWord | .whileWord | .printWord
  | .returnWord => true
  | _ => false

/-- What is left behind the token `previous` once tokens are dropped up to a
place where a statement may begin. -/
def skipToStatement (previous : Token) : List Token → List Token
  | [] => []
  | t :: ts =>
    if previous.kind = .semicolon then t :: ts
    else if startsStatement t.kind then t :: ts
    else skipToStatement t ts

/-- Drops the next token, and those behind it up to a place where a statement
may begin. -/
def resynchronize : Parser Unit := fun s =>
  match s.rest with
  | [] => .ok () s
  | t :: ts => .ok () { s with rest := skipToStatement t ts }

/-- Runs a rule; if it ends with an error, the error is recorded and parsing
goes on at the next place where a statement may begin. -/
def recover (rule : Parser Stmt) : Parser (Option Stmt) :=
  try
    let s ← rule
    pure (some s)
  catch e =>
    record e
    resynchronize
    pure none

/-- The parameters of a function, `count` of which are already read. -/
def parameters (count : Nat) : Nat → Parser (List Token)
  | 0 => pure []
  | n + 1 => do
    limit count .tooManyParameters
    let parameter ← expect .identifier .parameterName
    if ← accept .comma then
      let more ← parameters (count + 1) n
      pure (parameter :: more)
    else pure [parameter]

/-- A variable declaration, whose keyword is read. -/
def variableRest (n : Nat) : Parser Stmt := do
  let name ← expect .identifier .variableName
  let initial ← afterNext .equal none (some <$> expression n)
  let _ ← expect .semicolon .endOfVariable
  pure (.varDecl name initial)

def expressionStatement (n : Nat) : Parser Stmt := do
  let e ← expression n
  let _ ← expect .semicolon .endOfExpression
  pure (.expression e)

def printRest (n : Nat) : Parser Stmt := do
  let e ← expression n
  let _ ← expect .semicolon .endOfPrint
  pure (.print e)

def returnRest (n : Nat) (keyword : Token) : Parser Stmt := do
  let value ← unlessNext .semicolon none (some <$> expression n)
  let _ ← expect .semicolon .endOfReturn
  pure (.yield keyword value)

/-- A counting loop as a block around a `loop`: the initializer comes first,
the increment follows the body, and a condition left out is true. -/
def countingLoop (initial : Option Stmt) (condition increment : Option Expr) (body : Stmt) :
    Stmt :=
  let body := match increment with
    | some increment => .block [body, .expression increment]
    | none => body
  let loop := .loop (condition.getD (.boolean true)) body
  match initial with
  | some initial => .block [initial, loop]
  | none => loop

section Rules

variable (nestedStatement : Parser Stmt) (nestedDeclaration : Parser (Option Stmt))

/-- Declarations up to the end of a block or of the tokens. -/
def declarations : Nat → Parser (List Stmt)
  | 0 => pure []
  | n + 1 => do
    if (← check (· == .rightBrace)) || (← atEnd) then pure []
    else
      let first ← nestedDeclaration
      let more ← declarations n
      pure (first.toList ++ more)

/-- A block, whose opening brace is read. -/
def blockRest (n : Nat) : Parser (List Stmt) := do
  let body ← declarations nestedDeclaration n
  let _ ← expect .rightBrace .closeBlock
  pure body

def functionOf (n : Nat) (r : Routine) : Parser Function := do
  let name ← expect .identifier (.routineName r)
  let _ ← expect .leftParen (.openParameters r)
  let parameters ← unlessNext .rightParen [] (parameters 0 n)
  let _ ← expect .rightParen .closeParameters
  let _ ← expect .leftBrace (.openRoutineBody r)
  let body ← blockRest nestedDeclaration n
  pure ⟨name, parameters, body⟩

/-- Methods up to the end of a class or of the tokens. -/
def methods (n : Nat) : Nat → Parser (List Function)
  | 0 => pure []
  | k + 1 => do
    if (← check (· == .rightBrace)) || (← atEnd) then pure []
    else
      let first ← functionOf nestedDeclaration n .method
      let more ← methods n k
      pure (first :: more)

/-- The superclass of a class. -/
def superclass : Parser Expr := do
  let name ← expect .identifier .superclassName
  pure (.var (← freshId) name)

/-- A class declaration, whose keyword is read. -/
def classRest (n : Nat) : Parser Stmt := do
  let name ← expect .identifier .className
  let superclass ← afterNext .less none (some <$> superclass)
  let _ ← expect .leftBrace .openClassBody
  let methods ← methods nestedDeclaration n n
  let _ ← expect .rightBrace .closeClassBody
  pure (.classDecl name superclass methods)

/-- The first clause of a counting loop. -/
def forInitial (n : Nat) : Parser (Option Stmt) := do
  if ← accept .semicolon then pure none
  else some <$> if ← accept .varWord then variableRest n else expressionStatement n

def forRest (n : Nat) : Parser Stmt := do
  let _ ← expect .leftParen .openFor
  let initial ← forInitial n
  let condition ← unlessNext .semicolon none (some <$> expression n)
  let _ ← expect .semicolon .endOfForCondition
  let increment ← unlessNext .rightParen none (some <$> expression n)
  let _ ← expect .rightParen .closeForClauses
  let body ← nestedStatement
  pure (countingLoop initial condition increment body)

def ifRest (n : Nat) : Parser Stmt := do
  let _ ← expect .leftParen .openIf
  let condition ← expression n
  let _ ← expect .rightParen .closeCondition
  let thenCase ← nestedStatement
  let elseCase ← afterNext .elseWord none (some <$> nestedStatement)
  pure (.branch condition thenCase elseCase)

def whileRest (n : Nat) : Parser Stmt := do
  let _ ← expect .leftParen .openWhile
  let condition ← expression n
  let _ ← expect .rightParen .closeCondition
  let body ← nestedStatement
  pure (.loop condition body)

/-- The kinds that begin a statement other than an expression. -/
def startsKeywordStatement : Kind → Bool
  | .forWord | .ifWord | .whileWord | .returnWord | .leftBrace | .printWord => true
  | _ => false

def statementOf (n : Nat) : Parser Stmt := do
  match ← take? startsKeywordStatement with
  | none => expressionStatement n
  | some t =>
    match t.kind with
    | .forWord => forRest nestedStatement n
    | .ifWord => ifRest nestedStatement n
    | .whileWord => whileRest nestedStatement n
    | .returnWord => returnRest n t
    | .leftBrace => .block <$> blockRest nestedDeclaration n
    | _ => printRest n

/-- The kinds that begin a declaration other than a statement. -/
def startsDeclaration : Kind → Bool
  | .classWord | .funWord | .varWord => true
  | _ => false

def declarationOf (n : Nat) : Parser (Option Stmt) := recover do
  match ← take? startsDeclaration with
  | none => statementOf nestedStatement nestedDeclaration n
  | some t =>
    match t.kind with
    | .classWord => classRest nestedDeclaration n
    | .funWord => .function <$> functionOf nestedDeclaration n .function
    | _ => variableRest n

end Rules

mutual

def statement : Nat → Parser Stmt
  | 0 => fail .expression
  | n + 1 => statementOf (statement n) (declaration n) (n + 1)

/-- A declaration, or none if it has a syntax error. -/
def declaration : Nat → Parser (Option Stmt)
  | 0 => pure none
  | n + 1 => declarationOf (statement n) (declaration n) (n + 1)

end

/-- Declarations up to the end of the tokens. -/
def program (n : Nat) : Nat → Parser (List Stmt)
  | 0 => pure []
  | k + 1 => do
    if ← atEnd then pure []
    else
      let first ← declaration n
      let more ← program n k
      pure (first.toList ++ more)

/-- Records an error unless all tokens are read. -/
def endOfInput : Parser Unit := do
  if ← atEnd then pure () else record ⟨← peek, .endOfInput⟩

/-- An expression, and then the end of the tokens. -/
def wholeExpression (n : Nat) : Parser Expr := do
  let e ← expression n
  endOfInput
  pure e

/-- What comes out of parsing a token list. -/
structure Outcome (α : Type) where
  /-- The tree, or the errors in the order in which they were found. -/
  result : Except (List SyntaxError) α
  /-- The first id that no node has. -/
  nextId : Nat

/-- Runs a rule on a token list, with node ids from `firstId` on. Any error,
recorded or thrown, makes the whole list fail. -/
def runRule {α : Type} (rule : Nat → Parser α) (tokens : List Token) (firstId : Nat) :
    Outcome α :=
  match rule (tokens.length + 1) (ParseState.start tokens firstId) with
  | .ok a s => ⟨if s.errors.isEmpty then .ok a else .error s.errors, s.nextId⟩
  | .error e s => ⟨.error (s.errors ++ [e]), s.nextId⟩

/-- Parses a program. -/
def parseProgram (tokens : List Token) (firstId : Nat) : Outcome (List Stmt) :=
  runRule (fun n => program n n) tokens firstId

/-- Parses a single expression. -/
def parseExpression (tokens : List Token) (firstId : Nat) : Outcome Expr :=
  runRule wholeExpression tokens firstId

end Lox.Parse
