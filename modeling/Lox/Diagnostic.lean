import Lox.Token

/-
  Diagnostics — what can be wrong with a program, and how it is reported

  Every fault is a cause of its own; the wording of a cause is a function of
  it. A lexical error knows its line, a syntax or scoping error the token at
  which it was found, a run-time error the line of the operation that failed.
  Faults of the host (output, source bytes) have no line.
-/

namespace Lox

/-- What is wrong with the characters of a source. -/
inductive LexicalProblem where
  | unexpectedCharacter (c : Char)
  | unterminatedString
  | unterminatedComment
  deriving DecidableEq, Repr

def LexicalProblem.message : LexicalProblem → String
  | unexpectedCharacter c => "Unexpected character: " ++ String.singleton c
  | unterminatedString => "Unterminated string."
  | unterminatedComment => "Unterminated comment."

structure LexicalError where
  line : Nat
  problem : LexicalProblem
  deriving DecidableEq, Repr

/-- The two forms of a declaration with parameters and a body. -/
inductive Routine where
  | function
  | method
  deriving DecidableEq, Repr

def Routine.name : Routine → String
  | function => "function"
  | method => "method"

/-- What a token list lacks, or has too much of, to be a program. -/
inductive SyntaxProblem where
  | className
  | superclassName
  | openClassBody
  | closeClassBody
  | routineName (r : Routine)
  | openParameters (r : Routine)
  | parameterName
  | tooManyParameters
  | closeParameters
  | openRoutineBody (r : Routine)
  | variableName
  | endOfVariable
  | openFor
  | endOfForCondition
  | closeForClauses
  | openIf
  | openWhile
  | closeCondition
  | endOfPrint
  | endOfExpression
  | endOfReturn
  | closeBlock
  | assignmentTarget
  | conditionalColon
  | propertyName
  | tooManyArguments
  | closeArguments
  | superDot
  | superMethodName
  | closeGroup
  | expression
  | endOfInput
  | endInsideForm
  | formColon
  | formHead
  | closeForm
  | formProperty
  deriving DecidableEq, Repr

def SyntaxProblem.message : SyntaxProblem → String
  | className => "Expected class name"
  | superclassName => "Expected superclass name"
  | openClassBody => "Expected '\x7b' before class body"
  | closeClassBody => "Expected '\x7d' after class body"
  | routineName r => "Expected " ++ r.name ++ " name"
  | openParameters r => "Expected '(' after " ++ r.name ++ " name"
  | parameterName => "Expected parameter name"
  | tooManyParameters => "Cannot have more than 255 parameters"
  | closeParameters => "Expected ')' after parameters"
  | openRoutineBody r => "Expected '\x7b' before " ++ r.name ++ " body"
  | variableName => "Expected variable name"
  | endOfVariable => "Expected ';' after variable declaration"
  | openFor => "Expected '(' after 'for'"
  | endOfForCondition => "Expected ';' after loop condition"
  | closeForClauses => "Expected ')' after for clauses"
  | openIf => "Expected '(' after 'if'"
  | openWhile => "Expected '(' after 'while'"
  | closeCondition => "Expected ')' after condition"
  | endOfPrint => "Expected ';' after value"
  | endOfExpression => "Expected ';' after expression"
  | endOfReturn => "Expected ';' after return value"
  | closeBlock => "Expected '\x7d' after block"
  | assignmentTarget => "Invalid assignment target"
  | conditionalColon => "Expected ':' after then branch of conditional expression"
  | propertyName => "Expected property name after '.'"
  | tooManyArguments => "Cannot have more than 255 arguments"
  | closeArguments => "Expected ')' after arguments"
  | superDot => "Expected '.' after 'super'"
  | superMethodName => "Expected superclass method name"
  | closeGroup => "Expected ')' after expression"
  | expression => "Expected expression"
  | endOfInput => "Expected end of expression"
  | endInsideForm => "Unexpected end of form"
  | formColon => "Expected ':' after '?'"
  | formHead => "Unknown form"
  | closeForm => "Expected ')' after form"
  | formProperty => "Expected property name"

structure SyntaxError where
  token : Token
  problem : SyntaxProblem
  deriving DecidableEq

/-- The static rules of scoping that a program can break. -/
inductive ScopeProblem where
  | alreadyDeclared
  | ownInitializer
  | topLevelReturn
  | initializerValue
  | ownSuperclass
  | thisOutsideClass
  | superOutsideClass
  | superWithoutSuperclass
  deriving DecidableEq, Repr

def ScopeProblem.message : ScopeProblem → String
  | alreadyDeclared => "Variable already declared in this scope"
  | ownInitializer => "Cannot read local variable in its own initializer"
  | topLevelReturn => "Cannot return from top-level code"
  | initializerValue => "Cannot return a value from an initializer"
  | ownSuperclass => "A class cannot inherit from itself"
  | thisOutsideClass => "Cannot use 'this' outside of a class"
  | superOutsideClass => "Cannot use 'super' outside of a class"
  | superWithoutSuperclass => "Cannot use 'super' in a class with no superclass"

structure ScopeError where
  token : Token
  problem : ScopeProblem
  deriving DecidableEq

/-- What can go wrong while a program runs. -/
inductive RuntimeProblem where
  | operandNotNumber
  | operandsNotNumbers
  | operandsNotAddable
  | divisionByZero
  | undefinedVariable (name : String)
  | notCallable
  | wrongArity (expected got : Nat)
  | stackOverflow
  | noProperties
  | noFields
  | undefinedProperty (name : String)
  | superclassNotClass
  /-- A unary operator that no source text has. -/
  | invalidUnary (operator : String)
  /-- A binary operator that no source text has. -/
  | invalidBinary (operator : String)
  /-- A `super` outside the frames of a method. -/
  | unresolvedSuper
  deriving DecidableEq, Repr

def RuntimeProblem.message : RuntimeProblem → String
  | operandNotNumber => "Operand must be a number."
  | operandsNotNumbers => "Operands must be numbers."
  | operandsNotAddable => "Operands must be two numbers or a string."
  | divisionByZero => "Division by zero."
  | undefinedVariable name => "Undefined variable '" ++ name ++ "'."
  | notCallable => "Can only call functions and classes."
  | wrongArity expected got =>
    "Expected " ++ toString expected ++ " arguments but got " ++ toString got ++ "."
  | stackOverflow => "Stack overflow."
  | noProperties => "Only instances have properties."
  | noFields => "Only instances have fields."
  | undefinedProperty name => "Undefined property '" ++ name ++ "'."
  | superclassNotClass => "Superclass must be a class."
  | invalidUnary operator => "Invalid unary operator '" ++ operator ++ "'."
  | invalidBinary operator => "Invalid binary operator '" ++ operator ++ "'."
  | unresolvedSuper => "Unresolved 'super' expression."

/-- Faults outside the program. -/
inductive HostProblem where
  /-- The sink takes no more output. -/
  | sinkFull
  | flushFailed
  /-- The bytes from `index` begin no character; `length` of them could. -/
  | invalidUtf8 (length index : Nat)
  /-- The bytes end inside the character that begins at `index`. -/
  | truncatedUtf8 (index : Nat)
  deriving DecidableEq, Repr

def HostProblem.message : HostProblem → String
  | sinkFull => "sink full"
  | flushFailed => "flush failed"
  | invalidUtf8 length index =>
    "invalid utf-8 sequence of " ++ toString length ++ " bytes from index " ++ toString index
  | truncatedUtf8 index => "incomplete utf-8 byte sequence from index " ++ toString index

/-- Why a run stopped. -/
inductive RuntimeError where
  | program (line : Nat) (problem : RuntimeProblem)
  | host (problem : HostProblem)
  deriving DecidableEq, Repr

/-- A fault of any kind. -/
inductive Diagnostic where
  | lexical (e : LexicalError)
  | syntactic (e : SyntaxError)
  | scoping (e : ScopeError)
  | runtime (e : RuntimeError)
  deriving DecidableEq

/-- The place of a token in a report. -/
def Token.place (t : Token) : String :=
  if t.isEof then "at end" else "at '" ++ t.lexeme ++ "'"

namespace Diagnostic

/-- The line of a fault, if it has one. -/
def line? : Diagnostic → Option Nat
  | lexical e => some e.line
  | syntactic e => some e.token.line
  | scoping e => some e.token.line
  | runtime (.program line _) => some line
  | runtime (.host _) => none

/-- The bare wording of a fault. -/
def message : Diagnostic → String
  | lexical e => e.problem.message
  | syntactic e => e.problem.message
  | scoping e => e.problem.message
  | runtime (.program _ problem) => problem.message
  | runtime (.host problem) => problem.message

/-- The line in front of a report. -/
def linePart (line : Nat) : String := "[line " ++ toString line ++ "]"

/-- The full report of a fault. -/
def report : Diagnostic → String
  | lexical e => linePart e.line ++ " Error: " ++ e.problem.message
  | syntactic e =>
    linePart e.token.line ++ " Error " ++ e.token.place ++ ": " ++ e.problem.message
  | scoping e =>
    linePart e.token.line ++ " Error " ++ e.token.place ++ ": " ++ e.problem.message
  | runtime (.program line problem) => problem.message ++ "\n" ++ linePart line
  | runtime (.host problem) => problem.message

end Diagnostic
end Lox
