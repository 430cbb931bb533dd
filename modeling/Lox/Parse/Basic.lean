import Lox.Diagnostic
import Lox.Stmt

/-
  Parsing — what every grammar rule is built from

  A rule takes tokens off the front of the list, hands out node ids, and may
  record errors and go on. An error that ends a rule is thrown; tokens, ids and
  recorded errors stay as they are then.
-/

namespace Lox

/-- What is left to parse. -/
structure ParseState where
  /-- The tokens up to the end marker. -/
  rest : List Token
  /-- The end marker. -/
  eof : Token
  /-- The errors found so far, in order. -/
  errors : List SyntaxError
  /-- The id for the next node that gets one. -/
  nextId : Nat

/-- A rule of the grammar. -/
abbrev Parser := EStateM SyntaxError ParseState

/-- The state before the first token. What follows the first end marker is not
read, and a list without one ends on line 0. -/
def ParseState.start (tokens : List Token) (firstId : Nat) : ParseState where
  rest := tokens.takeWhile (!·.isEof)
  eof := (tokens.find? Token.isEof).getD Token.missingEof
  errors := []
  nextId := firstId

namespace Parse

/-- The token that comes next, at the end the end marker. -/
def peek : Parser Token := fun s => .ok (s.rest.headD s.eof) s

/-- Whether all tokens are read. -/
def atEnd : Parser Bool := fun s => .ok s.rest.isEmpty s

/-- Ends a rule with an error at the next token. -/
def fail {α : Type} (problem : SyntaxProblem) : Parser α :=
  fun s => .error ⟨s.rest.headD s.eof, problem⟩ s

/-- Records an error and goes on. -/
def record (e : SyntaxError) : Parser Unit :=
  fun s => .ok () { s with errors := s.errors ++ [e] }

/-- A node id that no other node has. -/
def freshId : Parser Nat := fun s => .ok s.nextId { s with nextId := s.nextId + 1 }

/-- Whether the next token has a kind of the given class. -/
def check (p : Kind → Bool) : Parser Bool := fun s =>
  match s.rest with
  | t :: _ => .ok (p t.kind) s
  | [] => .ok false s

/-- Takes the next token if its kind is of the given class. -/
def take? (p : Kind → Bool) : Parser (Option Token) := fun s =>
  match s.rest with
  | t :: ts => if p t.kind then .ok (some t) { s with rest := ts } else .ok none s
  | [] => .ok none s

/-- Takes the next token if it is of the given kind. -/
def accept (k : Kind) : Parser Bool := fun s =>
  match s.rest with
  | t :: ts => if t.kind = k then .ok true { s with rest := ts } else .ok false s
  | [] => .ok false s

/-- Takes the next token, which has to be of the given kind. -/
def expect (k : Kind) (problem : SyntaxProblem) : Parser Token := fun s =>
  match s.rest with
  | t :: ts =>
    if t.kind = k then .ok t { s with rest := ts } else .error ⟨t, problem⟩ s
  | [] => .error ⟨s.eof, problem⟩ s

/-- Runs a rule behind a token of the given kind; without that token the result
is the given one. -/
def afterNext {α : Type} (k : Kind) (absent : α) (rule : Parser α) : Parser α := do
  if ← accept k then rule else pure absent

/-- Runs a rule unless the next token is of the given kind; then the result is
the given one. -/
def unlessNext {α : Type} (k : Kind) (absent : α) (rule : Parser α) : Parser α := do
  if ← check (· == k) then pure absent else rule

end Parse
end Lox
