import Lox.Eval.Stmt
import Lox.Expr.Form
import Lox.Parse.Stmt
import Lox.Resolve

/-
  Sessions — running one source after another

  A session keeps the machine and the counter of node ids from one source to
  the next, so that functions and classes made earlier go on working. A source
  is scanned, parsed, resolved and only then run; the first of these that fails
  ends the step, and what it had changed stays changed.
-/

namespace Lox

/-- Why a source was not run to its end. -/
inductive RunError where
  /-- The lexical and syntax errors, by line. -/
  | malformed (errors : List Diagnostic)
  /-- The scoping errors, in order. -/
  | misscoped (errors : List ScopeError)
  /-- The error that ended the run. -/
  | failed (e : RuntimeError)

namespace RunError

/-- All faults of a failure. -/
def diagnostics : RunError → List Diagnostic
  | malformed errors => errors
  | misscoped errors => errors.map .scoping
  | failed e => [.runtime e]

/-- The reports of a failure, one below the other. -/
def report (e : RunError) : String := "\n".intercalate (e.diagnostics.map Diagnostic.report)

/-- The exit code of a command that fails like this. -/
def exitCode : RunError → Nat
  | malformed _ => 65
  | misscoped _ => 66
  | failed _ => 70

end RunError

structure Session where
  machine : Machine
  /-- The id for the next node that gets one. -/
  nextId : Nat

/-- A step of a session. -/
abbrev Step := EStateM (Halt RunError) Session

namespace Session

/-- A session in which nothing has been run. -/
def start (sink : Sink) (clock : Clock) : Session := ⟨.start sink clock, 0⟩

/-- What was printed since this was last asked. -/
def takePrinted : Step String := fun s =>
  let sink := s.machine.sink
  .ok sink.written { s with machine := { s.machine with sink := { sink with written := "" } } }

/-- Lexical and syntax errors by line; on one line the lexical ones come first,
and else each kind is in the order found. -/
def sortedByLine (lexical : List LexicalError) (syntactic : List SyntaxError) :
    List Diagnostic :=
  (lexical.map Diagnostic.lexical ++ syntactic.map Diagnostic.syntactic).mergeSort
    fun a b => a.line?.getD 0 ≤ b.line?.getD 0

/-- Scans a source and parses its tokens. Node ids go on from earlier sources,
and those given out are used up even if the source has errors. -/
def parse {α : Type} (rule : List Token → Nat → Parse.Outcome α) (source : String) : Step α :=
  fun s =>
    let lexical := lexicalErrors source
    let outcome := rule (tokens source) s.nextId
    -- used up in any case, so that no id is given out twice
    let s := { s with nextId := outcome.nextId }
    match outcome.result with
    | .ok tree =>
      if lexical.isEmpty then .ok tree s
      else .error (.error (.malformed (sortedByLine lexical []))) s
    | .error errors => .error (.error (.malformed (sortedByLine lexical errors))) s

def parseProgram (source : String) : Step (List Stmt) := parse Parse.parseProgram source

def parseExpression (source : String) : Step Expr := parse Parse.parseExpression source

/-- Reads an expression in prefix notation. A source that cannot be read uses
up no ids. -/
def readExpression (source : String) : Step Expr := fun s =>
  match Form.read source s.nextId with
  | .ok (e, nextId) => .ok e { s with nextId }
  | .error d => .error (.error (.malformed [d])) s

/-- Records the distances of a tree that keeps the static rules. -/
def record (resolved : Except (List ScopeError) Distances) : Step Unit := fun s =>
  match resolved with
  | .ok distances => .ok () { s with machine := s.machine.record distances }
  | .error errors => .error (.error (.misscoped errors)) s

/-- Runs an evaluation on the machine of a session. -/
def onMachine {α : Type} (step : Eval α) : Step α := fun s =>
  match step s.machine with
  | .ok a machine => .ok a { s with machine }
  | .error (.error e) machine => .error (.error (.failed e)) { s with machine }
  | .error .outOfFuel machine => .error .outOfFuel { s with machine }

/-- Runs a program. -/
def run (rounds : Nat) (source : String) : Step Unit := do
  let program ← parseProgram source
  record (resolveProgram program)
  onMachine (interpret rounds program)

/-- Evaluates an expression. -/
def evaluate (rounds : Nat) (source : String) : Step Value := do
  let e ← parseExpression source
  record (resolveExpression e)
  onMachine (Lox.evaluate rounds e)

end Session
end Lox
