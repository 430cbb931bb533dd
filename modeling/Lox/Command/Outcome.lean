import Lox.Command.Arguments
import Lox.Command.Files
import Lox.Expr.Printed
import Lox.Session
import Lox.Text.Quoted
import Lox.Text.Utf8
import Lox.Token.Json

/-
  Outcomes — what a command prints and how it ends

  Files are given by their content or by what hinders reading it, so that a
  command is a function of its arguments, its file and the time.
-/

namespace Lox.Command

/-- What a finished command has written, and its exit code. The code is absent
if a loop of the program wanted more rounds than it was given. -/
structure Outcome where
  exitCode : Option Nat
  stdout : String
  stderr : String

/-- The exit code for command lines that cannot be understood. -/
def misuseCode : Nat := 64

/-- The exit code for files that cannot be read. -/
def fileCode : Nat := 74

/-- A file name as it is reported. -/
def quotedName (name : String) : String := Text.quoted name

/-- The text of a file, or the report why there is none. -/
def sourceText (name : String) : Except FileProblem (List UInt8) → Except String String
  | .ok bytes =>
    match Utf8.decode bytes with
    | .ok text => .ok text
    | .error problem =>
      .error ("File " ++ quotedName name ++ " is not valid UTF-8: " ++ problem.message)
  | .error problem =>
    let action := if problem.afterOpening then "read" else "open"
    .error ("Failed to " ++ action ++ " file " ++ quotedName name ++ ": " ++ problem.message)

/-- Texts, each on a line of its own. -/
def lines (texts : List String) : String := String.join (texts.map (· ++ "\n"))

/-- The tokens of a source, as a listing or as Json. Lexical errors are reported
beside it. -/
def tokenize (json : Bool) (source : String) : Outcome :=
  let tokens := tokens source
  let errors := lexicalErrors source
  { exitCode := some (if errors.isEmpty then 0 else 65)
    stdout :=
      if json then lines [(Token.listJson tokens).indented 0]
      else lines (tokens.map Token.listing)
    stderr := lines (errors.map fun e => (Diagnostic.lexical e).report) }

/-- The outcome of a step in a new session, given the text of its result. -/
def ofStep {α : Type} (step : Step α) (text : α → String) (clock : Clock) : Outcome :=
  match step (.start .unlimited clock) with
  | .ok a s => ⟨some 0, s.machine.sink.written ++ text a, ""⟩
  | .error (.error e) s =>
    ⟨some e.exitCode, s.machine.sink.written, lines (e.diagnostics.map Diagnostic.report)⟩
  | .error .outOfFuel s => ⟨none, s.machine.sink.written, ""⟩

/-- Does a task with a source. -/
def onSource (rounds : Nat) (clock : Clock) (task : Task) (source : String) : Outcome :=
  match task with
  | .tokenize json => tokenize json source
  | .parse => ofStep (Session.parseExpression source) (fun e => e.printed ++ "\n") clock
  | .evaluate => ofStep (Session.evaluate rounds source) (fun v => v.display ++ "\n") clock
  | .run => ofStep (Session.run rounds source) (fun _ => "") clock

/-- Does a task with a file. -/
def onFile (rounds : Nat) (clock : Clock) (task : Task) (name : String)
    (content : Except FileProblem (List UInt8)) : Outcome :=
  match sourceText name content with
  | .ok source => onSource rounds clock task source
  | .error report => ⟨some fileCode, "", report ++ "\n"⟩

/-- How the command is used. -/
def usage : String :=
  lines
    ["Lox language interpreter", "",
     "Usage: rox [--log] [COMMAND]", "",
     "Commands:",
     "  tokenize [--json] FILE  Print the tokens of a file",
     "  parse FILE              Print the tree of an expression",
     "  evaluate FILE           Print the value of an expression",
     "  run FILE                Run a program",
     "  help [COMMAND]          Print this help", "",
     "Without a command an interactive prompt is started.", "",
     "Options:",
     "      --log      Keep a log in app.log",
     "  -h, --help     Print help",
     "  -V, --version  Print version"]

/-- The outcome of a command line that asks for nothing to be done. -/
def refused : Refusal → Outcome
  | .help => ⟨some 0, usage, ""⟩
  | .version => ⟨some 0, "rox 0.1.0\n", ""⟩
  | .misuse => ⟨some misuseCode, "", "error: invalid arguments\n\n" ++ usage⟩

end Lox.Command
