import Lox.Command.Outcome

/-
  The prompt — one session, run line by line

  Before each line the prompt is written, and at the end of the input a
  newline. Errors of a line are reported and the session goes on; a line that
  is not text ends it.
-/

namespace Lox.Command

/-- What a line was answered with, and the session after it. -/
structure Reply where
  stdout : String
  stderr : String
  session : Session

/-- Runs one line; absent if a loop of it wanted more rounds than it was given. -/
def runLine (rounds : Nat) (session : Session) (line : String) : Option Reply :=
  let reply (stderr : String) (s : Session) : Option Reply :=
    match Session.takePrinted s with
    | .ok stdout s => some ⟨stdout, stderr, s⟩
    | .error _ s => some ⟨"", stderr, s⟩
  match Session.run rounds line session with
  | .ok () s => reply "" s
  | .error (.error e) s => reply (e.report ++ "\n") s
  | .error .outOfFuel _ => none

/-- What is written before each line. -/
def promptText : String := "> "

/-- The report on a line that is not text, with which the prompt ends. -/
def unreadableLine : String :=
  "Error: Failed to read from stdin\n\nCaused by:\n    stream did not contain valid UTF-8\n"

/-- The exit code with which the prompt ends on a line that is not text. -/
def unreadableCode : Nat := 1

/-- The lines of some bytes, each with its newline; the last may lack it. -/
def splitLines (bytes : List UInt8) : List (List UInt8) :=
  bytes.foldr
    (fun b lines =>
      if b = 10 then [b] :: lines
      else match lines with
        | line :: rest => (b :: line) :: rest
        | [] => [[b]])
    []

/-- Runs lines one after another, from the given output on. -/
def runLines (rounds : Nat) (session : Session) (stdout stderr : String) :
    List (List UInt8) → Outcome
  | [] => ⟨some 0, stdout ++ promptText ++ "\n", stderr⟩
  | line :: rest =>
    match Utf8.decode line with
    | .error _ => ⟨some unreadableCode, stdout ++ promptText, stderr ++ unreadableLine⟩
    | .ok text =>
      match runLine rounds session text with
      | none => ⟨none, stdout ++ promptText, stderr⟩
      | some reply =>
        runLines rounds reply.session (stdout ++ promptText ++ reply.stdout)
          (stderr ++ reply.stderr) rest

/-- The prompt on a whole input. -/
def prompt (rounds : Nat) (clock : Clock) (input : List UInt8) : Outcome :=
  runLines rounds (.start .unlimited clock) "" "" (splitLines input)

end Lox.Command
