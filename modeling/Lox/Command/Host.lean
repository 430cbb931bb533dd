import Lox.Command.Prompt

/-
  The host — what a command line is run in

  `perform` runs a whole command line on the files, the input and the clock of
  a host. A log, if one is asked for, is begun before anything else is done, and
  without it nothing is done.
-/

namespace Lox.Command

structure Host where
  /-- The working directory. -/
  place : Place
  /-- The standard input. -/
  input : List UInt8
  clock : Clock

/-- The file in which a log is kept. -/
def logName : String := "app.log"

/-- The line with which a log begins. -/
def logStart : String := "[rox] - Logger initialized, writing to app.log\n"

/-- The outcome of a command whose log cannot be begun. -/
def logFailed (problem : FileProblem) : Outcome :=
  ⟨some 1, "",
    "Error: Failed to create " ++ logName ++ "\n\nCaused by:\n    " ++ problem.message ++ "\n"⟩

namespace Host

/-- Begins a log in the working directory. -/
def withLog (h : Host) : Except FileProblem Host := do
  return { h with place := ← h.place.write logName logStart.toUTF8.toList }

/-- Whether the working directory has a log. -/
def hasLog (h : Host) : Bool := (h.place.here.child? logName).isSome

/-- Does what is asked for. -/
def answer (rounds : Nat) (h : Host) : Request → Outcome
  | .prompt => prompt rounds h.clock h.input
  | .file task name => onFile rounds h.clock task name (h.place.read name)

/-- Runs a command line. Also gives the host as it is afterwards. -/
def perform (rounds : Nat) (h : Host) (arguments : List String) : Outcome × Host :=
  match Command.read arguments with
  | .error refusal => (refused refusal, h)
  | .ok ⟨request, false⟩ => (h.answer rounds request, h)
  | .ok ⟨request, true⟩ =>
    match h.withLog with
    | .ok logged => (logged.answer rounds request, logged)
    | .error problem => (logFailed problem, h)

end Host
end Lox.Command
