import Lox.Command.Host
import Std.Time.DateTime.Timestamp

/-
  The command line — arguments, files and streams of the host

  Everything that is decided here is decided by the functions called; this
  module reads, writes and hands on.
-/

namespace Lox.Main

/-- More rounds than any loop lives to see, 2^62. -/
def rounds : Nat := 4611686018427387904

/-- The microseconds since the start of 1970. -/
def now : IO Nat := do
  let nanoseconds := (← Std.Time.Timestamp.now).toNanosecondsSinceUnixEpoch.toInt
  return (nanoseconds / 1000).toNat

/-- What hinders reading a file, by the fault that the host reports. -/
def fileProblem : IO.Error → Command.FileProblem
  | .noFileOrDirectory .. => .missing
  | .inappropriateType _ code details =>
    if code = 20 then .notDirectory else if code = 21 then .isDirectory else .other details
  | .invalidArgument _ code details => if code = 36 then .nameTooLong else .other details
  | .permissionDenied _ code details => .other (details ++ " (os error " ++ toString code ++ ")")
  | e => .other e.toString

def readFile (name : String) : IO (Except Command.FileProblem (List UInt8)) := do
  try
    return .ok (← (← IO.FS.Handle.mk name .read).readBinToEnd).toList
  catch e =>
    return .error (fileProblem e)

def write (stdout stderr : String) : IO Unit := do
  let out ← IO.getStdout
  out.putStr stdout
  out.flush
  (← IO.getStderr).putStr stderr

/-- Ends with the exit code of an outcome. -/
def finish (o : Command.Outcome) : IO UInt32 := do
  write o.stdout o.stderr
  return (o.exitCode.getD 1).toUInt32

/-- The bytes up to and including the next newline. -/
partial def readLine (input : IO.FS.Stream) (read : List UInt8) : IO (List UInt8) := do
  match (← input.read 1).toList with
  | [] => return read.reverse
  | b :: _ => if b = 10 then return (b :: read).reverse else readLine input (b :: read)

partial def prompt (session : Session) : IO UInt32 := do
  write Command.promptText ""
  let bytes ← readLine (← IO.getStdin) []
  if bytes.isEmpty then
    write "\n" ""
    return 0
  match Utf8.decode bytes with
  | .error _ =>
    write "" Command.unreadableLine
    return Command.unreadableCode.toUInt32
  | .ok line =>
    let clock := Clock.ticking (← now)
    let session := { session with machine := { session.machine with clock } }
    match Command.runLine rounds session line with
    | none => return 1
    | some reply =>
      write reply.stdout reply.stderr
      prompt reply.session

def answer : Command.Request → IO UInt32
  | .prompt => do prompt (.start .unlimited (Clock.ticking (← now)))
  | .file task name => do
    finish (Command.onFile rounds (Clock.ticking (← now)) task name (← readFile name))

def run (invocation : Command.Invocation) : IO UInt32 := do
  if invocation.log then
    try
      IO.FS.writeFile Command.logName Command.logStart
    catch e =>
      return ← finish (Command.logFailed (fileProblem e))
  answer invocation.request

end Lox.Main

def main (arguments : List String) : IO UInt32 :=
  match Lox.Command.read arguments with
  | .ok invocation => Lox.Main.run invocation
  | .error refusal => Lox.Main.finish (Lox.Command.refused refusal)
