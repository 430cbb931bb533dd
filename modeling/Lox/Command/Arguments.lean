/-
  Arguments — what a command line asks for

      rox [--log] [tokenize [--json] FILE | parse FILE | evaluate FILE | run FILE]

  Arguments are read from left to right, and the first that asks for help or
  cannot be understood decides. Flags may stand before or behind the file; each
  may be given once at its level, and `--log` counts at both levels. Behind
  `--` there are no flags.
-/

namespace Lox.Command

/-- What is done with a file. -/
inductive Task where
  | tokenize (json : Bool)
  | parse
  | evaluate
  | run
  deriving DecidableEq, Repr

/-- What a command line asks for. -/
inductive Request where
  /-- An interactive prompt. -/
  | prompt
  | file (task : Task) (name : String)
  deriving DecidableEq, Repr

/-- A request, and whether a log is kept. -/
structure Invocation where
  request : Request
  log : Bool
  deriving DecidableEq, Repr

/-- Why a command line asks for nothing to be done. -/
inductive Refusal where
  | help
  | version
  | misuse
  deriving DecidableEq, Repr

/-- An argument by its form. -/
inductive Argument where
  /-- Two dashes alone. -/
  | separator
  | long (name : List Char)
  /-- Letters behind one dash; the first decides. -/
  | short (first : Char)
  | word

def Argument.ofString (s : String) : Argument :=
  match s.toList with
  | ['-', '-'] => .separator
  | '-' :: '-' :: name => .long name
  | '-' :: first :: _ => .short first
  | _ => .word

/-- The task of a word. -/
def task? (word : String) : Option Task :=
  [("tokenize", Task.tokenize false), ("parse", .parse), ("evaluate", .evaluate),
    ("run", .run)].lookup word

/-- What is read behind a task. -/
structure TaskState where
  task : Task
  file : Option String
  log : Bool

/-- Takes a word as the file, which must be the only one and not empty. -/
def TaskState.withFile (s : TaskState) (word : String) : Except Refusal TaskState :=
  if s.file.isSome || word.isEmpty then .error .misuse else .ok { s with file := some word }

/-- Takes a long flag. -/
def TaskState.withFlag (s : TaskState) (name : List Char) : Except Refusal TaskState :=
  if name = "help".toList then .error .help
  else if name = "log".toList ∧ s.log = false then .ok { s with log := true }
  else if name = "json".toList ∧ s.task = .tokenize false then
    .ok { s with task := .tokenize true }
  else .error .misuse

/-- Takes one argument behind a task. -/
def TaskState.take (s : TaskState) (argument : String) : Except Refusal TaskState :=
  match Argument.ofString argument with
  | .long name => s.withFlag name
  | .short 'h' => .error .help
  | .short _ => .error .misuse
  | _ => s.withFile argument

/-- Takes all arguments behind a task. -/
def TaskState.takeAll (s : TaskState) : List String → Except Refusal TaskState
  | [] => .ok s
  | argument :: rest =>
    match Argument.ofString argument with
    | .separator => rest.foldlM TaskState.withFile s
    | _ => do (← s.take argument).takeAll rest

/-- What a finished task asks for; the file must be there. -/
def TaskState.finish (s : TaskState) (log : Bool) : Except Refusal Invocation :=
  match s.file with
  | some name => .ok ⟨.file s.task name, log || s.log⟩
  | none => .error .misuse

/-- Help on at most one task, or on help itself. -/
def helpOn : List String → Refusal
  | [] => .help
  | [word] => if word = "help" ∨ (task? word).isSome then .help else .misuse
  | _ => .misuse

/-- Reads the arguments in front of a task; `log` tells whether the log was
asked for. -/
def readFrom (log : Bool) : List String → Except Refusal Invocation
  | [] => .ok ⟨.prompt, log⟩
  | argument :: rest =>
    match Argument.ofString argument with
    | .separator => if rest.isEmpty then .ok ⟨.prompt, log⟩ else .error .misuse
    | .long name =>
      if name = "help".toList then .error .help
      else if name = "version".toList then .error .version
      else if name = "log".toList ∧ log = false then readFrom true rest
      else .error .misuse
    | .short 'h' => .error .help
    | .short 'V' => .error .version
    | .short _ => .error .misuse
    | .word =>
      match task? argument with
      | some task => do (← TaskState.takeAll ⟨task, none, false⟩ rest).finish log
      | none => .error (if argument = "help" then helpOn rest else .misuse)

/-- What a command line asks for. -/
def read (arguments : List String) : Except Refusal Invocation := readFrom false arguments

end Lox.Command
