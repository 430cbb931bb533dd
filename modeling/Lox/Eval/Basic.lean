import Std.Data.TreeMap
import Lox.Diagnostic
import Lox.Frame
import Lox.Sink

/-
  Evaluation — the state it works on, and its elementary steps

  The machine holds the heap, the current frame, how deeply calls are nested,
  the scope distances recorded for nodes, the sink and the clock. A step ends with a
  result or a halt, and in both cases with a machine. A halt is an error of the
  program or the host, or tells that a loop went through more rounds than it
  was allowed.
-/

namespace Lox

/-- The times that a clock tells, by how often it was read before. -/
abbrev Clock := Nat → Float

/-- A clock that begins at the given microsecond and has gone on by one whenever
it is read again. -/
def Clock.ticking (start : Nat) : Clock := fun readings =>
  (start + readings).toFloat / 1000000

/-- Scope distances by node id. -/
abbrev Distances := Std.TreeMap Nat Nat

/-- Why an evaluation ended without a result. -/
inductive Halt (ε : Type) where
  | error (e : ε)
  | outOfFuel

structure Machine where
  heap : Heap
  /-- The current frame. -/
  frame : FrameId
  /-- How many calls are running. -/
  depth : Nat
  distances : Distances
  sink : Sink
  /-- How often the sink was asked to flush, whether it could or not. -/
  flushes : Nat
  clock : Clock
  /-- How often the clock was read. -/
  readings : Nat

/-- A step of evaluation. -/
abbrev Eval := EStateM (Halt RuntimeError) Machine

/-- How deeply calls may be nested. -/
def maxCallDepth : Nat := 2048

namespace Machine

/-- A machine before any program: the global frame holds the clock alone. -/
def start (sink : Sink) (clock : Clock) : Machine where
  heap := (Heap.empty.newFrame none).2.define Heap.globals "clock" .clock
  frame := Heap.globals
  depth := 0
  distances := ∅
  sink := sink
  flushes := 0
  clock := clock
  readings := 0

/-- Records distances; those of other nodes stay. -/
def record (m : Machine) (distances : Distances) : Machine :=
  { m with distances := distances.foldl (fun ds id d => ds.insert id d) m.distances }

/-- The machine when the sink was asked to flush once more. -/
def flushed (m : Machine) : Machine := { m with flushes := m.flushes + 1 }

end Machine

namespace Eval

/-- Ends the evaluation with an error of the program. -/
def fail {α : Type} (line : Nat) (problem : RuntimeProblem) : Eval α :=
  throw (.error (.program line problem))

/-- The result of a computation without effects, whose problem is reported at
the given line. -/
def ofExcept {α : Type} (line : Nat) : Except RuntimeProblem α → Eval α
  | .ok a => pure a
  | .error problem => fail line problem

/-- Runs a step in another frame and comes back to the current one, however the
step ends. -/
def inFrame {α : Type} (f : FrameId) (step : Eval α) : Eval α := fun m =>
  let outer := m.frame
  match step { m with frame := f } with
  | .ok a m => .ok a { m with frame := outer }
  | .error e m => .error e { m with frame := outer }

/-- Runs a step as a call, one level deeper. -/
def oneDeeper {α : Type} (step : Eval α) : Eval α := fun m =>
  match step { m with depth := m.depth + 1 } with
  | .ok a m => .ok a { m with depth := m.depth - 1 }
  | .error e m => .error e { m with depth := m.depth - 1 }

/-- Makes a frame inside another one. -/
def newFrame (enclosing : FrameId) : Eval FrameId := fun m =>
  let (f, heap) := m.heap.newFrame (some enclosing)
  .ok f { m with heap }

/-- The current frame. -/
def currentFrame : Eval FrameId := fun m => .ok m.frame m

/-- Binds a name in a frame. -/
def defineIn (f : FrameId) (name : String) (value : Value) : Eval Unit := fun m =>
  .ok () { m with heap := m.heap.define f name value }

/-- Binds a name in the current frame. -/
def define (name : String) (value : Value) : Eval Unit := fun m =>
  .ok () { m with heap := m.heap.define m.frame name value }

/-- Changes the value of a name in a frame that binds it; without such a frame
the variable is undefined. -/
def assignIn (f? : Option FrameId) (name : Token) (value : Value) : Eval Unit :=
  match f? with
  | some f => defineIn f name.lexeme value
  | none => fail name.line (.undefinedVariable name.lexeme)

/-- Assigns to a name along the chain of the current frame. -/
def assign (name : Token) (value : Value) : Eval Unit := fun m =>
  assignIn (m.heap.holder? m.frame name.lexeme) name value m

/-- Reads a variable: at its distance if one is recorded, and otherwise in the
global frame. -/
def readVariable (id : Nat) (name : Token) : Eval Value := fun m =>
  let found := match m.distances[id]? with
    | some distance => m.heap.getAt? m.frame distance name.lexeme
    | none => m.heap.get? Heap.globals name.lexeme
  match found with
  | some value => .ok value m
  | none => fail name.line (.undefinedVariable name.lexeme) m

/-- Assigns to a variable: at its distance if one is recorded, and otherwise in
the global frame. -/
def writeVariable (id : Nat) (name : Token) (value : Value) : Eval Unit := fun m =>
  let f? := match m.distances[id]? with
    | some distance => m.heap.holderAt? m.frame distance name.lexeme
    | none => m.heap.holder? Heap.globals name.lexeme
  assignIn f? name value m

/-- Makes a function out of a closure. -/
def newFunction (closure : Closure) : Eval Value := fun m =>
  let (id, heap) := m.heap.newIdentity
  .ok (.function id closure) { m with heap }

/-- Makes a class value. -/
def newClass (c : Class) : Eval Value := fun m =>
  let (id, heap) := m.heap.newIdentity
  .ok (.cls id c) { m with heap }

/-- Makes an object of a class. -/
def newObject : Eval Nat := fun m =>
  let (id, heap) := m.heap.newObject
  .ok id { m with heap }

/-- Sets a field of an object. -/
def setField (object : Nat) (name : String) (value : Value) : Eval Unit := fun m =>
  .ok () { m with heap := m.heap.setField object name value }

/-- Reads the clock. -/
def readClock : Eval Value := fun m =>
  .ok (.number (m.clock m.readings)) { m with readings := m.readings + 1 }

/-- Prints a text. -/
def print (text : String) : Eval Unit := fun m =>
  let (taken, sink) := m.sink.write text
  let m := { m with sink }
  if taken then .ok () m else .error (.error (.host .sinkFull)) m

/-- Flushes what is printed. -/
def flush : Eval Unit := fun m =>
  if m.sink.flushFails then .error (.error (.host .flushFailed)) m.flushed else .ok () m.flushed

end Eval
end Lox
