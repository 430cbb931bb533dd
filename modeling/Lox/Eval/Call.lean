import Lox.Eval.Basic

/-
  Calls — running functions and classes

  What runs the statements of a body is a parameter, so that calls can be
  described apart from the statements that are executed in them.
-/

namespace Lox

/-- How a statement ended: it went through, or it returned from the function it
stands in. -/
inductive Flow where
  | normal
  | returned (v : Value)

namespace Flow

/-- The value of a call whose body ended like this. -/
def value : Flow → Value
  | normal => .nil
  | returned v => v

end Flow

namespace Eval

/-- A closure whose frame lies inside that of a method and binds the object. -/
def bind (method : Closure) (object : Nat) (c : Class) : Eval Closure := do
  let f ← newFrame method.frame
  defineIn f selfName (.object object c)
  pure { method with frame := f }

/-- A method as a function of its own, bound to an object. -/
def boundMethod (method : Closure) (object : Nat) (c : Class) : Eval Value := do
  newFunction (← bind method object c)

/-- Binds parameters to arguments, as far as there are both. -/
def defineParameters (f : FrameId) (parameters : List Token) (arguments : List Value) :
    Eval Unit := fun m =>
  .ok () { m with heap := m.heap.defineAll f ((parameters.map Token.lexeme).zip arguments) }

/-- The object that a method is bound to. -/
def boundObject (closure : Closure) : Eval Value := fun m =>
  .ok ((m.heap.getAt? closure.frame 0 selfName).getD .nil) m

section Bodies

variable (body : List Stmt → Eval Flow)

/-- Runs a function in a new frame inside the one it was made in. A method
named `init` yields its object. -/
def callFunction (closure : Closure) (arguments : List Value) : Eval Value := do
  let f ← newFrame closure.frame
  defineParameters f closure.declaration.parameters arguments
  let flow ← inFrame f (body closure.declaration.body)
  if closure.initializer then boundObject closure else pure flow.value

/-- Makes an object and runs the `init` method of its class, if there is one. -/
def construct (c : Class) (arguments : List Value) : Eval Value := do
  let object ← newObject
  match c.findMethod? Class.initializerName with
  | some method =>
    let _ ← callFunction body (← bind method object c) arguments
    pure (.object object c)
  | none => pure (.object object c)

/-- Runs a value that can be called; others yield `nil`. -/
def invoke (callee : Value) (arguments : List Value) : Eval Value :=
  match callee with
  | .function _ closure => callFunction body closure arguments
  | .cls _ c => construct body c arguments
  | .clock => readClock
  | _ => pure .nil

/-- A call with its checks: the callee can be called, takes that many arguments,
and calls are not nested too deeply. -/
def call (paren : Token) (callee : Value) (arguments : List Value) : Eval Value := fun m =>
  match callee.arity? with
  | none => fail paren.line .notCallable m
  | some arity =>
    if arguments.length ≠ arity then fail paren.line (.wrongArity arity arguments.length) m
    else if maxCallDepth ≤ m.depth then fail paren.line .stackOverflow m
    else oneDeeper (invoke body callee arguments) m

end Bodies

/-! ## Properties -/

/-- A property of an object: its field, or else its class's method, bound. -/
def getProperty (object : Value) (name : Token) : Eval Value := fun m =>
  match object with
  | .object id c =>
    match (m.heap.fields id).find? name.lexeme with
    | some value => .ok value m
    | none =>
      match c.findMethod? name.lexeme with
      | some method => boundMethod method id c m
      | none => fail name.line (.undefinedProperty name.lexeme) m
  | _ => fail name.line .noProperties m

/-- A method of the superclass, bound to the running method's object. The object
lies in the frame just inside the one that binds the superclass. -/
def superMethod (id : Nat) (keyword method : Token) : Eval Value := fun m =>
  let superclass? := do m.heap.getAt? m.frame (← m.distances[id]?) superName
  let self? := do
    match ← m.distances[id]? with
    -- no frame lies inside the current one
    | 0 => none
    | distance + 1 => m.heap.getAt? m.frame distance selfName
  match superclass?, self? with
  | some (.cls _ superclass), some (.object object c) =>
    match superclass.findMethod? method.lexeme with
    | some found => boundMethod found object c m
    | none => fail method.line (.undefinedProperty method.lexeme) m
  | _, _ => fail keyword.line .unresolvedSuper m

end Eval
end Lox
