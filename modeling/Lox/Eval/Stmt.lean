import Lox.Eval.Expr

/-
  Execution of statements

  `Stmt.exec` is a recursion on the tree, given what runs the bodies of called
  functions. `runBody` ties the knot: with `n + 1` levels, the bodies of calls
  are run with `n` levels. Calls are nested at most `maxCallDepth` deep, so the
  levels never run out; only loops can go on for ever. Each loop may go through
  a given number of rounds each time it is executed, and a loop that wants more
  halts the evaluation without a result.
-/

namespace Lox

/-- Repeats a body as long as a condition holds, at most the given number of
times. -/
def Eval.repeat (condition : Eval Value) (body : Eval Flow) : Nat → Eval Flow
  | 0 => throw .outOfFuel
  | rounds + 1 => do
    if (← condition).truthy then
      match ← body with
      | .returned v => pure (.returned v)
      | .normal => Eval.repeat condition body rounds
    else pure .normal

/-- The methods of a class declaration, closed over a frame. The last of several
methods with one name comes first. -/
def methodTable (methods : List Function) (f : FrameId) : List (String × Closure) :=
  (methods.map fun d =>
    (d.name.lexeme, ⟨d, f, d.name.lexeme == Class.initializerName⟩)).reverse

namespace Eval

/-- The class that a superclass expression yields. -/
def asSuperclass (line : Nat) : Value → Eval (Nat × Class)
  | .cls id c => pure (id, c)
  | _ => fail line .superclassNotClass

/-- Makes a class and binds it to its name. The methods of a class with a
superclass close over a frame of their own, which binds the superclass. -/
def declareClass (name : Token) (methods : List Function) :
    Option (Nat × Class) → Eval Unit
  | none => do
    let f ← currentFrame
    assign name (← newClass ⟨name.lexeme, none, methodTable methods f⟩)
  | some (id, superclass) => do
    let f ← newFrame (← currentFrame)
    defineIn f superName (.cls id superclass)
    assign name (← newClass ⟨name.lexeme, some superclass, methodTable methods f⟩)

end Eval

variable (body : List Stmt → Eval Flow) (rounds : Nat)

mutual

def Stmt.exec : Stmt → Eval Flow
  | .expression e => do
    let _ ← e.eval body
    pure .normal
  | .print e => do
    let v ← e.eval body
    Eval.print (v.display ++ "\n")
    pure .normal
  | .varDecl name none => do
    Eval.define name.lexeme .nil
    pure .normal
  | .varDecl name (some initial) => do
    let v ← initial.eval body
    Eval.define name.lexeme v
    pure .normal
  | .block statements => do
    let f ← Eval.newFrame (← Eval.currentFrame)
    Eval.inFrame f (Stmt.execAll statements)
  | .branch condition thenCase none => do
    if (← condition.eval body).truthy then thenCase.exec else pure .normal
  | .branch condition thenCase (some elseCase) => do
    if (← condition.eval body).truthy then thenCase.exec else elseCase.exec
  | .loop condition inner => Eval.repeat (condition.eval body) inner.exec rounds
  | .function declaration => do
    let f ← Eval.currentFrame
    Eval.define declaration.name.lexeme (← Eval.newFunction ⟨declaration, f, false⟩)
    pure .normal
  | .yield _ none => pure (.returned .nil)
  | .yield _ (some value) => do
    let v ← value.eval body
    pure (.returned v)
  -- the name is bound before the class is there: its methods may mention it
  | .classDecl name none methods => do
    Eval.define name.lexeme .nil
    Eval.declareClass name methods none
    pure .normal
  | .classDecl name (some superclass) methods => do
    Eval.define name.lexeme .nil
    let value ← superclass.eval body
    let c ← Eval.asSuperclass (superclass.line?.getD name.line) value
    Eval.declareClass name methods (some c)
    pure .normal

/-- Executes statements in turn until one of them returns. -/
def Stmt.execAll : List Stmt → Eval Flow
  | [] => pure .normal
  | s :: rest => do
    match ← s.exec with
    | .normal => Stmt.execAll rest
    | .returned v => pure (.returned v)

end

/-- Runs the body of a called function, with the given number of levels for
calls inside it. -/
def runBody (rounds : Nat) : Nat → List Stmt → Eval Flow
  | 0 => fun _ => throw .outOfFuel
  | levels + 1 => Stmt.execAll (runBody rounds levels) rounds

/-- More levels than calls can be nested. -/
def callLevels : Nat := maxCallDepth + 1

/-- Evaluates an expression. -/
def evaluate (rounds : Nat) (e : Expr) : Eval Value := e.eval (runBody rounds callLevels)

/-- Executes a statement. -/
def execute (rounds : Nat) (s : Stmt) : Eval Flow := s.exec (runBody rounds callLevels) rounds

/-- Runs a value that can be called on arguments, without the checks of a call. -/
def applyValue (rounds : Nat) (callee : Value) (arguments : List Value) : Eval Value :=
  Eval.invoke (runBody rounds callLevels) callee arguments

/-- Executes a program. A return at the top level ends it. What is printed is
flushed once the program has ended without an error. -/
def interpret (rounds : Nat) (program : List Stmt) : Eval Unit := do
  let _ ← Stmt.execAll (runBody rounds callLevels) rounds program
  Eval.flush

end Lox
