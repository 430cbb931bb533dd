import Lox.Proofs.Eval.Levels

/-
  Reaching — what an evaluation comes to on its way

  An evaluation is at some task: a tree or a list of trees, a loop with its
  rounds, or one of the stages of a call. `Enters` says which task it goes into
  next, and with which machine, directly from another one; `Reaches` is any
  number of such steps and counts the calls among them.

  Entering leads to smaller tasks only (`Enters.decreases`), so what holds of a
  task whenever it holds of all that the task enters holds of every task
  (`Task.induction_enters`). A failure of an entered task is one of the task itself
  (`Fails.of_enters`).
-/

namespace Lox

open Eval

/-- Where an evaluation can be. -/
inductive Task where
  | expr (e : Expr)
  /-- expressions in turn, for the value of the last one, or else the given one -/
  | items (last : Value) (es : List Expr)
  /-- expressions in turn, for all their values -/
  | operands (es : List Expr)
  | stmt (s : Stmt)
  | stmts (ss : List Stmt)
  /-- a loop with the rounds that it may still go through -/
  | loop (condition : Expr) (body : Stmt) (left : Nat)
  /-- a call whose callee and arguments are evaluated -/
  | call (paren : Token) (callee : Value) (arguments : List Value)
  /-- a callee that is running -/
  | invoke (callee : Value) (arguments : List Value)
  /-- a function, or a bound method, that is running -/
  | function (closure : Closure) (arguments : List Value)

namespace Task

/-- What comes out of a task. -/
def Result : Task → Type
  | expr _ | items _ _ | call _ _ _ | invoke _ _ | function _ _ => Value
  | operands _ => List Value
  | stmt _ | stmts _ | loop _ _ _ => Flow

/-- The evaluation of a task. -/
def run (rounds : Nat) : (t : Task) → Eval t.Result
  | expr e => evaluate rounds e
  | items last es => Expr.evalLast (runBody rounds callLevels) last es
  | operands es => Expr.evalAll (runBody rounds callLevels) es
  | stmt s => execute rounds s
  | stmts ss => Stmt.execAll (runBody rounds callLevels) rounds ss
  | loop condition body left => Eval.repeat (evaluate rounds condition) (execute rounds body) left
  | call paren callee arguments => Eval.call (runBody rounds callLevels) paren callee arguments
  | invoke callee arguments => applyValue rounds callee arguments
  | function closure arguments => callFunction (runBody rounds callLevels) closure arguments

/-- Whether a task is the inside of a call. -/
def calls : Task → Nat
  | invoke _ _ => 1
  | _ => 0

end Task

/-- What is hereditary holds of every task. -/
theorem Eval.Hereditary.run {P : {α : Type} → Eval α → Prop} (hP : Hereditary P) (rounds : Nat) :
    (t : Task) → P (t.run rounds)
  | .expr e => hP.eval (hP.runBody rounds _) e
  | .items last es => hP.evalLast (hP.runBody rounds _) es last
  | .operands es => hP.evalAll (hP.runBody rounds _) es
  | .stmt s => hP.exec (hP.runBody rounds _) s
  | .stmts ss => hP.execAll (hP.runBody rounds _) ss
  | .loop condition body left =>
    hP.repeat (hP.eval (hP.runBody rounds _) condition) (hP.exec (hP.runBody rounds _) body) left
  | .call paren callee arguments => hP.call (hP.runBody rounds _) paren callee arguments
  | .invoke callee arguments => hP.invoke (hP.runBody rounds _) callee arguments
  | .function closure arguments => hP.callFunction (hP.runBody rounds _) closure arguments

theorem Task.steady_run (rounds : Nat) (t : Task) : Steady (t.run rounds) := steady.run rounds t

/-- The machine in a new frame that binds the given values. -/
def Machine.inNewFrame (m : Machine) (enclosing : FrameId) (values : List (String × Value)) :
    Machine :=
  { m with
    heap := (m.heap.newFrame (some enclosing)).2.defineAll m.heap.frames.size values
    frame := m.heap.frames.size }

/-- The machine in which the body of a function runs. -/
def Closure.entered (closure : Closure) (arguments : List Value) (m : Machine) : Machine :=
  m.inNewFrame closure.frame ((closure.declaration.parameters.map Token.lexeme).zip arguments)

section

variable (rounds : Nat)

/-- `Enters rounds t m t' m'`: in the course of the task `t`, begun with the machine
`m`, the evaluator begins the task `t'` with the machine `m'`. -/
inductive Enters : Task → Machine → Task → Machine → Prop
  -- expressions
  | group {inner : Expr} {m : Machine} : Enters (.expr (.group inner)) m (.expr inner) m
  | unary {operator : Token} {operand : Expr} {m : Machine} :
      Enters (.expr (.unary operator operand)) m (.expr operand) m
  | binaryLeft {left right : Expr} {operator : Token} {m : Machine} :
      Enters (.expr (.binary left operator right)) m (.expr left) m
  | binaryRight {left right : Expr} {operator : Token} {m m₁ : Machine} {a : Value} :
      evaluate rounds left m = .ok a m₁ →
      Enters (.expr (.binary left operator right)) m (.expr right) m₁
  | logicalLeft {left right : Expr} {operator : Token} {m : Machine} :
      Enters (.expr (.logical left operator right)) m (.expr left) m
  | logicalRight {left right : Expr} {operator : Token} {m m₁ : Machine} {a : Value} :
      evaluate rounds left m = .ok a m₁ → decidesLogical operator a = false →
      Enters (.expr (.logical left operator right)) m (.expr right) m₁
  | choiceCondition {condition thenCase elseCase : Expr} {m : Machine} :
      Enters (.expr (.choice condition thenCase elseCase)) m (.expr condition) m
  | choiceThen {condition thenCase elseCase : Expr} {m m₁ : Machine} {v : Value} :
      evaluate rounds condition m = .ok v m₁ → v.truthy = true →
      Enters (.expr (.choice condition thenCase elseCase)) m (.expr thenCase) m₁
  | choiceElse {condition thenCase elseCase : Expr} {m m₁ : Machine} {v : Value} :
      evaluate rounds condition m = .ok v m₁ → v.truthy = false →
      Enters (.expr (.choice condition thenCase elseCase)) m (.expr elseCase) m₁
  | comma {es : List Expr} {m : Machine} : Enters (.expr (.comma es)) m (.items .nil es) m
  | assigned {id : Nat} {name : Token} {value : Expr} {m : Machine} :
      Enters (.expr (.assign id name value)) m (.expr value) m
  | callee {callee : Expr} {paren : Token} {arguments : List Expr} {m : Machine} :
      Enters (.expr (.call callee paren arguments)) m (.expr callee) m
  | arguments {callee : Expr} {paren : Token} {arguments : List Expr} {m m₁ : Machine}
      {f : Value} :
      evaluate rounds callee m = .ok f m₁ →
      Enters (.expr (.call callee paren arguments)) m (.operands arguments) m₁
  | call {callee : Expr} {paren : Token} {arguments : List Expr} {m m₁ m₂ : Machine} {f : Value}
      {vs : List Value} :
      evaluate rounds callee m = .ok f m₁ → (Task.operands arguments).run rounds m₁ = .ok vs m₂ →
      Enters (.expr (.call callee paren arguments)) m (.call paren f vs) m₂
  | getObject {object : Expr} {name : Token} {m : Machine} :
      Enters (.expr (.get object name)) m (.expr object) m
  | setObject {object value : Expr} {name : Token} {m : Machine} :
      Enters (.expr (.set object name value)) m (.expr object) m
  | setValue {object value : Expr} {name : Token} {m m₁ : Machine} {id : Nat} {c : Class} :
      evaluate rounds object m = .ok (.object id c) m₁ →
      Enters (.expr (.set object name value)) m (.expr value) m₁
  -- lists of expressions
  | item {last : Value} {e : Expr} {es : List Expr} {m : Machine} :
      Enters (.items last (e :: es)) m (.expr e) m
  | moreItems {last v : Value} {e : Expr} {es : List Expr} {m m₁ : Machine} :
      evaluate rounds e m = .ok v m₁ → Enters (.items last (e :: es)) m (.items v es) m₁
  | operand {e : Expr} {es : List Expr} {m : Machine} :
      Enters (.operands (e :: es)) m (.expr e) m
  | moreOperands {v : Value} {e : Expr} {es : List Expr} {m m₁ : Machine} :
      evaluate rounds e m = .ok v m₁ → Enters (.operands (e :: es)) m (.operands es) m₁
  -- calls
  | invoke {paren : Token} {callee : Value} {arguments : List Value} {m : Machine} :
      callee.arity? = some arguments.length → m.depth < maxCallDepth →
      Enters (.call paren callee arguments) m (.invoke callee arguments)
        { m with depth := m.depth + 1 }
  | function {id : Nat} {closure : Closure} {arguments : List Value} {m : Machine} :
      Enters (.invoke (.function id closure) arguments) m (.function closure arguments) m
  | initializer {id object : Nat} {c : Class} {method closure : Closure} {arguments : List Value}
      {m m₁ m₂ : Machine} :
      c.findMethod? Class.initializerName = some method → newObject m = .ok object m₁ →
      Eval.bind method object c m₁ = .ok closure m₂ →
      Enters (.invoke (.cls id c) arguments) m (.function closure arguments) m₂
  | body {closure : Closure} {arguments : List Value} {m : Machine} :
      Enters (.function closure arguments) m (.stmts closure.declaration.body)
        (closure.entered arguments m)
  -- statements
  | expression {e : Expr} {m : Machine} : Enters (.stmt (.expression e)) m (.expr e) m
  | print {e : Expr} {m : Machine} : Enters (.stmt (.print e)) m (.expr e) m
  | initial {name : Token} {e : Expr} {m : Machine} :
      Enters (.stmt (.varDecl name (some e))) m (.expr e) m
  | block {body : List Stmt} {m : Machine} :
      Enters (.stmt (.block body)) m (.stmts body) (m.inNewFrame m.frame [])
  | branchCondition {condition : Expr} {thenCase : Stmt} {elseCase : Option Stmt} {m : Machine} :
      Enters (.stmt (.branch condition thenCase elseCase)) m (.expr condition) m
  | branchThen {condition : Expr} {thenCase : Stmt} {elseCase : Option Stmt} {m m₁ : Machine}
      {v : Value} :
      evaluate rounds condition m = .ok v m₁ → v.truthy = true →
      Enters (.stmt (.branch condition thenCase elseCase)) m (.stmt thenCase) m₁
  | branchElse {condition : Expr} {thenCase elseCase : Stmt} {m m₁ : Machine} {v : Value} :
      evaluate rounds condition m = .ok v m₁ → v.truthy = false →
      Enters (.stmt (.branch condition thenCase (some elseCase))) m (.stmt elseCase) m₁
  | loop {condition : Expr} {body : Stmt} {m : Machine} :
      Enters (.stmt (.loop condition body)) m (.loop condition body rounds) m
  | returned {keyword : Token} {e : Expr} {m : Machine} :
      Enters (.stmt (.yield keyword (some e))) m (.expr e) m
  | superclass {name : Token} {superclass : Expr} {methods : List Function} {m : Machine} :
      Enters (.stmt (.classDecl name (some superclass) methods)) m (.expr superclass)
        { m with heap := m.heap.define m.frame name.lexeme .nil }
  -- lists of statements, and loops
  | first {s : Stmt} {rest : List Stmt} {m : Machine} :
      Enters (.stmts (s :: rest)) m (.stmt s) m
  | more {s : Stmt} {rest : List Stmt} {m m₁ : Machine} :
      execute rounds s m = .ok .normal m₁ → Enters (.stmts (s :: rest)) m (.stmts rest) m₁
  | loopCondition {condition : Expr} {body : Stmt} {left : Nat} {m : Machine} :
      Enters (.loop condition body (left + 1)) m (.expr condition) m
  | loopBody {condition : Expr} {body : Stmt} {left : Nat} {m m₁ : Machine} {v : Value} :
      evaluate rounds condition m = .ok v m₁ → v.truthy = true →
      Enters (.loop condition body (left + 1)) m (.stmt body) m₁
  | nextRound {condition : Expr} {body : Stmt} {left : Nat} {m m₁ m₂ : Machine} {v : Value} :
      evaluate rounds condition m = .ok v m₁ → v.truthy = true →
      execute rounds body m₁ = .ok .normal m₂ →
      Enters (.loop condition body (left + 1)) m (.loop condition body left) m₂

/-- `Reaches rounds t m n t' m'`: the evaluation of `t`, begun with `m`, comes to the
task `t'` with the machine `m'`, inside `n` calls that were entered since. -/
inductive Reaches : Task → Machine → Nat → Task → Machine → Prop
  | here {t : Task} {m : Machine} : Reaches t m 0 t m
  | step {t t' t'' : Task} {m m' m'' : Machine} {n : Nat} :
      Enters rounds t m t' m' → Reaches t' m' n t'' m'' → Reaches t m (t'.calls + n) t'' m''

end

variable {rounds : Nat} {t t' t'' : Task} {m m' m'' : Machine} {n k : Nat}

namespace Reaches

theorem trans (h : Reaches rounds t m n t' m') (h' : Reaches rounds t' m' k t'' m'') :
    Reaches rounds t m (n + k) t'' m'' := by
  induction h with
  | here => rwa [Nat.zero_add]
  | step henter _ ih => exact Nat.add_assoc _ _ _ ▸ .step henter (ih h')

theorem single (h : Enters rounds t m t' m') : Reaches rounds t m t'.calls t' m' :=
  .step h .here

end Reaches

/-! ## Registers on the way -/

theorem depth_of_evaluate {e : Expr} {v : Value} (h : evaluate rounds e m = .ok v m') :
    m'.depth = m.depth := ((steady_evaluate rounds e).of_ok h).depth

theorem depth_of_execute {s : Stmt} {flow : Flow} (h : execute rounds s m = .ok flow m') :
    m'.depth = m.depth := ((steady_execute rounds s).of_ok h).depth

/-- Only the inside of a call is deeper than what it was entered from. -/
theorem Enters.depth_eq (h : Enters rounds t m t' m') : m'.depth = m.depth + t'.calls := by
  cases h with
  | binaryRight h | logicalRight h _ | choiceThen h _ | choiceElse h _ | arguments h | setValue h
  | moreItems h | moreOperands h | branchThen h _ | branchElse h _ | loopBody h _ =>
    exact depth_of_evaluate h
  | call h h' => exact (((Task.operands _).steady_run rounds).of_ok h').depth.trans (depth_of_evaluate h)
  | initializer _ hn hb => exact ((steady.boundClosure _ _ _).of_ok hb).depth.trans (steady.newObject.of_ok hn).depth
  | more h => exact depth_of_execute h
  | nextRound h _ h' => exact (depth_of_execute h').trans (depth_of_evaluate h)
  | _ => rfl

/-- A call that is entered is not nested too deeply. -/
theorem Enters.depth_le (h : Enters rounds t m t' m') (hm : m.depth ≤ maxCallDepth) :
    m'.depth ≤ maxCallDepth := by
  have hd := h.depth_eq
  cases h with
  | invoke _ hlt => exact hlt
  | _ => exact (show _ = m.depth from hd).le.trans hm

/-- The depth counts the calls on the way. -/
theorem Reaches.depth_eq (h : Reaches rounds t m n t' m') : m'.depth = m.depth + n := by
  induction h with
  | here => rfl
  | step henter _ ih => rw [ih, henter.depth_eq, Nat.add_assoc]

theorem Reaches.depth_le (h : Reaches rounds t m n t' m') (hm : m.depth ≤ maxCallDepth) :
    m'.depth ≤ maxCallDepth := by
  induction h with
  | here => exact hm
  | step henter _ ih => exact ih (henter.depth_le hm)

/-- Nothing was recorded or flushed between two machines. -/
structure Machine.SameRecords (m m' : Machine) : Prop where
  distances : m'.distances = m.distances
  flushes : m'.flushes = m.flushes

theorem Machine.Keeps.sameRecords (h : m.Keeps m') : m.SameRecords m' := ⟨h.distances, h.flushes⟩

theorem Machine.SameRecords.trans (h : m.SameRecords m') (h' : m'.SameRecords m'') :
    m.SameRecords m'' := ⟨h'.distances.trans h.distances, h'.flushes.trans h.flushes⟩

/-- Recording and flushing are not evaluated. -/
theorem Enters.sameRecords (h : Enters rounds t m t' m') : m.SameRecords m' := by
  cases h with
  | binaryRight h | logicalRight h _ | choiceThen h _ | choiceElse h _ | arguments h | setValue h
  | moreItems h | moreOperands h | branchThen h _ | branchElse h _ | loopBody h _ =>
    exact ((steady_evaluate rounds _).of_ok h).sameRecords
  | call h h' =>
    exact (((steady_evaluate rounds _).of_ok h).trans
      (((Task.operands _).steady_run rounds).of_ok h')).sameRecords
  | initializer _ hn hb =>
    have hrecords := ((steady.newObject.of_ok hn).trans
      ((steady.boundClosure _ _ _).of_ok hb)).sameRecords
    exact ⟨hrecords.distances, hrecords.flushes⟩
  | more h => exact ((steady_execute rounds _).of_ok h).sameRecords
  | nextRound h _ h' =>
    exact (((steady_evaluate rounds _).of_ok h).trans ((steady_execute rounds _).of_ok h')).sameRecords
  | _ => exact ⟨rfl, rfl⟩

theorem Reaches.sameRecords (h : Reaches rounds t m n t' m') : m.SameRecords m' := by
  induction h with
  | here => exact ⟨rfl, rfl⟩
  | step henter _ ih => exact henter.sameRecords.trans ih

/-! ## Evaluation ends -/

namespace Task

/-- How far a task is from the trees that are evaluated in it. -/
def stage : Task → Nat
  | invoke _ _ => 3
  | function _ _ => 2
  | call _ _ _ => 0
  | _ => 1

/-- The size of what is left to evaluate, apart from calls. -/
noncomputable def size : Task → Nat
  | expr e => 2 * sizeOf e
  | items _ es | operands es => 2 * sizeOf es
  | stmt s => 2 * sizeOf s
  | stmts ss => 2 * sizeOf ss
  | loop condition body _ => 2 * (sizeOf condition + sizeOf body) + 1
  | call _ _ _ | invoke _ _ | function _ _ => 0

/-- The rounds that are left to a loop. -/
def roundsLeft : Task → Nat
  | loop _ _ left => left
  | _ => 0

end Task

/-- The task that is entered is deeper in calls, or at an earlier stage, or
smaller, or has fewer rounds left. -/
theorem Enters.decreases (h : Enters rounds t m t' m') :
    maxCallDepth - m'.depth < maxCallDepth - m.depth ∨
      m'.depth = m.depth ∧ (t'.stage < t.stage ∨ t'.stage = t.stage ∧
        (t'.size < t.size ∨ t'.size = t.size ∧ t'.roundsLeft < t.roundsLeft)) := by
  have hd := h.depth_eq
  cases h with
  | invoke _ hlt => exact .inl (by simp only; omega)
  | _ =>
    refine .inr ⟨hd, ?_⟩
    simp [Task.stage, Task.size, Task.roundsLeft] <;> omega

/-- What holds of a task if it holds of all that the task enters holds of every
task. -/
theorem Task.induction_enters (rounds : Nat) {P : Task → Machine → Prop}
    (step : ∀ t m, (∀ t' m', Enters rounds t m t' m' → P t' m') → P t m) (t : Task)
    (m : Machine) : P t m :=
  step t m fun t' m' _ => Task.induction_enters rounds step t' m'
termination_by (maxCallDepth - m.depth, t.stage, t.size, t.roundsLeft)
decreasing_by
  rename_i h
  have hd := h.decreases
  simp only [Prod.lex_def]
  omega

/-- The same where calls are not nested too deeply. -/
theorem Task.induction (rounds : Nat) {P : Task → Machine → Prop}
    (step : ∀ t m, m.depth ≤ maxCallDepth → (∀ t' m', Enters rounds t m t' m' → P t' m') → P t m)
    (t : Task) (m : Machine) (hm : m.depth ≤ maxCallDepth) : P t m := by
  refine Task.induction_enters rounds (P := fun t m => m.depth ≤ maxCallDepth → P t m) ?_ t m hm
  intro t m ih hm
  exact step t m hm fun t' m' h => ih t' m' h (h.depth_le hm)

/-! ## Blocks and functions -/

section NewFrame

variable {closure : Closure} {arguments : List Value} {body : List Stmt} {flow : Flow}
  {e : Halt RuntimeError}

theorem execute_block_of_ok
    (h : (Task.stmts body).run rounds (m.inNewFrame m.frame []) = .ok flow m') :
    execute rounds (.block body) m = .ok flow { m' with frame := m.frame } :=
  (bind_of_ok (n := m) rfl).trans ((bind_of_ok rfl).trans (inFrame_of_ok h))

theorem execute_block_of_error
    (h : (Task.stmts body).run rounds (m.inNewFrame m.frame []) = .error e m') :
    execute rounds (.block body) m = .error e { m' with frame := m.frame } :=
  (bind_of_ok (n := m) rfl).trans ((bind_of_ok rfl).trans (inFrame_of_error h))

theorem callFunction_of_ok (hm : m.depth ≤ maxCallDepth)
    (h : (Task.stmts closure.declaration.body).run rounds (closure.entered arguments m) =
      .ok flow m') :
    callFunction (runBody rounds callLevels) closure arguments m =
      (if closure.initializer = true then boundObject closure else pure flow.value)
        { m' with frame := m.frame } := by
  refine (bind_of_ok rfl).trans ((bind_of_ok (n := { closure.entered arguments m with
    frame := m.frame }) rfl).trans (bind_of_ok (inFrame_of_ok ?_)))
  exact (runBody_eq rounds _ (m := closure.entered arguments m) hm).trans h

theorem callFunction_of_error (hm : m.depth ≤ maxCallDepth)
    (h : (Task.stmts closure.declaration.body).run rounds (closure.entered arguments m) =
      .error e m') :
    callFunction (runBody rounds callLevels) closure arguments m =
      .error e { m' with frame := m.frame } := by
  refine (bind_of_ok rfl).trans ((bind_of_ok (n := { closure.entered arguments m with
    frame := m.frame }) rfl).trans (bind_of_error (inFrame_of_error ?_)))
  exact (runBody_eq rounds _ (m := closure.entered arguments m) hm).trans h

end NewFrame

/-! ## Failures -/

/-- A task ends with an error, or without enough rounds. -/
def Fails (rounds : Nat) (t : Task) (m : Machine) (e : Halt RuntimeError) : Prop :=
  ∃ m', t.run rounds m = .error e m'

/-- What a task comes to fails it. -/
theorem Fails.of_enters {e : Halt RuntimeError} (h : Enters rounds t m t' m')
    (hm : m.depth ≤ maxCallDepth) (hf : Fails rounds t' m' e) : Fails rounds t m e := by
  obtain ⟨m₂, hf⟩ := hf
  cases h with
  -- what is left to do after what was entered is not come to
  | group | comma | function | loop => exact ⟨m₂, hf⟩
  | unary | binaryLeft | logicalLeft | choiceCondition | assigned | callee | getObject | setObject
  | item | operand | expression | print | initial | returned | first | loopCondition =>
    exact ⟨m₂, bind_of_error hf⟩
  | branchCondition =>
    rename_i elseCase
    cases elseCase <;> exact ⟨m₂, bind_of_error hf⟩
  | binaryRight h | arguments h | setValue h | moreOperands h =>
    exact ⟨m₂, (bind_of_ok h).trans (bind_of_error hf)⟩
  | moreItems h => exact ⟨m₂, (bind_of_ok h).trans hf⟩
  | logicalRight h hd => exact ⟨m₂, (bind_of_ok h).trans ((ite_of_false hd).trans hf)⟩
  | choiceThen h ht => exact ⟨m₂, (bind_of_ok h).trans ((ite_of_true ht).trans hf)⟩
  | choiceElse h ht | branchElse h ht =>
    exact ⟨m₂, (bind_of_ok h).trans ((ite_of_false ht).trans hf)⟩
  | call h h' => exact ⟨m₂, (bind_of_ok h).trans ((bind_of_ok h').trans hf)⟩
  | invoke ha hd => exact ⟨_, (call_of_checked ha hd).trans (oneDeeper_of_error hf)⟩
  | initializer hc hn hb =>
    exact ⟨m₂, (construct_of_some hc hn hb).trans (bind_of_error hf)⟩
  | body => exact ⟨_, callFunction_of_error hm hf⟩
  | block => exact ⟨_, execute_block_of_error hf⟩
  | branchThen h ht =>
    rename_i elseCase _
    cases elseCase <;> exact ⟨m₂, (bind_of_ok h).trans ((ite_of_true ht).trans hf)⟩
  | superclass => exact ⟨m₂, (bind_of_ok rfl).trans (bind_of_error hf)⟩
  | more h => exact ⟨m₂, (bind_of_ok h).trans hf⟩
  | loopBody h ht => exact ⟨m₂, (bind_of_ok h).trans ((ite_of_true ht).trans (bind_of_error hf))⟩
  | nextRound h ht h' =>
    exact ⟨m₂, (bind_of_ok h).trans ((ite_of_true ht).trans ((bind_of_ok h').trans hf))⟩

end Lox
