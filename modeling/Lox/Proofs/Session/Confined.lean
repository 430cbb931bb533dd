import Lox.Proofs.Eval.Confined
import Lox.Proofs.Session.History

/-
  Names that come and go — what runs do to the names of a frame

  No name ever leaves a frame. Expressions, calls and blocks add none to the frames that
  were there before; a declaration adds its own to the current frame, so a program adds
  names that its executed statements declare. Values change where they are assigned to
  or declared again (`names_confined`).
-/

namespace Lox

open Eval

/-! ## Names before and after -/

namespace Machine

/-- The frames of the first machine bind the same names in the second one. -/
def SameNames (m m' : Machine) : Prop :=
  ∀ f < m.heap.frames.size, ∀ name, m'.heap.Binds f name ↔ m.heap.Binds f name

/-- So they do, except that the current frame may have got one name more. -/
def AddsAtMost (m : Machine) (n : String) (m' : Machine) : Prop :=
  ∀ f < m.heap.frames.size, ∀ name, (m.heap.Binds f name → m'.heap.Binds f name) ∧
    (m'.heap.Binds f name → m.heap.Binds f name ∨ f = m.frame ∧ name = n)

/-- So they do, except that the current frame may have got names that are declared by
statements of the program that were executed. -/
def AddsDeclared (rounds : Nat) (program : List Stmt) (m m' : Machine) : Prop :=
  ∀ f < m.heap.frames.size, ∀ name, (m.heap.Binds f name → m'.heap.Binds f name) ∧
    (m'.heap.Binds f name → m.heap.Binds f name ∨ f = m.frame ∧
      ∃ front s rest m₁, program = front ++ s :: rest ∧
        (Task.stmts front).run rounds m = .ok .normal m₁ ∧ ∃ n ∈ s.declared, n.lexeme = name)

end Machine

section

variable {rounds : Nat} {m : Machine}

/-- A task that declares nothing itself leaves all names as they are. -/
theorem sameNames_of_declared_nil {t : Task} (ht : t.Allowed m)
    (hf : m.frame < m.heap.frames.size) (hn : t.declared = []) :
    m.SameNames ((t.run rounds).after m) := by
  intro f hlt name
  constructor
  · intro hb
    rcases Task.names_added ht hf hlt hb with hb | ⟨-, n, hmem, -⟩
    · exact hb
    · rw [hn] at hmem
      cases hmem
  · exact (Task.confined t m ht hf).kept f hlt name

theorem addsAtMost_of_declares {s : Stmt} {n : Token} (hf : m.frame < m.heap.frames.size)
    (hs : s.Declares n) : m.AddsAtMost n.lexeme ((execute rounds s).after m) := by
  intro f hlt name
  refine ⟨(Task.confined (.stmt s) m trivial hf).kept f hlt name, fun hb => ?_⟩
  rcases Task.names_added (t := .stmt s) trivial hf hlt hb with hb | ⟨hframe, k, hk, rfl⟩
  · exact .inl hb
  · -- such a statement declares one name only
    have hdeclared : (Task.stmt s).declared = [n] := by
      cases s with
      | varDecl | classDecl | function =>
        cases hs
        rfl
      | _ => cases hs
    rw [hdeclared, List.mem_singleton] at hk
    exact .inr ⟨hframe, congrArg Token.lexeme hk⟩

theorem addsDeclared_stmts {program : List Stmt} (hf : m.frame < m.heap.frames.size) :
    m.AddsDeclared rounds program (((Task.stmts program).run rounds).after m) := by
  intro f hlt name
  exact ⟨(Task.confined (.stmts program) m trivial hf).kept f hlt name,
    Task.names_added_stmts hf hlt⟩

/-- Flushing what was printed does not touch the frames. -/
theorem heap_after_interpret (program : List Stmt) (m : Machine) :
    ((interpret rounds program).after m).heap =
      (((Task.stmts program).run rounds).after m).heap := by
  rw [Session.after_interpret]

end

namespace Session

/-- Names and values in the frames of any session. Evaluating an expression, making a
call and executing a block leave the names of all frames as they are; a declaration
adds at most its name, to the current frame; a program, and a request to run one, adds at
most names declared by its executed statements, and other requests add none. What a
frame binds changes only under names that were assigned to there or declared there. -/
theorem names_confined (rounds : Nat) (s : Session)
    (hs : s.machine.frame < s.machine.heap.frames.size) :
    (∀ e, s.machine.SameNames ((Lox.evaluate rounds e).after s.machine)) ∧
    (∀ paren callee arguments, s.machine.SameNames
      ((Eval.call (runBody rounds callLevels) paren callee arguments).after s.machine)) ∧
    (∀ body, s.machine.SameNames ((execute rounds (.block body)).after s.machine)) ∧
    (∀ st n, st.Declares n → s.machine.AddsAtMost n.lexeme
      ((execute rounds st).after s.machine)) ∧
    (∀ program, s.machine.AddsDeclared rounds program
      ((interpret rounds program).after s.machine)) ∧
    (∀ r, s.machine.SameNames (s.perform rounds r).2.machine ∨
      ∃ source program s₁, r = .run source ∧ Begins r s (.stmts program) s₁ ∧
        s₁.machine.AddsDeclared rounds program (s.perform rounds r).2.machine) ∧
    ∀ t : Task, t.Allowed s.machine → ∀ f < s.machine.heap.frames.size, ∀ name,
      (((t.run rounds).after s.machine).heap.bindings f).find? name ≠
        (s.machine.heap.bindings f).find? name → t.Written rounds s.machine f name := by
  refine ⟨?_, ?_, ?_, ?_, ?_, ?_, ?_⟩
  · intro e
    exact sameNames_of_declared_nil (t := .expr e) trivial hs rfl
  · intro paren callee arguments
    exact sameNames_of_declared_nil (t := .call paren callee arguments) trivial hs rfl
  · intro body
    exact sameNames_of_declared_nil (t := .stmt (.block body)) trivial hs rfl
  · intro st n hst
    exact addsAtMost_of_declares hs hst
  · intro program f hlt name
    rw [Heap.Binds, heap_after_interpret]
    exact addsDeclared_stmts hs f hlt name
  · intro r
    rcases perform_cases rounds s r with ⟨t, s₁, hb⟩ | ⟨a, k, hp, -⟩
    · rw [hb.session_eq]
      -- recording distances leaves the heap alone, so only the evaluation counts
      cases hb with
      | run hl hp hr => exact .inr ⟨_, _, _, rfl, .run hl hp hr, addsDeclared_stmts hs⟩
      | evaluate _ _ _ =>
        exact .inl (sameNames_of_declared_nil (m := s.machine.record _) (t := .expr _) trivial hs rfl)
    · rw [hp]
      exact .inl fun _ _ _ => Iff.rfl
  · intro t ht f hlt name hne
    exact ((Task.confined t s.machine ht hs).values f hlt name).resolve_left hne

namespace Sharing

/-- A variable that two functions share, one of which is called. -/
def source : String := "\x7bvar n;fun f()\x7bn=true;\x7dfun g()\x7bn;\x7df();\x7d"

def word (name : String) : Token := ⟨.identifier, name, 1⟩

/-- What the called function does. -/
def write : Expr := .assign 0 (word "n") (.boolean true)

def writer : Function := ⟨word "f", [], [.expression write]⟩

def reader : Function := ⟨word "g", [], [.expression (.var 1 (word "n"))]⟩

def call : List Stmt := [.expression (.call (.var 2 (word "f")) ⟨.rightParen, ")", 1⟩ [])]

def declarations : List Stmt := [.varDecl (word "n") none, .function writer, .function reader]

/-- The machine on which the program is run. -/
def accepted : Machine :=
  (start .unlimited (.ticking 0)).machine.record
    ((((∅ : Distances).insert 0 1).insert 1 1).insert 2 0)

/-- The machine in the block, behind its declarations. -/
def declared : Machine :=
  ((Task.stmts declarations).run 0).after (accepted.inNewFrame accepted.frame [])

/-- The machine inside the call. -/
def inside : Machine := (Closure.mk writer 1 false).entered [] { declared with depth := 1 }

theorem begins : Begins (.run source) (start .unlimited (.ticking 0))
    (.stmts [.block (declarations ++ call)]) ⟨accepted, 3⟩ := .run_of_spans (by cbv) (by cbv) rfl

theorem reaches_declared : Reaches 0 (.stmts [.block (declarations ++ call)]) accepted 0
    (.stmts call) declared :=
  .step .first (.step .block (.step (.more rfl) (.step (.more rfl) (.step (.more rfl) .here))))

theorem reaches_inside : Reaches 0 (.stmts call) declared 1 (.expr write) inside := by
  have hcallee : Lox.evaluate 0 (.var 2 (word "f")) declared =
    .ok (.function 0 ⟨writer, 1, false⟩) declared := rfl
  exact .step .first (.step .expression (.step (.call hcallee rfl) (.step (.invoke rfl (by decide))
    (.step .function (.step .body (.step .first (.step .expression .here)))))))

/-- The other function has the frame of the variable too, which the call writes to. -/
theorem shares_inside : inside.heap.enclosing? inside.frame = some 1 ∧
    (inside.heap.bindings 1).find? "g" = some (.function 1 ⟨reader, 1, false⟩) :=
  ⟨rfl, rfl⟩

theorem changes_inside : ((((Task.expr write).run 0).after inside).heap.bindings 1).find? "n" ≠
    (inside.heap.bindings 1).find? "n" := by
  have hbefore : (inside.heap.bindings 1).find? "n" = some .nil := rfl
  have hafter : ((((Task.expr write).run 0).after inside).heap.bindings 1).find? "n" =
    some (.boolean true) := rfl
  rw [hafter, hbefore]
  nofun

end Sharing

open Sharing

/-- Inside a call of a function that shares its variable with another one: the assignment
adds no name, and the variable that it changes is written to. -/
theorem names_confined_sharing :
    Comes 0 (.run source) (start .unlimited (.ticking 0)) 1 (.expr write) inside ∧
      inside.heap.enclosing? inside.frame = some 1 ∧
      (inside.heap.bindings 1).find? "g" = some (.function 1 ⟨reader, 1, false⟩) ∧
      inside.frame < inside.heap.frames.size ∧
      inside.SameNames ((Lox.evaluate 0 write).after inside) ∧
      inside.AddsAtMost "n" ((execute 0 (.varDecl (word "n") none)).after inside) ∧
      (Task.expr write).Written 0 inside 1 "n" := by
  have hsize : inside.frame < inside.heap.frames.size := by decide
  obtain ⟨hexpr, -, -, hdeclares, -, -, hvalues⟩ := names_confined 0 ⟨inside, 3⟩ hsize
  exact ⟨⟨_, _, begins, reaches_declared.trans reaches_inside⟩, shares_inside.1, shares_inside.2,
    hsize, hexpr write, hdeclares (.varDecl (word "n") none) (word "n") rfl,
    hvalues (.expr write) trivial 1 (by decide) "n" changes_inside⟩

end Session
end Lox
