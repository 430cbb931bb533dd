import Lox.Proofs.Eval.Failure
import Lox.Proofs.Form.Lines
import Lox.Session

/-
  Histories — what can be asked of a session, one request after another

  Every request ends, with an answer and a session for the next one. A request
  to run or evaluate either `Begins` an evaluation, on a machine that knows the
  distances of the new tree, or is refused before it touches the machine; the
  requests that only parse or read never touch it.
-/

namespace Lox

/-- What can be asked of a session. -/
inductive Request where
  | run (source : String)
  | evaluate (source : String)
  | parseProgram (source : String)
  | parseExpression (source : String)
  | readExpression (source : String)

/-- What a request comes to. -/
inductive Answer where
  /-- a program ran to its end -/
  | done
  | value (v : Value)
  /-- a tree was built and not evaluated -/
  | parsed
  | failed (e : RunError)
  /-- a loop wanted more rounds than it was allowed -/
  | unfinished

/-- An answer that was given without evaluating anything. -/
def Answer.Quiet : Answer → Prop
  | parsed | failed (.malformed _) | failed (.misscoped _) => True
  | _ => False

namespace Session

open Eval

/-- The answer of a step, and the session after it. -/
def conclude {α : Type} (answer : α → Answer) :
    EStateM.Result (Halt RunError) Session α → Answer × Session
  | .ok a s => (answer a, s)
  | .error (.error e) s => (.failed e, s)
  | .error .outOfFuel s => (.unfinished, s)

/-- Does what was asked. -/
def perform (rounds : Nat) (s : Session) : Request → Answer × Session
  | .run source => conclude (fun _ => .done) (run rounds source s)
  | .evaluate source => conclude .value (evaluate rounds source s)
  | .parseProgram source => conclude (fun _ => .parsed) (parseProgram source s)
  | .parseExpression source => conclude (fun _ => .parsed) (parseExpression source s)
  | .readExpression source => conclude (fun _ => .parsed) (readExpression source s)

/-- The session after some requests. -/
def afterAll (rounds : Nat) : Session → List Request → Session
  | s, [] => s
  | s, r :: rs => afterAll rounds (s.perform rounds r).2 rs

/-- `Begins r s t s'`: in the session `s` the request `r` begins to evaluate `t`, in
the session `s'`. -/
inductive Begins : Request → Session → Task → Session → Prop
  | run {source : String} {s : Session} {program : List Stmt} {k : Nat} {distances : Distances} :
      lexicalErrors source = [] →
      Parse.parseProgram (tokens source) s.nextId = ⟨.ok program, k⟩ →
      resolveProgram program = .ok distances →
      Begins (.run source) s (.stmts program) ⟨s.machine.record distances, k⟩
  | evaluate {source : String} {s : Session} {e : Expr} {k : Nat} {distances : Distances} :
      lexicalErrors source = [] →
      Parse.parseExpression (tokens source) s.nextId = ⟨.ok e, k⟩ →
      resolveExpression e = .ok distances →
      Begins (.evaluate source) s (.expr e) ⟨s.machine.record distances, k⟩

/-- A program begins as the spans of its source say. -/
theorem Begins.run_of_spans {source : String} {s : Session} {program : List Stmt} {k : Nat}
    {distances : Distances}
    (hl : (scanFrom 1 source.toList).filterMap ScanItem.error? = [])
    (hp : Parse.parseProgram ((scanFrom 1 source.toList).filterMap ScanItem.token?) s.nextId =
      ⟨.ok program, k⟩)
    (hr : resolveProgram program = .ok distances) :
    Begins (.run source) s (.stmts program) ⟨s.machine.record distances, k⟩ := by
  rw [← lexicalErrors_eq] at hl
  rw [← tokens_eq] at hp
  exact .run hl hp hr

/-- `Comes rounds r s n t m`: in the session `s` the request `r` comes to the task `t`
with the machine `m`, inside `n` calls. -/
def Comes (rounds : Nat) (r : Request) (s : Session) (n : Nat) (t : Task) (m : Machine) : Prop :=
  ∃ t₀ s₀, Begins r s t₀ s₀ ∧ Reaches rounds t₀ s₀.machine n t m

/-! ## Parsing and recording -/

section Parsing

variable {α : Type} {rule : List Token → Nat → Parse.Outcome α} {source : String} {s : Session}

theorem parse_of_ok {tree : α} {k : Nat} (hl : lexicalErrors source = [])
    (h : rule (tokens source) s.nextId = ⟨.ok tree, k⟩) :
    parse rule source s = .ok tree { s with nextId := k } := by
  rw [parse]
  simp only [h, hl, List.isEmpty_nil, if_true]

/-- A source is parsed, or there are errors, and then only ids are used up. -/
theorem parse_cases (rule : List Token → Nat → Parse.Outcome α) (source : String) (s : Session) :
    (∃ tree k, lexicalErrors source = [] ∧ rule (tokens source) s.nextId = ⟨.ok tree, k⟩) ∨
      ∃ errors, parse rule source s = .error (.error (.malformed errors))
        { s with nextId := (rule (tokens source) s.nextId).nextId } := by
  rw [parse]
  obtain ⟨result, k⟩ := rule (tokens source) s.nextId
  cases result with
  | ok tree =>
    cases hl : lexicalErrors source with
    | nil => exact .inl ⟨tree, k, rfl, rfl⟩
    | cons e es => exact .inr ⟨_, rfl⟩
  | error errors => exact .inr ⟨_, rfl⟩

/-- Parsing never goes back to an id. -/
theorem nextId_le_runRule {rule : Nat → Parser α} (h : ∀ n, Parse.Forward (rule n))
    (tokens : List Token) (firstId : Nat) :
    firstId ≤ (Parse.runRule rule tokens firstId).nextId := by
  have h := h (tokens.length + 1) (.start tokens firstId)
  rw [Parse.stateAfter] at h
  rw [Parse.runRule]
  cases hr : rule (tokens.length + 1) (.start tokens firstId) <;> (rw [hr] at h; exact h.nextId)

theorem nextId_le_parseProgram (tokens : List Token) (firstId : Nat) :
    firstId ≤ (Parse.parseProgram tokens firstId).nextId :=
  nextId_le_runRule (fun n => Parse.forward_program n n) tokens firstId

theorem nextId_le_parseExpression (tokens : List Token) (firstId : Nat) :
    firstId ≤ (Parse.parseExpression tokens firstId).nextId :=
  nextId_le_runRule Parse.forward_wholeExpression tokens firstId

theorem forward_wholeForm (n : Nat) : Parse.Forward (Form.wholeForm n) :=
  (Form.forward_form n).bind fun _ => .bind .atEnd fun _ => .ite (.pure _) (.fail _)

theorem nextId_le_read {n k : Nat} {e : Expr} (h : Form.read source n = .ok (e, k)) : n ≤ k := by
  rw [Form.read] at h
  cases hl : lexicalErrors source with
  | cons _ _ =>
    simp only [hl] at h
    cases h
  | nil =>
    simp only [hl] at h
    cases hr : Form.wholeForm ((tokens source).length + 1) (.start (tokens source) n) with
    | error _ _ =>
      rw [hr] at h
      cases h
    | ok e' state =>
      rw [hr] at h
      cases h
      exact ((forward_wholeForm _).of_ok hr).nextId

end Parsing

/-! ## How requests end -/

variable {rounds : Nat} {r : Request} {s s₁ : Session} {t : Task}

theorem bind_of_ok' {α β : Type} {x : Step α} {f : α → Step β} {a : α} {s s' : Session}
    (h : x s = .ok a s') : (x >>= f) s = f a s' := by
  show EStateM.bind x f s = f a s'
  rw [EStateM.bind, h]

theorem bind_of_error' {α β : Type} {x : Step α} {f : α → Step β} {e : Halt RunError}
    {s s' : Session} (h : x s = .error e s') : (x >>= f) s = .error e s' := by
  show EStateM.bind x f s = _
  rw [EStateM.bind, h]

theorem run_of_begins {source : String} {program : List Stmt}
    (h : Begins (.run source) s (.stmts program) s₁) :
    run rounds source s = onMachine (interpret rounds program) s₁ := by
  cases h with
  | run hl hp hr =>
    refine (bind_of_ok' (parse_of_ok hl hp)).trans (bind_of_ok' (a := ()) ?_)
    rw [hr]
    rfl

theorem evaluate_of_begins {source : String} {e : Expr}
    (h : Begins (.evaluate source) s (.expr e) s₁) :
    evaluate rounds source s = onMachine (Lox.evaluate rounds e) s₁ := by
  cases h with
  | evaluate hl hp hr =>
    refine (bind_of_ok' (parse_of_ok hl hp)).trans (bind_of_ok' (a := ()) ?_)
    rw [hr]
    rfl

theorem Begins.nextId_le (h : Begins r s t s₁) : s.nextId ≤ s₁.nextId := by
  cases h with
  | @run source _ _ _ _ _ hp _ =>
    have := nextId_le_parseProgram (tokens source) s.nextId
    rwa [hp] at this
  | @evaluate source _ _ _ _ _ hp _ =>
    have := nextId_le_parseExpression (tokens source) s.nextId
    rwa [hp] at this

theorem interpret_of_ok {program : List Stmt} {flow : Flow} {m m' : Machine}
    (h : (Task.stmts program).run rounds m = .ok flow m') :
    interpret rounds program m = flush m' := bind_of_ok h

theorem interpret_of_error {program : List Stmt} {e : Halt RuntimeError} {m m' : Machine}
    (h : (Task.stmts program).run rounds m = .error e m') :
    interpret rounds program m = .error e m' := bind_of_error h

/-- Running a program leaves the machine as its statements do, but for flushing. -/
theorem after_interpret (rounds : Nat) (program : List Stmt) (m : Machine) :
    (interpret rounds program).after m =
      { ((Task.stmts program).run rounds).after m with
        flushes := ((interpret rounds program).after m).flushes } := by
  cases hrun : (Task.stmts program).run rounds m with
  | error e m₁ => rw [after_of_error (interpret_of_error hrun), after_of_error hrun]
  | ok flow m₁ =>
    rw [after, interpret_of_ok hrun, ← after, after_flush, after_of_ok hrun]
    rfl

theorem onMachine_of_ok {α : Type} {step : Eval α} {a : α} {m : Machine}
    (h : step s.machine = .ok a m) : onMachine step s = .ok a { s with machine := m } := by
  rw [onMachine, h]

/-- What the session reports of a halt. -/
def haltOf : Halt RuntimeError → Halt RunError
  | .error e => .error (.failed e)
  | .outOfFuel => .outOfFuel

theorem onMachine_of_error {α : Type} {step : Eval α} {e : Halt RuntimeError} {m : Machine}
    (h : step s.machine = .error e m) :
    onMachine step s = .error (haltOf e) { s with machine := m } := by
  rw [onMachine, h]
  cases e <;> rfl

/-- The answer to a request that was halted. -/
def halted : Halt RuntimeError → Answer
  | .error e => .failed (.failed e)
  | .outOfFuel => .unfinished

/-- A request is answered by its evaluation. Flushing what a program printed may
still fail, and changes nothing but that it was attempted. -/
theorem Begins.perform_of_error (h : Begins r s t s₁) {e : Halt RuntimeError} {m : Machine}
    (hrun : t.run rounds s₁.machine = .error e m) :
    s.perform rounds r = (halted e, { s₁ with machine := m }) := by
  cases h with
  | run hl hp hr =>
    rw [perform, run_of_begins (.run hl hp hr), onMachine_of_error (interpret_of_error hrun)]
    cases e <;> rfl
  | @evaluate _ _ tree _ _ hl hp hr =>
    rw [perform, evaluate_of_begins (.evaluate hl hp hr),
      onMachine_of_error (show Lox.evaluate rounds tree _ = _ from hrun)]
    cases e <;> rfl

theorem Begins.perform_run {source : String} {program : List Stmt} {flow : Flow} {m : Machine}
    (h : Begins (.run source) s (.stmts program) s₁)
    (hrun : (Task.stmts program).run rounds s₁.machine = .ok flow m) :
    s.perform rounds (.run source) =
      (if m.sink.flushFails = true then .failed (.failed (.host .flushFailed)) else .done,
        { s₁ with machine := m.flushed }) := by
  rw [perform, run_of_begins h]
  have hi := interpret_of_ok hrun
  cases hf : m.sink.flushFails with
  | true =>
    rw [onMachine_of_error (hi.trans (if_pos hf))]
    rfl
  | false =>
    rw [onMachine_of_ok (hi.trans (if_neg (by simp [hf])))]
    rfl

theorem Begins.perform_evaluate {source : String} {e : Expr} {v : Value} {m : Machine}
    (h : Begins (.evaluate source) s (.expr e) s₁)
    (hrun : (Task.expr e).run rounds s₁.machine = .ok v m) :
    s.perform rounds (.evaluate source) = (.value v, { s₁ with machine := m }) := by
  rw [perform, evaluate_of_begins h, onMachine_of_ok (show Lox.evaluate rounds e _ = _ from hrun)]
  rfl

/-- A request begins at most one evaluation. -/
theorem Begins.unique {t' : Task} {s₁' : Session} (h : Begins r s t s₁)
    (h' : Begins r s t' s₁') : t' = t ∧ s₁' = s₁ := by
  cases h with
  | run _ hp hr =>
    cases h' with
    | run _ hp' hr' =>
      cases hp.symm.trans hp'
      cases hr.symm.trans hr'
      exact ⟨rfl, rfl⟩
  | evaluate _ hp hr =>
    cases h' with
    | evaluate _ hp' hr' =>
      cases hp.symm.trans hp'
      cases hr.symm.trans hr'
      exact ⟨rfl, rfl⟩

/-- The answer of an evaluation is never one that could be given without it. -/
theorem Begins.not_quiet (h : Begins r s t s₁) : ¬(s.perform rounds r).1.Quiet := by
  cases hrun : t.run rounds s₁.machine with
  | error e m =>
    rw [h.perform_of_error hrun]
    cases e <;> exact id
  | ok a m =>
    cases h with
    | run hl hp hr =>
      rw [Begins.perform_run (.run hl hp hr) hrun]
      cases m.sink.flushFails <;> exact id
    | evaluate hl hp hr =>
      rw [Begins.perform_evaluate (.evaluate hl hp hr) hrun]
      exact id

/-- A request leaves the machine as its evaluation does, but for flushing. -/
theorem Begins.session_eq (h : Begins r s t s₁) :
    (s.perform rounds r).2 = { s₁ with machine := { (t.run rounds).after s₁.machine with
      flushes := (s.perform rounds r).2.machine.flushes } } := by
  cases hrun : t.run rounds s₁.machine with
  | error e m => rw [h.perform_of_error hrun, after_of_error hrun]
  | ok a m =>
    rw [after_of_ok hrun]
    cases h with
    | run hl hp hr =>
      rw [Begins.perform_run (.run hl hp hr) hrun]
      rfl
    | evaluate hl hp hr => rw [Begins.perform_evaluate (.evaluate hl hp hr) hrun]

/-- The errors of the program that a request ends with are those of its evaluation. -/
theorem Begins.failed_iff (h : Begins r s t s₁) {line : Nat} {problem : RuntimeProblem} :
    (s.perform rounds r).1 = .failed (.failed (.program line problem)) ↔
      Fails rounds t s₁.machine (.program line problem) := by
  rw [Fails]
  cases hrun : t.run rounds s₁.machine with
  | error e m =>
    rw [h.perform_of_error hrun]
    cases e <;> simp [halted]
  | ok a m =>
    cases h with
    | run hl hp hr =>
      rw [Begins.perform_run (.run hl hp hr) hrun]
      cases m.sink.flushFails <;> simp
    | evaluate hl hp hr =>
      rw [Begins.perform_evaluate (.evaluate hl hp hr) hrun]
      simp

/-- A source with lexical or syntax errors is refused. -/
theorem perform_of_malformed {source : String} {errors : List Diagnostic}
    (h : parse Parse.parseProgram source s = .error (.error (.malformed errors)) s₁) :
    s.perform rounds (.run source) = (.failed (.malformed errors), s₁) := by
  rw [perform, run, parseProgram, bind_of_error' h]
  rfl

/-- A program that breaks static rules is refused. -/
theorem perform_of_misscoped {source : String} {program : List Stmt} {k : Nat}
    {errors : List ScopeError} (hl : lexicalErrors source = [])
    (hp : Parse.parseProgram (tokens source) s.nextId = ⟨.ok program, k⟩)
    (hr : resolveProgram program = .error errors) :
    s.perform rounds (.run source) = (.failed (.misscoped errors), { s with nextId := k }) := by
  rw [perform, run, parseProgram, bind_of_ok' (parse_of_ok hl hp), hr]
  rfl

/-- A source is refused before or after it is parsed, or the distances of its tree are
found. -/
theorem attempt_cases {α β : Type} (rule : List Token → Nat → Parse.Outcome α)
    (resolve : α → Except (List ScopeError) Distances) (go : α → Step β) (f : β → Answer)
    (source : String) (s : Session) :
    let attempt := conclude f
      ((parse rule source >>= fun tree => record (resolve tree) >>= fun _ => go tree) s)
    (∃ errors s₁, s₁ = { s with nextId := (rule (tokens source) s.nextId).nextId } ∧
      parse rule source s = .error (.error (.malformed errors)) s₁ ∧
      attempt = (.failed (.malformed errors), s₁)) ∨
    (∃ tree k errors, lexicalErrors source = [] ∧
      rule (tokens source) s.nextId = ⟨.ok tree, k⟩ ∧ resolve tree = .error errors ∧
      attempt = (.failed (.misscoped errors), { s with nextId := k })) ∨
    ∃ tree k ds, lexicalErrors source = [] ∧
      rule (tokens source) s.nextId = ⟨.ok tree, k⟩ ∧ resolve tree = .ok ds := by
  intro attempt
  obtain ⟨tree, k, hl, hp⟩ | ⟨errors, h⟩ := parse_cases rule source s
  · cases hr : resolve tree with
    | ok ds => exact .inr (.inr ⟨tree, k, ds, hl, hp, hr⟩)
    | error errors =>
      refine .inr (.inl ⟨tree, k, errors, hl, hp, hr, ?_⟩)
      show conclude f _ = _
      rw [bind_of_ok' (parse_of_ok hl hp), hr]
      rfl
  · refine .inl ⟨errors, _, rfl, h, ?_⟩
    show conclude f _ = _
    rw [bind_of_error' h]
    rfl

/-- A program is refused before or after it is parsed, or it is run. -/
theorem run_cases (rounds : Nat) (s : Session) (source : String) :
    (∃ errors s₁, s₁ = { s with nextId := (Parse.parseProgram (tokens source) s.nextId).nextId } ∧
      parse Parse.parseProgram source s = .error (.error (.malformed errors)) s₁ ∧
      s.perform rounds (.run source) = (.failed (.malformed errors), s₁)) ∨
    (∃ program k errors, lexicalErrors source = [] ∧
      Parse.parseProgram (tokens source) s.nextId = ⟨.ok program, k⟩ ∧
      resolveProgram program = .error errors ∧
      s.perform rounds (.run source) = (.failed (.misscoped errors), { s with nextId := k })) ∨
    ∃ program k ds, Begins (.run source) s (.stmts program) ⟨s.machine.record ds, k⟩ := by
  obtain h | h | ⟨program, k, ds, hl, hp, hr⟩ := attempt_cases Parse.parseProgram resolveProgram
    (fun program => onMachine (interpret rounds program)) (fun _ => .done) source s
  · exact .inl h
  · exact .inr (.inl h)
  · exact .inr (.inr ⟨program, k, ds, .run hl hp hr⟩)

/-- An expression is refused before or after it is parsed, or it is evaluated. -/
theorem evaluate_cases (rounds : Nat) (s : Session) (source : String) :
    (∃ errors s₁, s₁ = { s with nextId := (Parse.parseExpression (tokens source) s.nextId).nextId } ∧
      parse Parse.parseExpression source s = .error (.error (.malformed errors)) s₁ ∧
      s.perform rounds (.evaluate source) = (.failed (.malformed errors), s₁)) ∨
    (∃ e k errors, lexicalErrors source = [] ∧
      Parse.parseExpression (tokens source) s.nextId = ⟨.ok e, k⟩ ∧
      resolveExpression e = .error errors ∧
      s.perform rounds (.evaluate source) = (.failed (.misscoped errors), { s with nextId := k })) ∨
    ∃ e k ds, Begins (.evaluate source) s (.expr e) ⟨s.machine.record ds, k⟩ := by
  obtain h | h | ⟨e, k, ds, hl, hp, hr⟩ := attempt_cases Parse.parseExpression resolveExpression
    (fun e => onMachine (Lox.evaluate rounds e)) .value source s
  · exact .inl h
  · exact .inr (.inl h)
  · exact .inr (.inr ⟨e, k, ds, .evaluate hl hp hr⟩)

/-- What is refused only uses up the ids of its tree. -/
theorem attempt_quiet {α β : Type} (rule : List Token → Nat → Parse.Outcome α)
    (resolve : α → Except (List ScopeError) Distances) (go : α → Step β) (f : β → Answer)
    (source : String) (s : Session) (hid : s.nextId ≤ (rule (tokens source) s.nextId).nextId) :
    let attempt := conclude f
      ((parse rule source >>= fun tree => record (resolve tree) >>= fun _ => go tree) s)
    (∃ a k, attempt = (a, { s with nextId := k }) ∧ s.nextId ≤ k ∧ a.Quiet) ∨
    ∃ tree k ds, lexicalErrors source = [] ∧
      rule (tokens source) s.nextId = ⟨.ok tree, k⟩ ∧ resolve tree = .ok ds := by
  obtain ⟨errors, _, rfl, -, h⟩ | ⟨tree, k, errors, -, hp, -, h⟩ | hbegins :=
    attempt_cases rule resolve go f source s
  · exact .inl ⟨_, _, h, hid, trivial⟩
  · rw [hp] at hid
    exact .inl ⟨_, _, h, hid, trivial⟩
  · exact .inr hbegins

/-- Parsing alone uses up the ids of the tree. -/
theorem parsed_quiet {α : Type} (rule : List Token → Nat → Parse.Outcome α) (source : String)
    (s : Session) (hid : s.nextId ≤ (rule (tokens source) s.nextId).nextId) :
    ∃ a k, conclude (fun _ => .parsed) (parse rule source s) = (a, { s with nextId := k }) ∧
      s.nextId ≤ k ∧ a.Quiet := by
  obtain ⟨tree, k, hl, hp⟩ | ⟨errors, h⟩ := parse_cases rule source s
  · rw [hp] at hid
    refine ⟨.parsed, k, ?_, hid, trivial⟩
    rw [parse_of_ok hl hp]
    rfl
  · refine ⟨.failed (.malformed errors), _, ?_, hid, trivial⟩
    rw [h]
    rfl

/-- A request begins an evaluation, or only uses up ids. -/
theorem perform_cases (rounds : Nat) (s : Session) (r : Request) :
    (∃ t s₁, Begins r s t s₁) ∨
      ∃ a k, s.perform rounds r = (a, { s with nextId := k }) ∧ s.nextId ≤ k ∧ a.Quiet := by
  cases r with
  | run source =>
    obtain h | ⟨program, k, ds, hl, hp, hr⟩ := attempt_quiet Parse.parseProgram resolveProgram
      (fun program => onMachine (interpret rounds program)) (fun _ => .done) source s
      (nextId_le_parseProgram ..)
    · exact .inr h
    · exact .inl ⟨_, _, .run hl hp hr⟩
  | evaluate source =>
    obtain h | ⟨e, k, ds, hl, hp, hr⟩ := attempt_quiet Parse.parseExpression resolveExpression
      (fun e => onMachine (Lox.evaluate rounds e)) .value source s (nextId_le_parseExpression ..)
    · exact .inr h
    · exact .inl ⟨_, _, .evaluate hl hp hr⟩
  | parseProgram source =>
    exact .inr (parsed_quiet Parse.parseProgram source s (nextId_le_parseProgram ..))
  | parseExpression source =>
    exact .inr (parsed_quiet Parse.parseExpression source s (nextId_le_parseExpression ..))
  | readExpression source =>
    cases hr : Form.read source s.nextId with
    | ok found =>
      obtain ⟨e, k⟩ := found
      refine .inr ⟨.parsed, k, ?_, nextId_le_read hr, trivial⟩
      rw [perform, readExpression, hr]
      rfl
    | error d =>
      refine .inr ⟨.failed (.malformed [d]), s.nextId, ?_, Nat.le_refl _, trivial⟩
      rw [perform, readExpression, hr]
      rfl

end Session
end Lox
