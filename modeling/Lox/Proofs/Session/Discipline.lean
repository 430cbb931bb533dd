import Lox.Proofs.Session.History
import Lox.Proofs.Value.Operators

/-
  Frames and call depth

  However an evaluation ends, the machine is in the frame and at the depth that
  it began with. On the way the depth counts the calls that are running; a call
  that has passed its other checks overflows the stack exactly where one more
  would be too many (`depth_discipline`).
-/

namespace Lox

open Eval

/-- The machine is where it was: in the same frame, inside as many calls. -/
def Machine.SamePlace (m m' : Machine) : Prop := m'.frame = m.frame ∧ m'.depth = m.depth

theorem Machine.Keeps.samePlace {m m' : Machine} (h : m.Keeps m') : m.SamePlace m' :=
  ⟨h.frame, h.depth⟩

/-- A call that may be made except that calls are nested deeply enough. -/
def Overflows (t : Task) (m : Machine) (line : Nat) : Prop :=
  ∃ paren callee arguments, t = .call paren callee arguments ∧ paren.line = line ∧
    callee.arity? = some arguments.length ∧ maxCallDepth < m.depth + 1

variable {rounds : Nat} {t : Task} {m : Machine} {line : Nat}

/-- Only calls overflow the stack. -/
theorem raises_stackOverflow_iff :
    Raises rounds t m (.program line .stackOverflow) ↔ Overflows t m line := by
  constructor
  · generalize he : Halt.program line .stackOverflow = e
    intro h
    cases h with
    | overflow ha hd =>
      cases he
      exact ⟨_, _, _, rfl, rfl, ha, Nat.lt_succ_of_le hd⟩
    -- operators and declarations fail with problems of their own
    | unary _ hp =>
      cases he
      obtain h | h := Value.problem_of_unary hp
      · simp [RuntimeProblem.ofOperands] at h
      · cases h.2
    | binary _ _ hp =>
      cases he
      obtain h | h := Value.problem_of_binary hp
      · simp [RuntimeProblem.ofOperands] at h
      · cases h.2
    | baseClass h | derivedClass _ h =>
      subst he
      cases error_of_declareClass h
    | _ => cases he
  · rintro ⟨paren, callee, arguments, rfl, rfl, ha, hd⟩
    exact .overflow ha (Nat.le_of_lt_succ hd)

/-- A stack overflows where a call is reached that overflows it. -/
theorem fails_stackOverflow_iff (hm : m.depth ≤ maxCallDepth) :
    Fails rounds t m (.program line .stackOverflow) ↔
      ∃ n t' m', Reaches rounds t m n t' m' ∧ Overflows t' m' line := by
  simp only [fails_iff hm, raises_stackOverflow_iff]

namespace Session

theorem Begins.samePlace {r : Request} {s s₁ : Session} (h : Begins r s t s₁) :
    s.machine.SamePlace s₁.machine := by
  cases h <;> exact ⟨rfl, rfl⟩

/-- A request leaves the machine where it was. -/
theorem samePlace_perform (rounds : Nat) (s : Session) (r : Request) :
    s.machine.SamePlace (s.perform rounds r).2.machine := by
  obtain ⟨t, s₁, h⟩ | ⟨a, k, h, -⟩ := perform_cases rounds s r
  · have hs := (t.steady_run rounds s₁.machine).samePlace
    rw [h.session_eq]
    exact ⟨hs.1.trans h.samePlace.1, hs.2.trans h.samePlace.2⟩
  · rw [h]
    exact ⟨rfl, rfl⟩

theorem samePlace_interpret (rounds : Nat) (program : List Stmt) (m : Machine) :
    m.SamePlace ((interpret rounds program).after m) := by
  rw [after_interpret]
  exact ((Task.stmts program).steady_run rounds m).samePlace

theorem samePlace_afterAll (rounds : Nat) (rs : List Request) (s : Session) :
    s.machine.SamePlace (s.afterAll rounds rs).machine := by
  induction rs generalizing s with
  | nil => exact ⟨rfl, rfl⟩
  | cons r rs ih =>
    have h := samePlace_perform rounds s r
    have h' := ih (s.perform rounds r).2
    exact ⟨h'.1.trans h.1, h'.2.trans h.2⟩

/-- A request overflows the stack where it comes to a call that does. -/
theorem overflow_iff (s : Session) (r : Request) (hs : s.machine.depth ≤ maxCallDepth) :
    (s.perform rounds r).1 = .failed (.failed (.program line .stackOverflow)) ↔
      ∃ n t m, Comes rounds r s n t m ∧ Overflows t m line := by
  obtain ⟨t, s₁, h⟩ | ⟨a, k, h, -, ha⟩ := perform_cases rounds s r
  · rw [h.failed_iff, fails_stackOverflow_iff (h.samePlace.2.symm ▸ hs)]
    constructor
    · rintro ⟨n, t', m', hreach, ho⟩
      exact ⟨n, t', m', ⟨t, s₁, h, hreach⟩, ho⟩
    · rintro ⟨n, t', m', ⟨t₂, s₂, h₂, hreach⟩, ho⟩
      -- what the request comes to lies in the only evaluation that it begins
      obtain ⟨rfl, rfl⟩ := h.unique h₂
      exact ⟨n, t', m', hreach, ho⟩
  · constructor
    · intro hfailed
      rw [h] at hfailed
      obtain rfl : a = _ := hfailed
      exact absurd ha id
    · rintro ⟨n, t', m', ⟨t₂, s₂, h₂, -⟩, -⟩
      exact absurd (show (s.perform rounds r).1.Quiet from h ▸ ha) h₂.not_quiet

/-- Frames and depths, for every machine that has not gone too deep. Evaluations,
programs and requests leave the machine where it was, however they end; on the
way the depth has grown by the calls that are running, and never beyond the
limit; the stack overflows exactly where a call that passes its other checks
would be one too many. So between requests a session is in the global frame,
outside all calls. -/
theorem depth_discipline (rounds : Nat) (s : Session) (hs : s.machine.depth ≤ maxCallDepth) :
    (∀ t : Task, s.machine.SamePlace ((t.run rounds).after s.machine)) ∧
    (∀ program, s.machine.SamePlace ((interpret rounds program).after s.machine)) ∧
    (∀ r, s.machine.SamePlace (s.perform rounds r).2.machine) ∧
    (∀ t n t' m', Reaches rounds t s.machine n t' m' →
      m'.depth = s.machine.depth + n ∧ m'.depth ≤ maxCallDepth) ∧
    (∀ r n t m, Comes rounds r s n t m → m.depth = s.machine.depth + n ∧ m.depth ≤ maxCallDepth) ∧
    (∀ t line, Fails rounds t s.machine (.program line .stackOverflow) ↔
      ∃ n t' m', Reaches rounds t s.machine n t' m' ∧ Overflows t' m' line) ∧
    (∀ r line, (s.perform rounds r).1 = .failed (.failed (.program line .stackOverflow)) ↔
      ∃ n t m, Comes rounds r s n t m ∧ Overflows t m line) ∧
    ∀ sink clock rs, ((start sink clock).afterAll rounds rs).machine.frame = Heap.globals ∧
      ((start sink clock).afterAll rounds rs).machine.depth = 0 := by
  refine ⟨fun t => (t.steady_run rounds _).samePlace,
    fun program => samePlace_interpret rounds program _, samePlace_perform rounds s,
    fun t n t' m' h => ⟨h.depth_eq, h.depth_le hs⟩, ?_, fun t line => fails_stackOverflow_iff hs,
    fun r line => overflow_iff s r hs, fun sink clock rs => samePlace_afterAll rounds rs _⟩
  rintro r n t m ⟨t₀, s₀, h, hreach⟩
  have hplace := h.samePlace.2
  exact ⟨hreach.depth_eq.trans (by rw [hplace]), hreach.depth_le (hplace ▸ hs)⟩

/-- At the limit even the clock cannot be called. -/
theorem depth_discipline_atLimit :
    let m : Machine := { Machine.start .unlimited (.ticking 0) with depth := 2048 }
    m.depth ≤ maxCallDepth ∧
      Fails 0 (.call ⟨.rightParen, ")", 3⟩ .clock []) m (.program 3 .stackOverflow) := by
  intro m
  have hm : m.depth ≤ maxCallDepth := Nat.le_refl _
  refine ⟨hm, ((depth_discipline 0 ⟨m, 0⟩ hm).2.2.2.2.2.1 _ _).2 ⟨0, _, m, .here, ?_⟩⟩
  exact ⟨_, _, _, rfl, rfl, rfl, Nat.lt_succ_self _⟩

end Session
end Lox
