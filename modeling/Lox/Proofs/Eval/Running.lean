import Lox.Proofs.Eval.Methods

/-
  Calls that run a function

  A call that passes its checks runs a function, or constructs an object and runs the
  `init` method of its class, if there is one. What it yields is what the function does,
  or else the object (`CallRuns.call_of_ok`); it fails as the function does
  (`CallRuns.call_of_error`), and is back in its place in both cases.
-/

namespace Lox

open Eval

/-- `CallRuns rounds paren callee arguments m k m'`: the call, begun with `m`, passes its checks
and runs the function `k` with the machine `m'`. -/
def CallRuns (rounds : Nat) (paren : Token) (callee : Value) (arguments : List Value) (m : Machine)
    (k : Closure) (m' : Machine) : Prop :=
  ∃ m₁, Enters rounds (.call paren callee arguments) m (.invoke callee arguments) m₁ ∧
    Enters rounds (.invoke callee arguments) m₁ (.function k arguments) m'

/-- What a call yields if its function yields `v`: a class yields the object that it made. -/
def Value.callResult (callee : Value) (object : Nat) (v : Value) : Value :=
  match callee with
  | .cls _ c => .object object c
  | _ => v

namespace CallRuns

variable {rounds : Nat} {paren : Token} {callee : Value} {arguments : List Value}
  {m m₁ m₂ : Machine} {k : Closure}

/-- What is called is the function, or a class whose object the function is bound to. -/
theorem cases (h : CallRuns rounds paren callee arguments m k m₁) :
    (∃ id, callee = .function id k ∧ m₁ = { m with depth := m.depth + 1 }) ∨
      ∃ id c method, callee = .cls id c ∧ c.findMethod? Class.initializerName = some method ∧
        Eval.bind method m.heap.objects.size c
          { m with depth := m.depth + 1, heap := m.heap.newObject.2 } = .ok k m₁ := by
  obtain ⟨_, hinvoke, hfunction⟩ := h
  cases hinvoke with
  | invoke ha hd =>
    cases hfunction with
    | function => exact .inl ⟨_, rfl, rfl⟩
    | initializer hc hn hb =>
      cases hn
      exact .inr ⟨_, _, _, rfl, hc, hb⟩

/-- The call passed its checks. -/
theorem checked (h : CallRuns rounds paren callee arguments m k m₁) :
    callee.arity? = some arguments.length ∧ m.depth < maxCallDepth := by
  obtain ⟨_, hinvoke, -⟩ := h
  cases hinvoke with
  | invoke ha hd => exact ⟨ha, hd⟩

theorem frame (h : CallRuns rounds paren callee arguments m k m₁) : m₁.frame = m.frame := by
  rcases h.cases with ⟨id, -, rfl⟩ | ⟨id, c, method, -, -, hb⟩
  · rfl
  · exact ((steady.boundClosure _ _ _).of_ok hb).frame

theorem depth (h : CallRuns rounds paren callee arguments m k m₁) : m₁.depth = m.depth + 1 := by
  rcases h.cases with ⟨id, -, rfl⟩ | ⟨id, c, method, -, -, hb⟩
  · rfl
  · exact ((steady.boundClosure _ _ _).of_ok hb).depth

/-- After the body of the function the call is back where it began. -/
theorem back (h : CallRuns rounds paren callee arguments m k m₁) (hd : m₂.depth = m₁.depth) :
    ({ m₂ with frame := m₁.frame, depth := m₂.depth - 1 } : Machine) =
      { m₂ with frame := m.frame, depth := m.depth } := by
  rw [h.frame, hd, h.depth]
  rfl

/-- A call yields what its function does, or the object that it made. -/
theorem call_of_ok {v : Value} (h : CallRuns rounds paren callee arguments m k m₁)
    (hrun : (Task.function k arguments).run rounds m₁ = .ok v m₂) :
    (Task.call paren callee arguments).run rounds m =
      .ok (callee.callResult m.heap.objects.size v) { m₂ with depth := m₂.depth - 1 } := by
  obtain ⟨ha, hd⟩ := h.checked
  refine (call_of_checked ha hd).trans (oneDeeper_of_ok ?_)
  rcases h.cases with ⟨id, rfl, rfl⟩ | ⟨id, c, method, rfl, hc, hb⟩
  · exact hrun
  · exact (construct_of_some hc rfl hb).trans (bind_of_ok hrun)

theorem call_of_error {e : Halt RuntimeError} (h : CallRuns rounds paren callee arguments m k m₁)
    (hrun : (Task.function k arguments).run rounds m₁ = .error e m₂) :
    (Task.call paren callee arguments).run rounds m =
      .error e { m₂ with depth := m₂.depth - 1 } := by
  obtain ⟨ha, hd⟩ := h.checked
  refine (call_of_checked ha hd).trans (oneDeeper_of_error ?_)
  rcases h.cases with ⟨id, rfl, rfl⟩ | ⟨id, c, method, rfl, hc, hb⟩
  · exact hrun
  · exact (construct_of_some hc rfl hb).trans (bind_of_error hrun)

end CallRuns

end Lox
