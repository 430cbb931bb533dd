import Mathlib
import Lox.Eval.Stmt

/-
  Running steps — sequences, and what the elementary steps come to

  A sequence of steps fails where one of them does. Steps that look something
  up are described by what they look up, so that nothing else has to open their
  definitions.
-/

namespace Lox
namespace Eval

/-! ## One step after another -/

section Run

variable {α β : Type} {x : Eval α} {f : α → Eval β} {m m' : Machine}

theorem bind_of_ok {a : α} {n : Machine} (h : x m = .ok a n) : (x >>= f) m = f a n := by
  show EStateM.bind x f m = f a n
  rw [EStateM.bind, h]

theorem bind_of_error {e : Halt RuntimeError} (h : x m = .error e m') :
    (x >>= f) m = .error e m' := by
  show EStateM.bind x f m = _
  rw [EStateM.bind, h]

theorem ok_of_bind {b : β} (h : (x >>= f) m = .ok b m') :
    ∃ a m₁, x m = .ok a m₁ ∧ f a m₁ = .ok b m' := by
  cases hx : x m with
  | ok a m₁ => exact ⟨a, m₁, rfl, (bind_of_ok hx).symm.trans h⟩
  | error e m₁ =>
    rw [bind_of_error hx] at h
    cases h

/-- A sequence fails in its first step or in its second. -/
theorem error_of_bind {e : Halt RuntimeError} (h : (x >>= f) m = .error e m') :
    x m = .error e m' ∨ ∃ a m₁, x m = .ok a m₁ ∧ f a m₁ = .error e m' := by
  cases hx : x m with
  | ok a m₁ => exact .inr ⟨a, m₁, rfl, (bind_of_ok hx).symm.trans h⟩
  | error e' m₁ => exact .inl (by rw [bind_of_error hx] at h; cases h; rfl)

theorem ite_of_true {y z : Eval α} {b : Bool} (h : b = true) :
    (if b = true then y else z) m = y m := by
  rw [if_pos h]

theorem ite_of_false {y z : Eval α} {b : Bool} (h : b = false) :
    (if b = true then y else z) m = z m := by
  rw [if_neg (by simp [h])]

/-- The machine after a step, however the step ends. -/
def after (x : Eval α) (m : Machine) : Machine :=
  match x m with
  | .ok _ m' => m'
  | .error _ m' => m'

theorem after_of_ok {a : α} (h : x m = .ok a m') : x.after m = m' := by
  rw [after, h]

theorem after_of_error {e : Halt RuntimeError} (h : x m = .error e m') : x.after m = m' := by
  rw [after, h]

end Run

/-! ## Frames and levels -/

section Brackets

variable {α : Type} {x : Eval α} {f : FrameId} {m m' : Machine}

theorem inFrame_of_ok {a : α} (h : x { m with frame := f } = .ok a m') :
    inFrame f x m = .ok a { m' with frame := m.frame } := by
  rw [inFrame, h]

theorem inFrame_of_error {e : Halt RuntimeError} (h : x { m with frame := f } = .error e m') :
    inFrame f x m = .error e { m' with frame := m.frame } := by
  rw [inFrame, h]

theorem oneDeeper_of_ok {a : α} (h : x { m with depth := m.depth + 1 } = .ok a m') :
    oneDeeper x m = .ok a { m' with depth := m'.depth - 1 } := by
  rw [oneDeeper, h]

theorem oneDeeper_of_error {e : Halt RuntimeError}
    (h : x { m with depth := m.depth + 1 } = .error e m') :
    oneDeeper x m = .error e { m' with depth := m'.depth - 1 } := by
  rw [oneDeeper, h]

end Brackets

/-! ## Variables -/

end Eval

/-- The value that a use of a name reads. -/
def Machine.lookup? (m : Machine) (id : Nat) (name : String) : Option Value :=
  match m.distances[id]? with
  | some distance => m.heap.getAt? m.frame distance name
  | none => m.heap.get? Heap.globals name

/-- The frame that a use of a name assigns in. -/
def Machine.holder? (m : Machine) (id : Nat) (name : String) : Option FrameId :=
  match m.distances[id]? with
  | some distance => m.heap.holderAt? m.frame distance name
  | none => m.heap.holder? Heap.globals name

/-- The superclass, and the object with its class, that a `super` looks up. -/
def Machine.super? (m : Machine) (id : Nat) : Option (Class × Nat × Class) :=
  match m.distances[id]? with
  | some (distance + 1) =>
    match m.heap.getAt? m.frame (distance + 1) superName,
      m.heap.getAt? m.frame distance selfName with
    | some (.cls _ superclass), some (.object object c) => some (superclass, object, c)
    | _, _ => none
  | _ => none

/-- What a `super` looks up lies at its distance and one frame further in. -/
theorem Machine.super?_eq_some {m : Machine} {id object : Nat} {superclass c : Class}
    (h : m.super? id = some (superclass, object, c)) :
    ∃ distance i, m.distances[id]? = some (distance + 1) ∧
      m.heap.getAt? m.frame (distance + 1) superName = some (.cls i superclass) ∧
      m.heap.getAt? m.frame distance selfName = some (.object object c) := by
  rw [Machine.super?] at h
  split at h
  · split at h
    · rename_i hd _ _ _ _ _ _ hsuper hself
      cases h
      exact ⟨_, _, hd, hsuper, hself⟩
    · cases h
  · cases h

namespace Eval

section Lookup

variable {m : Machine} {id : Nat} {name : Token}

theorem readVariable_eq (id : Nat) (name : Token) (m : Machine) :
    readVariable id name m = (m.lookup? id name.lexeme).elim
      (Eval.fail name.line (.undefinedVariable name.lexeme) m) fun v => .ok v m := by
  rw [readVariable, Machine.lookup?]
  cases m.distances[id]? with
  | none =>
    dsimp only
    cases m.heap.get? Heap.globals name.lexeme <;> rfl
  | some d =>
    dsimp only
    cases m.heap.getAt? m.frame d name.lexeme <;> rfl

theorem readVariable_of_some {v : Value} (h : m.lookup? id name.lexeme = some v) :
    readVariable id name m = .ok v m := by
  rw [readVariable_eq, h]
  rfl

theorem readVariable_of_none (h : m.lookup? id name.lexeme = none) :
    readVariable id name m = .error (.error (.program name.line
      (.undefinedVariable name.lexeme))) m := by
  rw [readVariable_eq, h]
  rfl

theorem writeVariable_of_some {f : FrameId} {v : Value} (h : m.holder? id name.lexeme = some f) :
    writeVariable id name v m = .ok () { m with heap := m.heap.define f name.lexeme v } := by
  have hw : writeVariable id name v m = assignIn (m.holder? id name.lexeme) name v m := rfl
  rw [hw, h]
  rfl

theorem writeVariable_of_none {v : Value} (h : m.holder? id name.lexeme = none) :
    writeVariable id name v m = .error (.error (.program name.line
      (.undefinedVariable name.lexeme))) m := by
  have hw : writeVariable id name v m = assignIn (m.holder? id name.lexeme) name v m := rfl
  rw [hw, h]
  rfl

/-! ## Properties -/

theorem getProperty_of_not_object {v : Value} (h : ∀ object c, v ≠ .object object c) :
    getProperty v name m = .error (.error (.program name.line .noProperties)) m := by
  cases v with
  | object object c => exact absurd rfl (h object c)
  | _ => rfl

theorem getProperty_of_field {object : Nat} {c : Class} {v : Value}
    (h : (m.heap.fields object).find? name.lexeme = some v) :
    getProperty (.object object c) name m = .ok v m := by
  rw [getProperty]
  simp only [h]

theorem getProperty_of_method {object : Nat} {c : Class} {method : Closure}
    (h : (m.heap.fields object).find? name.lexeme = none)
    (hc : c.findMethod? name.lexeme = some method) :
    getProperty (.object object c) name m = boundMethod method object c m := by
  rw [getProperty]
  simp only [h, hc]

theorem getProperty_of_none {object : Nat} {c : Class}
    (h : (m.heap.fields object).find? name.lexeme = none)
    (hc : c.findMethod? name.lexeme = none) :
    getProperty (.object object c) name m =
      .error (.error (.program name.line (.undefinedProperty name.lexeme))) m := by
  rw [getProperty]
  simp only [h, hc]
  rfl

/-- A `super` is described by what it looks up. -/
theorem superMethod_eq (id : Nat) (keyword method : Token) (m : Machine) :
    superMethod id keyword method m = match m.super? id with
      | some (superclass, object, c) =>
        match superclass.findMethod? method.lexeme with
        | some found => boundMethod found object c m
        | none => fail method.line (.undefinedProperty method.lexeme) m
      | none => fail keyword.line .unresolvedSuper m := by
  rw [superMethod, Machine.super?]
  cases m.distances[id]? with
  | none => rfl
  | some distance =>
    simp only [Option.bind_eq_bind, Option.bind_some]
    cases distance with
    | zero => split <;> simp_all
    | succ distance =>
      dsimp only
      generalize m.heap.getAt? m.frame (distance + 1) superName = superclass?
      generalize m.heap.getAt? m.frame distance selfName = object?
      -- only a class and an object are made use of
      obtain _ | (_ | _ | _ | _ | _ | _ | _ | _) := superclass? <;>
        obtain _ | (_ | _ | _ | _ | _ | _ | _ | _) := object? <;> rfl

theorem superMethod_of_method {keyword method : Token} {superclass c : Class} {object : Nat}
    {found : Closure} (h : m.super? id = some (superclass, object, c))
    (hf : superclass.findMethod? method.lexeme = some found) :
    superMethod id keyword method m = boundMethod found object c m := by
  rw [superMethod_eq]
  simp only [h, hf]

theorem superMethod_of_no_method {keyword method : Token} {superclass c : Class} {object : Nat}
    (h : m.super? id = some (superclass, object, c))
    (hf : superclass.findMethod? method.lexeme = none) :
    superMethod id keyword method m =
      .error (.error (.program method.line (.undefinedProperty method.lexeme))) m := by
  rw [superMethod_eq]
  simp only [h, hf]
  rfl

theorem superMethod_of_none {keyword method : Token} (h : m.super? id = none) :
    superMethod id keyword method m =
      .error (.error (.program keyword.line .unresolvedSuper)) m := by
  rw [superMethod_eq]
  simp only [h]
  rfl

end Lookup

/-! ## Calls -/

section Call

variable {body : List Stmt → Eval Flow} {paren : Token} {callee : Value}
  {arguments : List Value} {m : Machine}

theorem call_of_not_callable (h : callee.arity? = none) :
    call body paren callee arguments m = .error (.error (.program paren.line .notCallable)) m := by
  rw [call, h]
  rfl

theorem call_of_arity_ne {arity : Nat} (h : callee.arity? = some arity)
    (hl : arguments.length ≠ arity) :
    call body paren callee arguments m =
      .error (.error (.program paren.line (.wrongArity arity arguments.length))) m := by
  rw [call, h]
  exact if_pos hl

theorem call_of_too_deep (h : callee.arity? = some arguments.length)
    (hd : maxCallDepth ≤ m.depth) :
    call body paren callee arguments m =
      .error (.error (.program paren.line .stackOverflow)) m := by
  rw [call, h]
  exact (if_neg (fun hl => hl rfl)).trans (if_pos hd)

theorem call_of_checked (h : callee.arity? = some arguments.length) (hd : m.depth < maxCallDepth) :
    call body paren callee arguments m = oneDeeper (invoke body callee arguments) m := by
  rw [call, h]
  exact (if_neg (fun hl => hl rfl)).trans (if_neg (Nat.not_le.2 hd))

/-- A call fails in one of its checks, with the machine as it was, or the callee
runs one level deeper. -/
theorem call_cases (body : List Stmt → Eval Flow) (paren : Token) (callee : Value)
    (arguments : List Value) (m : Machine) :
    (∃ problem, call body paren callee arguments m =
        .error (.error (.program paren.line problem)) m) ∨
      callee.arity? = some arguments.length ∧ m.depth < maxCallDepth := by
  cases h : callee.arity? with
  | none => exact .inl ⟨_, call_of_not_callable h⟩
  | some arity =>
    by_cases hl : arguments.length = arity
    · subst hl
      rcases Nat.lt_or_ge m.depth maxCallDepth with hd | hd
      · exact .inr ⟨rfl, hd⟩
      · exact .inl ⟨_, call_of_too_deep h hd⟩
    · exact .inl ⟨_, call_of_arity_ne h hl⟩

/-- An object of a class without `init`. -/
theorem construct_of_none {c : Class} (h : c.findMethod? Class.initializerName = none) :
    construct body c arguments m =
      .ok (.object m.heap.objects.size c) { m with heap := m.heap.newObject.2 } := by
  refine (bind_of_ok (n := { m with heap := m.heap.newObject.2 }) rfl).trans ?_
  simp only [h]
  rfl

/-- An object of a class with `init`, which is run as a method of the object. -/
theorem construct_of_some {c : Class} {method closure : Closure} {object : Nat} {m₁ m₂ : Machine}
    (h : c.findMethod? Class.initializerName = some method) (hn : newObject m = .ok object m₁)
    (hb : Eval.bind method object c m₁ = .ok closure m₂) :
    construct body c arguments m =
      (do let _ ← callFunction body closure arguments; pure (Value.object object c)) m₂ := by
  refine (bind_of_ok hn).trans ?_
  simp only [h]
  exact bind_of_ok hb

end Call

end Eval
end Lox
