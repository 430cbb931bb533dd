import Lox.Proofs.Session.Returns

/-
  Construction — objects that calls of classes yield

  The call of a class makes an object of that class, which no value has been before, runs
  the `init` that the class has or inherits, bound to the object, and yields the object,
  unless the body of `init` fails. A bound `init` can be called again at any time, and
  yields the object that it is bound to (`construction_yields_fresh_instance`).
-/

namespace Lox

open Eval

/-! ## Arguments of classes -/

/-- A class takes as many arguments as the nearest `init` has parameters, from its own
declaration on, and none if there is no `init`. -/
def Class.Takes (c : Class) (n : Nat) : Prop :=
  (∃ init, c.Finds initializerName init ∧ n = init.declaration.parameters.length) ∨
    c.Lacks initializerName ∧ n = 0

theorem Class.Declared.takes_arity {c : Class} (hc : c.Declared) : c.Takes c.arity := by
  rw [arity]
  obtain ⟨init, hfind, hfinds⟩ | ⟨hnone, hlacks⟩ := hc.finds_or_lacks initializerName
  · rw [hfind]
    exact .inl ⟨init, hfinds, rfl⟩
  · rw [hnone]
    exact .inr ⟨hlacks, rfl⟩

/-- The callee and the arguments of a call are evaluated to these values, which leaves `m`. -/
def Evaluated (rounds : Nat) (callee : Expr) (es : List Expr) (m₀ : Machine) (f : Value)
    (arguments : List Value) (m : Machine) : Prop :=
  ∃ m₁, evaluate rounds callee m₀ = .ok f m₁ ∧ (Task.operands es).run rounds m₁ = .ok arguments m

/-- The call is refused for the number of its arguments, before anything else is done. -/
structure Miscounted (rounds : Nat) (paren : Token) (callee : Value) (arguments : List Value)
    (arity : Nat) (m : Machine) : Prop where
  run : (Task.call paren callee arguments).run rounds m =
    .error (.error (.program paren.line (.wrongArity arity arguments.length))) m
  message : (RuntimeProblem.wrongArity arity arguments.length).message =
    "Expected " ++ toString arity ++ " arguments but got " ++ toString arguments.length ++ "."
  nothing : ∀ t m', ¬Enters rounds (.call paren callee arguments) m t m'

/-- The body of `k`, begun with `m₁`, fails and the call with it, or it ends in any way and
the call yields the value. -/
def FailsOrYields (rounds : Nat) (paren : Token) (callee : Value) (arguments : List Value)
    (m : Machine) (k : Closure) (m₁ : Machine) (v : Value) : Prop :=
  (∃ e m₂, (Task.stmts k.declaration.body).run rounds (k.entered arguments m₁) = .error e m₂ ∧
    (Task.call paren callee arguments).run rounds m =
      .error e { m₂ with frame := m.frame, depth := m.depth }) ∨
  ∃ flow m₂, (Task.stmts k.declaration.body).Ends rounds (k.entered arguments m₁) flow m₂ ∧
    (Task.call paren callee arguments).run rounds m =
      .ok v { m₂ with frame := m.frame, depth := m.depth }

section

variable {rounds : Nat} {callee : Expr} {es : List Expr} {paren : Token} {f : Value}
  {arguments : List Value} {m₀ m : Machine}

theorem Evaluated.enters (h : Evaluated rounds callee es m₀ f arguments m) :
    Enters rounds (.expr (.call callee paren es)) m₀ (.call paren f arguments) m := by
  obtain ⟨m₁, hf, hvs⟩ := h
  exact .call hf hvs

theorem Evaluated.evaluate_eq (h : Evaluated rounds callee es m₀ f arguments m) :
    evaluate rounds (.call callee paren es) m₀ =
      (Task.call paren f arguments).run rounds m := by
  obtain ⟨m₁, hf, hvs⟩ := h
  exact (bind_of_ok hf).trans (bind_of_ok hvs)

theorem miscounted_iff {f : Value} {arity : Nat} (hf : f.arity? = some arity) :
    Miscounted rounds paren f arguments arity m ↔ arguments.length ≠ arity := by
  refine ⟨fun h hlength => ?_, fun hne => ⟨call_of_arity_ne hf hne, rfl, fun t m' he => ?_⟩⟩
  · rw [← hlength] at hf
    rcases Nat.lt_or_ge m.depth maxCallDepth with hd | hd
    · exact h.nothing _ _ (.invoke hf hd)
    · have hrun := h.run.symm.trans (call_of_too_deep hf hd)
      cases hrun
  · cases he with
    | invoke ha _ => exact hne (Option.some.inj (ha.symm.trans hf))

end

/-! ## Objects that are new -/

/-- The value is not the object. -/
def Value.Other (object : Nat) (v : Value) : Prop := ∀ c, v ≠ .object object c

theorem Value.Bears.other {T : Trait} {made : FrameId → Opener → Prop} {n object : Nat} {v : Value}
    (hv : v.Bears T made n) (hn : n ≤ object) : v.Other object := by
  rintro c rfl
  exact absurd (hv.object object c rfl) (Nat.not_lt.2 hn)

namespace Session

/-- No value has been the object when the call with these arguments begins: none in the heap,
no argument and no result of a task before it. Objects are never given up, so those tasks are
among the ones that end when there are no more objects than now. -/
structure Unheld (rounds : Nat) (s : Session) (rs : List Request) (object : Nat)
    (arguments : List Value) (m : Machine) : Prop where
  heap : m.heap.All (Value.Other object)
  arguments : ∀ v ∈ arguments, v.Other object
  results : ∀ t m₁ a m₂, Happens rounds s rs t m₁ → t.run rounds m₁ = .ok a m₂ →
    m₂.heap.objects.size ≤ m.heap.objects.size → ∀ v ∈ t.results a, v.Other object

variable {rounds : Nat} {sink : Sink} {clock : Clock} {rs : List Request} {t : Task}
  {m m₁ m₂ : Machine} {k : Closure} {arguments : List Value} {paren : Token} {callee : Value}
  {id object : Nat} {c : Class}

theorem Happens.bearing_any (h : Happens rounds (start sink clock) rs t m) :
    Bearing Trait.any (Made rounds (start sink clock) rs) t m :=
  bearing_of_happens h fun _ _ _ _ _ _ => trivial

/-- The next object to be made is new. -/
theorem Happens.unheld
    (h : Happens rounds (start sink clock) rs (.call paren callee arguments) m) :
    Unheld rounds (start sink clock) rs m.heap.objects.size arguments m where
  heap := h.bearing_any.heap.mono fun _ hv => hv.other (Nat.le_refl _)
  arguments v hv :=
    ((Value.AllBear.cons.1 h.bearing_any.values).2 v hv).other (Nat.le_refl _)
  results t m₁ a m₂ ht hrun hsize v hv := by
    obtain ⟨ok, -, hm⟩ := moment_of_happens ht
    obtain ⟨-, -, hresults⟩ := (ht.bearing_any.upholds hm.depth hm.makes).of_ok hrun
    exact (hresults v hv).other hsize

/-! ## Calls that end with an object -/

/-- The call of an initializer yields the object that `this` is bound to. -/
theorem Happens.fails_or_yields
    (h : Happens rounds (start sink clock) rs (.call paren callee arguments) m)
    (hr : CallRuns rounds paren callee arguments m k m₁) (hk : k.initializer = true)
    (hself : (m₁.heap.bindings k.frame).find? selfName = some (.object object c)) :
    FailsOrYields rounds paren callee arguments m k m₁ (.object object c) := by
  cases hbody : (Task.stmts k.declaration.body).run rounds (k.entered arguments m₁) with
  | error e m₂ => exact .inl ⟨e, m₂, hbody, h.call_of_body_error hr hbody⟩
  | ok flow m₂ =>
    obtain ⟨w, hw, hrun⟩ := h.call_of_body hr hbody
    obtain ⟨hfalse, -⟩ | ⟨-, object', c', hself', rfl⟩ := hw
    · rw [hk] at hfalse
      cases hfalse
    · rw [hself] at hself'
      cases hself'
      exact .inr ⟨flow, m₂, hbody, hrun⟩

/-! ## Construction -/

/-- The call of a class, begun with `m`. -/
structure Construction (rounds : Nat) (s : Session) (rs : List Request) (paren : Token) (id : Nat)
    (c : Class) (arguments : List Value) (m : Machine) : Prop where
  takes : c.Takes c.arity
  /-- A wrong number of arguments is all that is reported before anything is done. -/
  refused : Miscounted rounds paren (.cls id c) arguments c.arity m ↔ arguments.length ≠ c.arity
  tooDeep : arguments.length = c.arity → maxCallDepth ≤ m.depth →
    (Task.call paren (.cls id c) arguments).run rounds m =
      .error (.error (.program paren.line .stackOverflow)) m
  /-- The object is the next one that the heap has room for. -/
  constructs : arguments.length = c.arity → m.depth < maxCallDepth →
    (∃ init k m₁, c.Finds Class.initializerName init ∧
      CallRuns rounds paren (.cls id c) arguments m k m₁ ∧
      k.BoundTo init m.heap.objects.size c m₁.heap ∧
      FailsOrYields rounds paren (.cls id c) arguments m k m₁ (.object m.heap.objects.size c)) ∨
    c.Lacks Class.initializerName ∧ (Task.call paren (.cls id c) arguments).run rounds m =
      .ok (.object m.heap.objects.size c) { m with heap := m.heap.newObject.2 }
  fresh : Unheld rounds s rs m.heap.objects.size arguments m

theorem Happens.construction
    (h : Happens rounds (start sink clock) rs (.call paren (.cls id c) arguments) m) :
    Construction rounds (start sink clock) rs paren id c arguments m := by
  obtain ⟨ok, -, hm⟩ := moment_of_happens h
  have hfitted : c.Fitted ok _ _ := hm.good.settled.1
  have hc := hfitted.declared
  have ha : arguments.length = c.arity → (Value.cls id c).arity? = some arguments.length :=
    fun hlength => congrArg some hlength.symm
  refine ⟨hc.takes_arity, miscounted_iff rfl, fun hlength => call_of_too_deep (ha hlength),
    fun hlength hd => ?_, h.unheld⟩
  obtain ⟨init, hfind, hfinds⟩ | ⟨hnone, hlacks⟩ := hc.finds_or_lacks Class.initializerName
  · obtain ⟨k, m₁, hbind⟩ : ∃ k m₁, Eval.bind init m.heap.objects.size c
        { m with depth := m.depth + 1, heap := m.heap.newObject.2 } = .ok k m₁ := ⟨_, _, rfl⟩
    have hr : CallRuns rounds paren (.cls id c) arguments m k m₁ :=
      ⟨_, .invoke (ha hlength) hd, .initializer hfind rfl hbind⟩
    obtain ⟨hk, hself⟩ := h.constructs hr
    exact .inl ⟨init, k, m₁, hfinds, hr, boundTo_of_bind hbind, h.fails_or_yields hr hk hself⟩
  · refine .inr ⟨hlacks, (call_of_checked (ha hlength) hd).trans ?_⟩
    exact oneDeeper_of_ok (construct_of_none hnone)

/-- A method `init` that was bound to an object, and is called later. -/
theorem Happens.initializes {method : Closure} {own : Class} {i : Nat}
    (hbinding : Happens rounds (start sink clock) rs t m₂)
    (hk : Obtains rounds t m₂ method object own k)
    (hname : k.declaration.name.lexeme = Class.initializerName)
    (h : Happens rounds (start sink clock) rs (.call paren (.function i k) arguments) m)
    (hlength : arguments.length = k.arity) (hd : m.depth < maxCallDepth) :
    FailsOrYields rounds paren (.function i k) arguments m k { m with depth := m.depth + 1 }
      (.object object own) := by
  obtain ⟨ok, -, hm⟩ := moment_of_happens hbinding
  have hbound := (hk.boundTo hm.depth hm.makes hm.good).mono (extends_lastHeap hbinding)
  have ha : (Value.function i k).arity? = some arguments.length := congrArg some hlength.symm
  have hr : CallRuns rounds paren (.function i k) arguments m k { m with depth := m.depth + 1 } :=
    ⟨_, .invoke ha hd, .function⟩
  refine h.fails_or_yields hr ((hbinding.initializer_iff hk).2 hname) ?_
  rw [(h.runs hr).self_eq]
  exact hbound.object

/-- In any history, a call of a class `c` is refused before anything of the class runs
exactly if the number of arguments is not that of the nearest `init`. Otherwise, if calls
are not nested too deeply, it fails with the body of that `init`, or yields an object of
`c` that no value has been before. An `init` that was bound to an object yields that object
whenever it is called, unless its body fails. -/
theorem construction_yields_fresh_instance (rounds : Nat) (sink : Sink) (clock : Clock)
    (rs : List Request) :
    (∀ callee paren es m₀ id c arguments m,
      Happens rounds (start sink clock) rs (.expr (.call callee paren es)) m₀ →
      Evaluated rounds callee es m₀ (.cls id c) arguments m →
      Lox.evaluate rounds (.call callee paren es) m₀ =
          (Task.call paren (.cls id c) arguments).run rounds m ∧
        Construction rounds (start sink clock) rs paren id c arguments m) ∧
    ∀ t m₀ method object own k, Happens rounds (start sink clock) rs t m₀ →
      Obtains rounds t m₀ method object own k →
      k.declaration.name.lexeme = Class.initializerName →
      ∀ callee paren es n₀ i arguments m,
        Happens rounds (start sink clock) rs (.expr (.call callee paren es)) n₀ →
        Evaluated rounds callee es n₀ (.function i k) arguments m →
        arguments.length = k.arity → m.depth < maxCallDepth →
        Lox.evaluate rounds (.call callee paren es) n₀ =
            (Task.call paren (.function i k) arguments).run rounds m ∧
          FailsOrYields rounds paren (.function i k) arguments m k
            { m with depth := m.depth + 1 } (.object object own) := by
  refine ⟨fun callee paren es m₀ id c arguments m h he => ⟨he.evaluate_eq, ?_⟩, ?_⟩
  · exact (h.enters he.enters).construction
  · intro t m₀ method object own k hbinding hk hname callee paren es n₀ i arguments m h he
      hlength hd
    exact ⟨he.evaluate_eq, hbinding.initializes hk hname (h.enters he.enters) hlength hd⟩

/-- An inherited `init` that is run by a construction, and called again on the object. -/
theorem construction_yields_fresh_instance_again :
    let s := start .unlimited (.ticking 0)
    let source := "class A \x7b init() \x7b\x7d \x7d class B < A \x7b\x7d B().init();"
    let paren : Token := ⟨.rightParen, ")", 1⟩
    let word (name : String) : Token := ⟨.identifier, name, 1⟩
    let make : Expr := .call (.var 1 (word "B")) paren []
    let again : Expr := .call (.get make (word "init")) paren []
    ∃ m id c k i m' object,
      Happens 0 s [.run source] (.expr make) m ∧
      Evaluated 0 (.var 1 (word "B")) [] m (.cls id c) [] m ∧
      Construction 0 s [.run source] paren id c [] m ∧
      Happens 0 s [.run source] (.expr again) m ∧
      Evaluated 0 (.get make (word "init")) [] m (.function i k) [] m' ∧
      FailsOrYields 0 paren (.function i k) [] m' k { m' with depth := m'.depth + 1 }
        (.object object c) := by
  intro s source paren word make again
  let inits : Function := ⟨word "init", [], []⟩
  let base : Stmt := .classDecl (word "A") none [inits]
  let derived : Stmt := .classDecl (word "B") (some (.var 0 (word "A"))) []
  let m₀ : Machine := s.machine.record ∅
  have hb : Begins (.run source) s (.stmts [base, derived, .expression again]) ⟨m₀, 2⟩ :=
    .run_of_spans (by cbv) (by cbv) rfl
  have hprogram : Happens 0 s [.run source] _ m₀ := .now ⟨_, _, hb, .here⟩
  -- the declarations
  let A : Class := ⟨"A", none, methodTable [inits] 0⟩
  obtain ⟨h₁, i, hmore, hA⟩ := hprogram.after_baseClass (by decide)
  obtain ⟨h₂, j, hrest, hB⟩ := hmore.after_derivedClass rfl rfl hA (show "A" ≠ "B" by decide)
  let B : Class := ⟨"B", some A, methodTable [] h₁.frames.size⟩
  -- the construction
  let m : Machine := { m₀ with heap := h₂ }
  have hagain : Happens 0 s [.run source] (.expr again) m :=
    (hrest.enters .first).enters .expression
  have hget := hagain.enters .callee
  have hmake := hget.enters .getObject
  have hcallee : Lox.evaluate 0 (.var 1 (word "B")) m = .ok (.cls j B) m :=
    (hmake.enters .callee).global_at rfl hB
  have hmade : Evaluated 0 (.var 1 (word "B")) [] m (.cls j B) [] m := ⟨m, hcallee, rfl⟩
  have hmethod : B.findMethod? Class.initializerName = some (inits.method 0) := rfl
  have hnew : (h₂.newObject.2.fields h₂.objects.size).find? "init" = none := by
    rw [Heap.fields_newObject, Heap.fields, Array.getElem?_eq_none (Nat.le_refl _)]
    rfl
  obtain ⟨k₁, m₁, v, m₂, hbind, hfunction, hfields⟩ : ∃ k₁ m₁ v m₂,
      Eval.bind (inits.method 0) h₂.objects.size B
        { m with depth := 1, heap := h₂.newObject.2 } = .ok k₁ m₁ ∧
      (Task.function k₁ []).run 0 m₁ = .ok v m₂ ∧
      (m₂.heap.fields h₂.objects.size).find? "init" = none :=
    ⟨_, _, _, _, rfl, rfl, hnew⟩
  have hruns : CallRuns 0 paren (.cls j B) [] m k₁ m₁ :=
    ⟨_, .invoke rfl (show 0 < maxCallDepth by decide), .initializer hmethod rfl hbind⟩
  have hobject := hmade.evaluate_eq.trans (hruns.call_of_ok hfunction)
  -- the method that is bound to the object
  obtain ⟨i, k, m', hbound, hk⟩ := boundMethod_eq (inits.method 0) h₂.objects.size B
    { m₂ with depth := m₂.depth - 1 }
  have hobtains : Obtains 0 (.expr (.get make (word "init"))) m _ h₂.objects.size B k :=
    .property hobject hfields hmethod hbound
  have hproperty : Lox.evaluate 0 (.get make (word "init")) m = .ok (.function i k) m' :=
    (bind_of_ok hobject).trans ((getProperty_of_method hfields hmethod).trans hbound)
  have hgot : Evaluated 0 (.get make (word "init")) [] m (.function i k) [] m' :=
    ⟨m', hproperty, rfl⟩
  have hdepth : m'.depth < maxCallDepth := by
    rw [depth_of_evaluate hproperty]
    show 0 < maxCallDepth
    decide
  obtain ⟨hconstructions, hinitializers⟩ :=
    construction_yields_fresh_instance 0 .unlimited (.ticking 0) [.run source]
  obtain ⟨-, hconstruction⟩ := hconstructions _ _ _ _ _ _ _ _ hmake hmade
  have hname : k.declaration.name.lexeme = Class.initializerName := by
    rw [hk.declaration]
    rfl
  have harity : ([] : List Value).length = k.arity := by
    rw [Closure.arity, hk.declaration]
    rfl
  obtain ⟨-, hyields⟩ := hinitializers _ _ _ _ _ _ hget hobtains hname _ _ _ _ _ _ _ hagain hgot
    harity hdepth
  exact ⟨m, j, B, k, i, m', h₂.objects.size, hmake, hmade, hconstruction, hagain, hgot, hyields⟩

end Session
end Lox
