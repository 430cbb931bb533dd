import Lox.Proofs.Eval.Returns
import Lox.Proofs.Eval.Running
import Lox.Proofs.Eval.TopLevel
import Lox.Proofs.Session.Bearing

/-
  Returns in histories — which call a return ends

  A return ends the innermost call that is running, and nothing else. At the top level of
  an accepted program there is none, so such a program is executed to its end or to its
  first error; in a body named `init` a return carries no value. Bodies are called long
  after they were accepted, so it takes the invariant of histories to know this of every
  call (`return_ends_innermost_call`).
-/

namespace Lox

open Eval

/-! ## Allowed returns as a trait -/

/-- All returns of the code are allowed in the bodies that they stand in. -/
def Trait.returning : Trait where
  code
    | .stmt s => ∃ kind, s.ReturnsIn kind
    | .stmts ss => ∃ kind, Stmt.AllReturnIn ss kind
    | .loop _ body _ => ∃ kind, body.ReturnsIn kind
    | _ => True
  routine initializer d :=
    ∃ kind, (initializer = true → kind = .initializer) ∧ d.ReturnsIn kind
  entered := by
    intro rounds t t' m m' he ht ht' hcode
    cases he with
    | block | loop | loopBody | nextRound => exact hcode
    | first =>
      obtain ⟨kind, hs, -⟩ := hcode
      exact ⟨kind, hs⟩
    | more =>
      obtain ⟨kind, -, hrest⟩ := hcode
      exact ⟨kind, hrest⟩
    | @branchThen _ _ elseCase =>
      obtain ⟨kind, hbranch⟩ := hcode
      cases elseCase with
      | none => exact ⟨kind, hbranch⟩
      | some elseCase => exact ⟨kind, hbranch.1⟩
    | branchElse =>
      obtain ⟨kind, -, helse⟩ := hcode
      exact ⟨kind, helse⟩
    | body => exact ht.elim
    | _ => trivial
  body h := by
    obtain ⟨kind, -, hd⟩ := h
    exact ⟨kind, hd.body⟩
  function h := by
    obtain ⟨_, hd⟩ := h
    exact ⟨.function, nofun, hd⟩
  method := by
    intro name superclass methods d hcode hd
    obtain ⟨_, hmethods⟩ := hcode
    exact ⟨d.methodBody, Function.methodBody_of_init,
      Function.MethodsReturn.of_mem hmethods hd⟩

/-- What a call of the function yields if its body ends like this: the value that it
returned with, if any, and for a method named `init` its object. -/
def Closure.Gives (k : Closure) (h : Heap) (flow : Flow) (w : Value) : Prop :=
  k.initializer = false ∧ w = flow.value ∨ k.initializer = true ∧
    ∃ object c, (h.bindings k.frame).find? selfName = some (.object object c) ∧
      w = .object object c

namespace Session

variable {rounds : Nat} {sink : Sink} {clock : Clock} {rs : List Request} {t : Task}
  {m m₁ m₂ : Machine} {k : Closure} {arguments : List Value} {paren : Token} {callee : Value}
  {flow : Flow} {v w : Value}

theorem returning_of_begins {r : Request} {s s₁ : Session} (h : Begins r s t s₁) :
    Trait.returning.code t := by
  cases h with
  | run _ _ hr => exact ⟨.topLevel, allReturnIn_of_resolveProgram hr⟩
  | evaluate => trivial

theorem Happens.returning (h : Happens rounds (start sink clock) rs t m) :
    Bearing Trait.returning (Made rounds (start sink clock) rs) t m :=
  bearing_of_happens h fun _ _ _ _ _ hb => returning_of_begins hb

/-! ## Functions -/

/-- The body of an initializer does not return a value. -/
theorem Happens.flow_of_initializer
    (h : Happens rounds (start sink clock) rs (.function k arguments) m)
    (hk : k.initializer = true)
    (hbody : (Task.stmts k.declaration.body).Ends rounds (k.entered arguments m) flow m₁) :
    flow = .normal ∨ flow = .returned .nil := by
  obtain ⟨hvalue, -⟩ := Value.AllBear.cons.1 h.returning.values
  obtain ⟨kind, hinit, hd⟩ := hvalue.offers k rfl
  obtain rfl := hinit hk
  exact Stmt.endsIn_execAll _ hd.body _ _ _ hbody

/-- A function yields what its body returned, and an initializer yields its object. -/
theorem Happens.function_gives
    (h : Happens rounds (start sink clock) rs (.function k arguments) m)
    (hbody : (Task.stmts k.declaration.body).Ends rounds (k.entered arguments m) flow m₁) :
    ∃ w, k.Gives m.heap flow w ∧
      (Task.function k arguments).run rounds m = .ok w { m₁ with frame := m.frame } := by
  obtain ⟨ok, -, hm⟩ := moment_of_happens h
  have hrun := callFunction_of_ok hm.depth hbody
  rcases Bool.eq_false_or_eq_true k.initializer with hk | hk
  · obtain ⟨object, c, hobject⟩ := h.bound_self (fun _ _ _ _ _ hb => returning_of_begins hb) hk
    refine ⟨.object object c, .inr ⟨hk, object, c, hobject, rfl⟩, ?_⟩
    -- the object is still bound when the body has ended
    have hext := (extends_inNewFrame m _ _).trans
      ((hm.good.entered hm.depth hm.makes .body).2.of_ok hbody).1
    have hlast := hext.reserved _ (Heap.lt_size_of_find? hobject) _ (.inl rfl)
    refine hrun.trans ((ite_of_true hk).trans ?_)
    show EStateM.Result.ok ((m₁.heap.getAt? k.frame 0 selfName).getD .nil) _ = _
    rw [Heap.getAt?_of_ancestor rfl, hlast, hobject]
    rfl
  · exact ⟨flow.value, .inl ⟨hk, rfl⟩, hrun.trans (ite_of_false hk)⟩

/-! ## Calls -/

theorem Happens.runs (h : Happens rounds (start sink clock) rs (.call paren callee arguments) m)
    (hr : CallRuns rounds paren callee arguments m k m₁) :
    Happens rounds (start sink clock) rs (.function k arguments) m₁ := by
  obtain ⟨_, hinvoke, hfunction⟩ := hr
  exact (h.enters hinvoke).enters hfunction

/-- A construction runs a method named `init`, bound to the new object. -/
theorem Happens.constructs {id : Nat} {c : Class}
    (h : Happens rounds (start sink clock) rs (.call paren (.cls id c) arguments) m)
    (hr : CallRuns rounds paren (.cls id c) arguments m k m₁) :
    k.initializer = true ∧
      (m₁.heap.bindings k.frame).find? selfName = some (.object m.heap.objects.size c) := by
  have ⟨_, hinvoke, _⟩ := hr
  obtain ⟨ok, -, hm⟩ := moment_of_happens (h.enters hinvoke)
  have hfitted : c.Fitted ok _ _ := hm.good.settled.2.1
  rcases hr.cases with ⟨_, hcallee, -⟩ | ⟨_, _, method, hcallee, hc, hb⟩
  · cases hcallee
  · cases hcallee
    have hbound := boundTo_of_bind hb
    obtain ⟨hname, hinit⟩ := (hfitted.declared.findMethod?_eq_some_iff.1 hc).named
    refine ⟨?_, hbound.object⟩
    rw [hbound.initializer, hinit, hname]
    exact beq_self_eq_true _

theorem Happens.call_gives
    (h : Happens rounds (start sink clock) rs (.call paren callee arguments) m)
    (hr : CallRuns rounds paren callee arguments m k m₁) (hw : k.Gives m₁.heap flow w) :
    k.Gives m₁.heap flow (callee.callResult m.heap.objects.size w) := by
  cases callee with
  | cls id c =>
    obtain ⟨hinit, hself⟩ := h.constructs hr
    exact .inr ⟨hinit, _, c, hself, rfl⟩
  | _ => exact hw

/-- A call is over when the body of its function is, and the caller goes on where it was. -/
theorem Happens.call_of_body
    (h : Happens rounds (start sink clock) rs (.call paren callee arguments) m)
    (hr : CallRuns rounds paren callee arguments m k m₁)
    (hbody : (Task.stmts k.declaration.body).Ends rounds (k.entered arguments m₁) flow m₂) :
    ∃ w, k.Gives m₁.heap flow w ∧ (Task.call paren callee arguments).run rounds m =
      .ok w { m₂ with frame := m.frame, depth := m.depth } := by
  obtain ⟨w, hw, hrun⟩ := (h.runs hr).function_gives hbody
  -- the body leaves the depth as it was, so the caller is back where it was
  have hdepth : m₂.depth = m₁.depth :=
    (((Task.stmts k.declaration.body).steady_run rounds).of_ok hbody).depth
  refine ⟨_, h.call_gives hr hw, (hr.call_of_ok hrun).trans ?_⟩
  exact congrArg (EStateM.Result.ok _) (hr.back hdepth)

/-- A call fails with the body of its function. -/
theorem Happens.call_of_body_error {e : Halt RuntimeError}
    (h : Happens rounds (start sink clock) rs (.call paren callee arguments) m)
    (hr : CallRuns rounds paren callee arguments m k m₁)
    (hbody : (Task.stmts k.declaration.body).run rounds (k.entered arguments m₁) = .error e m₂) :
    (Task.call paren callee arguments).run rounds m =
      .error e { m₂ with frame := m.frame, depth := m.depth } := by
  obtain ⟨ok, -, hm⟩ := moment_of_happens (h.runs hr)
  have hdepth : m₂.depth = m₁.depth :=
    (((Task.stmts k.declaration.body).steady_run rounds).of_error hbody).depth
  refine (hr.call_of_error (callFunction_of_error hm.depth hbody)).trans ?_
  exact congrArg (EStateM.Result.error e) (hr.back hdepth)

/-- How a call ends with the body of the function `k` that it runs, begun with `m₁`. -/
structure EndsWithBody (rounds : Nat) (paren : Token) (callee : Value) (arguments : List Value)
    (m : Machine) (k : Closure) (m₁ : Machine) : Prop where
  /-- A return that the body comes to ends the call. -/
  returned : ∀ v m₂,
    Returns rounds (.stmts k.declaration.body) (k.entered arguments m₁) v m₂ →
    ∃ w, k.Gives m₁.heap (.returned v) w ∧ (Task.call paren callee arguments).run rounds m =
      .ok w { m₂ with frame := m.frame, depth := m.depth }
  /-- No statement is executed after one that the return stands in. -/
  last : ∀ s rest m₂ v m₃,
    Leads rounds (.stmts k.declaration.body) (k.entered arguments m₁) (.stmts (s :: rest)) m₂ →
    Returns rounds (.stmt s) m₂ v m₃ →
    Returns rounds (.stmts k.declaration.body) (k.entered arguments m₁) v m₃ ∧
      ∀ m₄, ¬Enters rounds (.stmts (s :: rest)) m₂ (.stmts rest) m₄
  /-- A loop that the return stands in is not gone on with. -/
  lastRound : ∀ condition inner left m₂ u m₃ v m₄,
    Leads rounds (.stmts k.declaration.body) (k.entered arguments m₁)
      (.loop condition inner (left + 1)) m₂ →
    Lox.evaluate rounds condition m₂ = .ok u m₃ → u.truthy = true →
    Returns rounds (.stmt inner) m₃ v m₄ →
    Returns rounds (.stmts k.declaration.body) (k.entered arguments m₁) v m₄ ∧
      ∀ left' m₅, ¬Enters rounds (.loop condition inner (left + 1)) m₂
        (.loop condition inner left') m₅
  /-- A body that ends without having come to a return ends the call with `nil`, or with the
  object of an initializer. -/
  through : ∀ flow m₂,
    (Task.stmts k.declaration.body).Ends rounds (k.entered arguments m₁) flow m₂ →
    (∀ v m₃, ¬Returns rounds (.stmts k.declaration.body) (k.entered arguments m₁) v m₃) →
    ∃ w, k.Gives m₁.heap .normal w ∧ (Task.call paren callee arguments).run rounds m =
      .ok w { m₂ with frame := m.frame, depth := m.depth }
  /-- The body of an initializer returns no value. -/
  initializer : k.initializer = true → ∀ flow m₂,
    (Task.stmts k.declaration.body).Ends rounds (k.entered arguments m₁) flow m₂ →
    flow = .normal ∨ flow = .returned .nil

theorem Happens.endsWithBody
    (h : Happens rounds (start sink clock) rs (.call paren callee arguments) m)
    (hr : CallRuns rounds paren callee arguments m k m₁) :
    EndsWithBody rounds paren callee arguments m k m₁ where
  returned v m₂ hv := by
    obtain ⟨w, hw, hrun⟩ := h.call_of_body hr (hv.ends trivial)
    exact ⟨w, hw, hrun⟩
  last s rest m₂ v m₃ hl hv :=
    ⟨.of_leads hl (hv.step .first trivial), fun _ => not_enters_rest hv⟩
  lastRound condition inner left m₂ u m₃ v m₄ hl hu ht hv :=
    ⟨.of_leads hl (hv.step (.loopBody hu ht) trivial), fun _ _ => not_enters_nextRound hu hv⟩
  through flow m₂ hbody hnone := by
    cases flow with
    | normal => exact h.call_of_body hr hbody
    | returned v =>
      obtain ⟨m₃, hv⟩ := hbody.returns
      exact absurd hv (hnone v m₃)
  initializer hk _ _ hbody := (h.runs hr).flow_of_initializer hk hbody

/-- A bound method is an initializer exactly if it is named `init`. -/
theorem Happens.initializer_iff {method : Closure} {object : Nat} {c : Class}
    (h : Happens rounds (start sink clock) rs t m) (hk : Obtains rounds t m method object c k) :
    k.initializer = true ↔ k.declaration.name.lexeme = Class.initializerName := by
  obtain ⟨ok, -, hm⟩ := moment_of_happens h
  obtain ⟨c', name, hfinds⟩ := hk.finds hm.depth hm.makes hm.good
  have hbound := hk.boundTo hm.depth hm.makes hm.good
  rw [hbound.initializer, hbound.declaration, hfinds.named.2, beq_iff_eq]

/-- At the top level of an accepted program nothing returns, and the program is executed
to its end or to the first statement that fails. In any history the call of a function
or class ends with the body that it runs: with a return that the body comes to, under
whatever blocks, branches and loops, after which nothing of the body is executed; and
otherwise with `nil`, or the object of an initializer. Then the caller goes on where it
was. The body of a method named `init` goes through or returns `nil`. -/
theorem return_ends_innermost_call (rounds : Nat) :
    (∀ program distances, resolveProgram program = .ok distances →
      (∀ s ∈ program, ∀ m flow m', execute rounds s m = .ok flow m' → flow = .normal) ∧
      ∀ m, (∃ m', (Task.stmts program).Ends rounds m .normal m' ∧
          interpret rounds program m = flush m') ∨
        ∃ front s rest m₁ e m₂, program = front ++ s :: rest ∧
          (Task.stmts front).Ends rounds m .normal m₁ ∧ execute rounds s m₁ = .error e m₂ ∧
          interpret rounds program m = .error e m₂) ∧
    ∀ sink clock rs,
      (∀ paren callee arguments m k m₁,
        Happens rounds (start sink clock) rs (.call paren callee arguments) m →
        CallRuns rounds paren callee arguments m k m₁ →
        EndsWithBody rounds paren callee arguments m k m₁) ∧
      ∀ t m method object c k, Happens rounds (start sink clock) rs t m →
        Obtains rounds t m method object c k →
        (k.initializer = true ↔ k.declaration.name.lexeme = Class.initializerName) := by
  refine ⟨fun program distances hr => ⟨fun s hs m flow m' h => ?_, fun m => ?_⟩,
    fun sink clock rs => ⟨fun paren callee arguments m k m₁ h hr => h.endsWithBody hr,
      fun t m method object c k h hk => h.initializer_iff hk⟩⟩
  · have hreturns := (allReturnIn_of_resolveProgram hr).of_mem hs
    exact s.endsIn_exec hreturns m flow m' h
  · rcases Stmt.execAll_topLevel_cases (allReturnIn_of_resolveProgram hr) m with
      ⟨m', hrun⟩ | ⟨front, s, rest, m₁, e, m₂, hprogram, hfront, hs, hrun⟩
    · exact .inl ⟨m', hrun, interpret_of_ok hrun⟩
    · exact .inr ⟨front, s, rest, m₁, e, m₂, hprogram, hfront, hs, interpret_of_error hrun⟩

/-- An initializer that returns from a loop. -/
theorem return_ends_innermost_call_loop :
    let s := start .unlimited (.ticking 0)
    let source := "class A \x7b init() \x7b while (true) \x7b return; \x7d \x7d \x7d A();"
    let paren : Token := ⟨.rightParen, ")", 1⟩
    ∃ program distances id c m k m₁ m₂ t n method object,
      resolveProgram program = .ok distances ∧
      (∃ m', interpret 1 program s.machine = flush m' ∨
        ∃ e, interpret 1 program s.machine = .error e m') ∧
      Happens 1 s [.run source] (.call paren (.cls id c) []) m ∧
      CallRuns 1 paren (.cls id c) [] m k m₁ ∧
      Returns 1 (.stmts k.declaration.body) (k.entered [] m₁) .nil m₂ ∧
      (∃ w, k.Gives m₁.heap (.returned .nil) w ∧ (Task.call paren (.cls id c) []).run 1 m =
        .ok w { m₂ with frame := m.frame, depth := m.depth }) ∧
      Happens 1 s [.run source] t n ∧ Obtains 1 t n method object c k ∧ k.initializer = true := by
  intro s source paren
  let word (name : String) : Token := ⟨.identifier, name, 1⟩
  let leave : Stmt := .yield ⟨.returnWord, "return", 1⟩ none
  let inits : Function := ⟨word "init", [], [.loop (.boolean true) (.block [leave])]⟩
  let base : Stmt := .classDecl (word "A") none [inits]
  let program : List Stmt := [base, .expression (.call (.var 0 (word "A")) paren [])]
  let m₀ : Machine := s.machine.record ∅
  have haccepted : resolveProgram program = .ok ∅ := rfl
  have hb : Begins (.run source) s (.stmts program) ⟨m₀, 1⟩ := .run_of_spans (by cbv) (by cbv) haccepted
  have hprogram : Happens 1 s [.run source] _ m₀ := .now ⟨_, _, hb, .here⟩
  -- the declaration
  let A : Class := ⟨"A", none, methodTable [inits] 0⟩
  obtain ⟨h₁, i, hrest, hA⟩ := hprogram.after_baseClass (by decide)
  -- the construction
  let m : Machine := { m₀ with heap := h₁ }
  have hexpr := (hrest.enters .first).enters .expression
  have hcallee : Lox.evaluate 1 (.var 0 (word "A")) m = .ok (.cls i A) m :=
    (hexpr.enters .callee).global_at rfl hA
  have hcall : Happens 1 s [.run source] (.call paren (.cls i A) []) m :=
    hexpr.enters (.call hcallee rfl)
  have hinvoke : Enters 1 (.call paren (.cls i A) []) m (.invoke (.cls i A) [])
      { m with depth := 1 } := .invoke rfl (show 0 < maxCallDepth by decide)
  have hmethod : A.findMethod? Class.initializerName = some (inits.method 0) := rfl
  obtain ⟨k, m₁, hbind, hk⟩ : ∃ k m₁, Eval.bind (inits.method 0) h₁.objects.size A
      { m with depth := 1, heap := h₁.newObject.2 } = .ok k m₁ ∧ k.declaration = inits :=
    ⟨_, _, rfl, rfl⟩
  have hruns : CallRuns 1 paren (.cls i A) [] m k m₁ :=
    ⟨_, hinvoke, .initializer hmethod rfl hbind⟩
  have hobtains : Obtains 1 (.invoke (.cls i A) []) { m with depth := 1 } (inits.method 0)
      h₁.objects.size A k := .construction hmethod rfl hbind
  -- the body
  have hreturns : Returns 1 (.stmts k.declaration.body) (k.entered [] m₁) .nil
      ((k.entered [] m₁).inNewFrame (k.entered [] m₁).frame []) := by
    rw [hk]
    exact ⟨_, _, _, .step .first trivial (.step .loop trivial (.step (.loopBody rfl rfl) trivial
      (.step .block trivial (.step .first trivial .here)))), rfl⟩
  have hname : k.declaration.name.lexeme = Class.initializerName := by
    rw [hk]
    rfl
  obtain ⟨htop, hhistory⟩ := return_ends_innermost_call 1
  obtain ⟨hcalls, hnamed⟩ := hhistory .unlimited (.ticking 0) [.run source]
  refine ⟨program, ∅, i, A, m, k, m₁, _, _, _, _, _, haccepted, ?_, hcall, hruns, hreturns,
    (hcalls paren _ [] m k m₁ hcall hruns).returned _ _ hreturns, hcall.enters hinvoke, hobtains,
    (hnamed _ _ _ _ _ _ (hcall.enters hinvoke) hobtains).2 hname⟩
  rcases (htop program ∅ haccepted).2 s.machine with ⟨m', -, h⟩ | ⟨_, _, _, _, e, m', -, -, -, h⟩
  · exact ⟨m', .inl h⟩
  · exact ⟨m', .inr ⟨e, h⟩⟩

end Session
end Lox
