import Lox.Proofs.Eval.Reach

/-
  Rounds — an answer that is there stays when loops may go through more rounds

  A loop that wants more rounds than it may go through ends without an answer.
  Given more rounds, an evaluation does what it did before unless it had run
  out of them (`Approximates`). So runs with different numbers of rounds can be
  put together: all of them are runs with the greatest of the numbers.

  What a run ends with when it has rounds enough is told by `Finishes`, and what
  it says of a sequence, a block or a loop does not mention rounds any more.
-/

namespace Lox
namespace Eval

/-- The first step does the same as the second, or runs out of rounds. -/
def Approximates {α : Type} (x y : Eval α) : Prop :=
  ∀ m, x m = y m ∨ ∃ m', x m = .error .outOfFuel m'

namespace Approximates

variable {α β : Type}

theorem refl (x : Eval α) : Approximates x x := fun _ => .inl rfl

theorem bind {x y : Eval α} {f g : α → Eval β} (hxy : Approximates x y)
    (hfg : ∀ a, Approximates (f a) (g a)) : Approximates (x >>= f) (y >>= g) := by
  intro m
  rcases hxy m with h | ⟨m', h⟩
  · cases hx : x m with
    | ok a m₁ =>
      rw [bind_of_ok hx, bind_of_ok (h.symm.trans hx)]
      exact hfg a m₁
    | error e m₁ =>
      left
      rw [bind_of_error hx, bind_of_error (h.symm.trans hx)]
  · right
    exact ⟨m', bind_of_error h⟩

theorem ite {c : Prop} [Decidable c] {x y x' y' : Eval α} (hx : Approximates x x')
    (hy : Approximates y y') : Approximates (if c then x else y) (if c then x' else y') := by
  split
  · exact hx
  · exact hy

theorem inFrame (f : FrameId) {x y : Eval α} (h : Approximates x y) :
    Approximates (Eval.inFrame f x) (Eval.inFrame f y) := by
  intro m
  rcases h { m with frame := f } with h | ⟨m', h⟩
  · left
    rw [Eval.inFrame, Eval.inFrame, h]
  · right
    exact ⟨_, inFrame_of_error h⟩

theorem oneDeeper {x y : Eval α} (h : Approximates x y) :
    Approximates (Eval.oneDeeper x) (Eval.oneDeeper y) := by
  intro m
  rcases h { m with depth := m.depth + 1 } with h | ⟨m', h⟩
  · left
    rw [Eval.oneDeeper, Eval.oneDeeper, h]
  · right
    exact ⟨_, oneDeeper_of_error h⟩

section Bodies

variable {body body' : List Stmt → Eval Flow} (h : ∀ ss, Approximates (body ss) (body' ss))
include h

theorem callFunction (closure : Closure) (arguments : List Value) :
    Approximates (Eval.callFunction body closure arguments)
      (Eval.callFunction body' closure arguments) :=
  .bind (.refl _) fun f => .bind (.refl _) fun _ => .bind (.inFrame f (h _)) fun _ => .refl _

theorem invoke (callee : Value) (arguments : List Value) :
    Approximates (Eval.invoke body callee arguments) (Eval.invoke body' callee arguments) := by
  cases callee with
  | function _ closure => exact callFunction h closure arguments
  | cls _ c =>
    apply bind (.refl _)
    intro object
    split
    · exact .bind (.refl _) fun _ => .bind (callFunction h _ _) fun _ => .refl _
    · exact .refl _
  | _ => exact .refl _

/-- The checks of a call need no rounds. -/
theorem call (paren : Token) (callee : Value) (arguments : List Value) :
    Approximates (Eval.call body paren callee arguments)
      (Eval.call body' paren callee arguments) := by
  intro m
  cases ha : callee.arity? with
  | none =>
    left
    rw [call_of_not_callable ha, call_of_not_callable ha]
  | some arity =>
    by_cases hl : arguments.length = arity
    · subst hl
      rcases Nat.lt_or_ge m.depth maxCallDepth with hd | hd
      · rw [call_of_checked ha hd, call_of_checked ha hd]
        exact oneDeeper (invoke h callee arguments) m
      · left
        rw [call_of_too_deep ha hd, call_of_too_deep ha hd]
    · left
      rw [call_of_arity_ne ha hl, call_of_arity_ne ha hl]

end Bodies

/-- A loop that ends within its rounds ends in the same way when it has more. -/
theorem «repeat» {condition condition' : Eval Value} {body body' : Eval Flow}
    (hc : Approximates condition condition') (hb : Approximates body body') {k n : Nat}
    (hk : k ≤ n) :
    Approximates (Eval.repeat condition body k) (Eval.repeat condition' body' n) := by
  induction k generalizing n with
  | zero => exact fun m => .inr ⟨m, rfl⟩
  | succ k ih =>
    obtain ⟨n, rfl⟩ : ∃ i, n = i + 1 := ⟨n - 1, by omega⟩
    apply bind hc
    intro v
    apply ite
    · apply bind hb
      intro flow
      cases flow with
      | normal => exact ih (by omega)
      | returned v => exact .refl _
    · exact .refl _

end Approximates
end Eval

open Eval

section Trees

variable {body body' : List Stmt → Eval Flow}

mutual

theorem Expr.approximates_eval (h : ∀ ss, Approximates (body ss) (body' ss)) :
    (e : Expr) → Approximates (e.eval body) (e.eval body')
  | .number _ | .string _ | .boolean _ | .nil | .var _ _ | .self _ _ | .super _ _ _ => .refl _
  | .group inner => inner.approximates_eval h
  | .unary _ operand => .bind (operand.approximates_eval h) fun _ => .refl _
  | .binary left _ right =>
    .bind (left.approximates_eval h) fun _ => .bind (right.approximates_eval h) fun _ => .refl _
  | .logical left _ right =>
    .bind (left.approximates_eval h) fun _ => .ite (.refl _) (right.approximates_eval h)
  | .choice condition thenCase elseCase =>
    .bind (condition.approximates_eval h) fun _ =>
      .ite (thenCase.approximates_eval h) (elseCase.approximates_eval h)
  | .comma items => Expr.approximates_evalLast h items .nil
  | .assign _ _ value => .bind (value.approximates_eval h) fun _ => .refl _
  | .call callee paren arguments =>
    .bind (callee.approximates_eval h) fun _ => .bind (Expr.approximates_evalAll h arguments)
      fun _ => .call h paren _ _
  | .get object _ => .bind (object.approximates_eval h) fun _ => .refl _
  | .set object _ value => by
    apply Approximates.bind (object.approximates_eval h)
    intro o
    cases o with
    | object id c => exact .bind (value.approximates_eval h) fun _ => .refl _
    | _ => exact .refl _

theorem Expr.approximates_evalLast (h : ∀ ss, Approximates (body ss) (body' ss)) :
    (es : List Expr) → (last : Value) →
      Approximates (Expr.evalLast body last es) (Expr.evalLast body' last es)
  | [], _ => .refl _
  | e :: es, _ => .bind (e.approximates_eval h) fun v => Expr.approximates_evalLast h es v

theorem Expr.approximates_evalAll (h : ∀ ss, Approximates (body ss) (body' ss)) :
    (es : List Expr) → Approximates (Expr.evalAll body es) (Expr.evalAll body' es)
  | [] => .refl _
  | e :: es =>
    .bind (e.approximates_eval h) fun _ => .bind (Expr.approximates_evalAll h es) fun _ => .refl _

end

variable {k n : Nat}

mutual

theorem Stmt.approximates_exec (h : ∀ ss, Approximates (body ss) (body' ss)) (hk : k ≤ n) :
    (s : Stmt) → Approximates (s.exec body k) (s.exec body' n)
  | .expression e | .print e => .bind (e.approximates_eval h) fun _ => .refl _
  | .varDecl _ none | .function _ | .yield _ none | .classDecl _ none _ => .refl _
  | .varDecl _ (some value) | .yield _ (some value) =>
    .bind (value.approximates_eval h) fun _ => .refl _
  | .block statements =>
    .bind (.refl _) fun _ => .bind (.refl _) fun f =>
      .inFrame f (Stmt.approximates_execAll h hk statements)
  | .branch condition thenCase none =>
    .bind (condition.approximates_eval h) fun _ =>
      .ite (thenCase.approximates_exec h hk) (.refl _)
  | .branch condition thenCase (some elseCase) =>
    .bind (condition.approximates_eval h) fun _ =>
      .ite (thenCase.approximates_exec h hk) (elseCase.approximates_exec h hk)
  | .loop condition inner =>
    .repeat (condition.approximates_eval h) (inner.approximates_exec h hk) hk
  | .classDecl _ (some superclass) _ =>
    .bind (.refl _) fun _ => .bind (superclass.approximates_eval h) fun _ => .refl _

theorem Stmt.approximates_execAll (h : ∀ ss, Approximates (body ss) (body' ss)) (hk : k ≤ n) :
    (ss : List Stmt) → Approximates (Stmt.execAll body k ss) (Stmt.execAll body' n ss)
  | [] => .refl _
  | s :: rest => by
    apply Approximates.bind (s.approximates_exec h hk)
    intro flow
    cases flow with
    | normal => exact Stmt.approximates_execAll h hk rest
    | returned v => exact .refl _

end

/-- Bodies of calls do the same with more rounds for their loops. -/
theorem approximates_runBody (hk : k ≤ n) (levels : Nat) (ss : List Stmt) :
    Approximates (runBody k levels ss) (runBody n levels ss) := by
  induction levels generalizing ss with
  | zero => exact .refl _
  | succ levels ih => exact Stmt.approximates_execAll ih hk ss

end Trees

/-! ## Runs with enough rounds -/

namespace Eval

/-- How a step that answers ends: with a result, or with an error of the program
or the host. -/
def answer {α : Type} : Except RuntimeError α → Machine →
    EStateM.Result (Halt RuntimeError) Machine α
  | .ok a, m => .ok a m
  | .error e, m => .error (.error e) m

/-- A run whose answers stay when it has more rounds. -/
def Growing {α : Type} (run : Nat → Eval α) : Prop :=
  ∀ k n, k ≤ n → Approximates (run k) (run n)

section Answers

variable {α β : Type} {x : Eval α} {f : α → Eval β} {m m' : Machine}

theorem bind_eq_answer {r : Except RuntimeError β} :
    (x >>= f) m = answer r m' ↔
      (∃ e, r = .error e ∧ x m = answer (.error e) m') ∨
        ∃ a m₁, x m = answer (.ok a) m₁ ∧ f a m₁ = answer r m' := by
  constructor
  · intro h
    cases r with
    | ok b =>
      obtain ⟨a, m₁, hx, hf⟩ := ok_of_bind h
      exact .inr ⟨a, m₁, hx, hf⟩
    | error e =>
      rcases error_of_bind h with hx | ⟨a, m₁, hx, hf⟩
      · exact .inl ⟨e, rfl, hx⟩
      · exact .inr ⟨a, m₁, hx, hf⟩
  · rintro (⟨e, rfl, hx⟩ | ⟨a, m₁, hx, hf⟩)
    · exact bind_of_error hx
    · exact (bind_of_ok hx).trans hf

theorem inFrame_eq_answer {f : FrameId} {r : Except RuntimeError α} :
    inFrame f x m = answer r m' ↔
      ∃ m₁, x { m with frame := f } = answer r m₁ ∧ m' = { m₁ with frame := m.frame } := by
  constructor
  · intro h
    cases hx : x { m with frame := f } with
    | ok a m₁ =>
      rw [inFrame_of_ok hx] at h
      cases r <;> cases h
      exact ⟨m₁, rfl, rfl⟩
    | error e m₁ =>
      rw [inFrame_of_error hx] at h
      cases r <;> cases h
      exact ⟨m₁, rfl, rfl⟩
  · rintro ⟨m₁, hx, rfl⟩
    cases r with
    | ok a => exact inFrame_of_ok hx
    | error e => exact inFrame_of_error hx

/-- An answer stays when there are more rounds. -/
theorem Approximates.answer {y : Eval α} (h : Approximates x y) {r : Except RuntimeError α}
    (hr : x m = Eval.answer r m') : y m = Eval.answer r m' := by
  rcases h m with h | ⟨m₁, h⟩
  · exact h.symm.trans hr
  · rw [hr] at h
    cases r <;> cases h

end Answers
end Eval

/-- `Finishes run m r m'`: with enough rounds for its loops, the run begun with `m`
answers `r` and leaves `m'`. -/
def Finishes {α : Type} (run : Nat → Eval α) (m : Machine) (r : Except RuntimeError α)
    (m' : Machine) : Prop :=
  ∃ rounds, run rounds m = answer r m'

theorem growing_evaluate (e : Expr) : Growing (evaluate · e) := fun _ _ hk =>
  e.approximates_eval (approximates_runBody hk callLevels)

theorem growing_execute (s : Stmt) : Growing (execute · s) := fun _ _ hk =>
  s.approximates_exec (approximates_runBody hk callLevels) hk

theorem growing_stmts (ss : List Stmt) : Growing fun k => (Task.stmts ss).run k := fun _ _ hk =>
  Stmt.approximates_execAll (approximates_runBody hk callLevels) hk ss

theorem growing_loop (condition : Expr) (body : Stmt) (left : Nat) :
    Growing fun k => (Task.loop condition body left).run k := fun k n hk =>
  .repeat (growing_evaluate condition k n hk) (growing_execute body k n hk) (Nat.le_refl left)

section Finishes

variable {m m' : Machine} {r : Except RuntimeError Flow}

/-- A run in two parts ends with an error of the first, or as the second does. -/
theorem finishes_bind {α β : Type} {run : Nat → Eval α} {next : Nat → α → Eval β}
    {r : Except RuntimeError β} (hrun : Growing run) (hnext : ∀ a, Growing (next · a)) :
    Finishes (fun k => run k >>= next k) m r m' ↔
      (∃ e, r = .error e ∧ Finishes run m (.error e) m') ∨
        ∃ a m₁, Finishes run m (.ok a) m₁ ∧ Finishes (next · a) m₁ r m' := by
  constructor
  · rintro ⟨k, h⟩
    rcases bind_eq_answer.1 h with ⟨e, he, hx⟩ | ⟨a, m₁, hx, hf⟩
    · exact .inl ⟨e, he, k, hx⟩
    · exact .inr ⟨a, m₁, ⟨k, hx⟩, k, hf⟩
  · rintro (⟨e, he, k, hx⟩ | ⟨a, m₁, ⟨k, hx⟩, n, hf⟩)
    · exact ⟨k, bind_eq_answer.2 (.inl ⟨e, he, hx⟩)⟩
    · refine ⟨max k n, bind_eq_answer.2 (.inr ⟨a, m₁, ?_, ?_⟩)⟩
      · exact (hrun k _ (Nat.le_max_left k n)).answer hx
      · exact (hnext a n _ (Nat.le_max_right k n)).answer hf

theorem finishes_pure {α : Type} {a : α} {r : Except RuntimeError α} :
    Finishes (fun _ => pure a) m r m' ↔ r = .ok a ∧ m' = m := by
  constructor
  · rintro ⟨_, h⟩
    cases r <;> cases h
    exact ⟨rfl, rfl⟩
  · rintro ⟨rfl, rfl⟩
    exact ⟨0, rfl⟩

/-- After a part that may return comes another one unless the first did return. -/
theorem finishes_next {run rest : Nat → Eval Flow} {next : Nat → Flow → Eval Flow}
    (hrun : Growing run) (hrest : Growing rest) (hnormal : ∀ k, next k .normal = rest k)
    (hreturned : ∀ k v, next k (.returned v) = pure (.returned v)) :
    Finishes (fun k => run k >>= next k) m r m' ↔
      (r ≠ .ok .normal ∧ Finishes run m r m') ∨
        ∃ m₁, Finishes run m (.ok .normal) m₁ ∧ Finishes rest m₁ r m' := by
  -- with more rounds the next part does more, whatever flow it gets
  have hflow : ∀ flow, Growing (next · flow) := by
    intro flow k n hk
    cases flow with
    | normal =>
      simp only [hnormal]
      exact hrest k n hk
    | returned v =>
      simp only [hreturned]
      exact .refl _
  refine (finishes_bind hrun hflow).trans ?_
  constructor
  · rintro (⟨e, rfl, hx⟩ | ⟨flow, m₁, hx, hf⟩)
    · exact .inl ⟨nofun, hx⟩
    · cases flow with
      | normal => exact .inr ⟨m₁, hx, by simpa only [hnormal] using hf⟩
      | returned v =>
        simp only [hreturned] at hf
        obtain ⟨rfl, rfl⟩ := finishes_pure.1 hf
        exact .inl ⟨nofun, hx⟩
  · rintro (⟨hr, hx⟩ | ⟨m₁, hx, hf⟩)
    · match r, hr, hx with
      | .error e, _, hx => exact .inl ⟨e, rfl, hx⟩
      -- a first part that goes through does not end both
      | .ok .normal, hr, _ => exact absurd rfl hr
      | .ok (.returned v), _, hx =>
        refine .inr ⟨.returned v, m', hx, ?_⟩
        simp only [hreturned]
        exact finishes_pure.2 ⟨rfl, rfl⟩
    · exact .inr ⟨.normal, m₁, hx, by simpa only [hnormal] using hf⟩

/-- Statements in turn: the first ends them, or the others follow. -/
theorem finishes_cons {s : Stmt} {rest : List Stmt} :
    Finishes (fun k => (Task.stmts (s :: rest)).run k) m r m' ↔
      (r ≠ .ok .normal ∧ Finishes (execute · s) m r m') ∨
        ∃ m₁, Finishes (execute · s) m (.ok .normal) m₁ ∧
          Finishes (fun k => (Task.stmts rest).run k) m₁ r m' :=
  finishes_next (growing_execute s) (growing_stmts rest) (fun _ => rfl) fun _ _ => rfl

theorem finishes_singleton {s : Stmt} :
    Finishes (fun k => (Task.stmts [s]).run k) m r m' ↔ Finishes (execute · s) m r m' := by
  rw [finishes_cons]
  constructor
  · rintro (⟨_, h⟩ | ⟨m₁, h, hnil⟩)
    · exact h
    · obtain ⟨rfl, rfl⟩ := finishes_pure.1 hnil
      exact h
  · intro h
    by_cases hr : r = .ok .normal
    · subst hr
      exact .inr ⟨m', h, finishes_pure.2 ⟨rfl, rfl⟩⟩
    · exact .inl ⟨hr, h⟩

/-- A block opens one frame, and afterwards the frame is the one of before. -/
theorem finishes_block {ss : List Stmt} :
    Finishes (execute · (.block ss)) m r m' ↔
      ∃ m₁, Finishes (fun k => (Task.stmts ss).run k) (m.inNewFrame m.frame []) r m₁ ∧
        m' = { m₁ with frame := m.frame } := by
  constructor
  · rintro ⟨k, h⟩
    obtain ⟨m₁, hx, hm⟩ := inFrame_eq_answer.1 h
    exact ⟨m₁, ⟨k, hx⟩, hm⟩
  · rintro ⟨m₁, ⟨k, hx⟩, hm⟩
    exact ⟨k, inFrame_eq_answer.2 ⟨m₁, hx, hm⟩⟩

theorem finishes_expression {e : Expr} :
    Finishes (execute · (.expression e)) m r m' ↔
      ∃ a, Finishes (evaluate · e) m a m' ∧ r = a.map fun _ => .normal := by
  refine (finishes_bind (growing_evaluate e) fun _ _ _ _ => .refl _).trans ?_
  constructor
  · rintro (⟨error, rfl, h⟩ | ⟨v, m₁, h, hp⟩)
    · exact ⟨_, h, rfl⟩
    · obtain ⟨rfl, rfl⟩ := finishes_pure.1 hp
      exact ⟨_, h, rfl⟩
  · rintro ⟨a, h, rfl⟩
    cases a with
    | error error => exact .inl ⟨error, rfl, h⟩
    | ok v => exact .inr ⟨v, m', h, finishes_pure.2 ⟨rfl, rfl⟩⟩

/-- A loop may go through as many rounds as any run of it needs. -/
theorem finishes_loop {condition : Expr} {body : Stmt} :
    Finishes (execute · (.loop condition body)) m r m' ↔
      ∃ left, Finishes (fun k => (Task.loop condition body left).run k) m r m' := by
  constructor
  · rintro ⟨k, h⟩
    exact ⟨k, k, h⟩
  · rintro ⟨left, k, h⟩
    have hmore : Approximates ((Task.loop condition body left).run k)
        (execute (max k left) (.loop condition body)) :=
      .repeat (growing_evaluate condition _ _ (Nat.le_max_left k left))
        (growing_execute body _ _ (Nat.le_max_left k left)) (Nat.le_max_right k left)
    exact ⟨max k left, hmore.answer h⟩

/-- One more round: the condition is evaluated, and if it holds the body is
executed, and then the other rounds follow unless the body ended them. -/
theorem finishes_round {condition : Expr} {body : Stmt} {left : Nat} :
    Finishes (fun k => (Task.loop condition body (left + 1)).run k) m r m' ↔
      (∃ e, r = .error e ∧ Finishes (evaluate · condition) m (.error e) m') ∨
        ∃ v m₁, Finishes (evaluate · condition) m (.ok v) m₁ ∧
          (v.truthy = false ∧ r = .ok .normal ∧ m' = m₁ ∨
            v.truthy = true ∧ (r ≠ .ok .normal ∧ Finishes (execute · body) m₁ r m' ∨
              ∃ m₂, Finishes (execute · body) m₁ (.ok .normal) m₂ ∧
                Finishes (fun k => (Task.loop condition body left).run k) m₂ r m')) := by
  refine (finishes_bind (growing_evaluate condition) ?_).trans ?_
  · intro v k n hk
    refine .ite (.bind (growing_execute body k n hk) fun flow => ?_) (.refl _)
    cases flow with
    | normal => exact growing_loop condition body left k n hk
    | returned v => exact .refl _
  · -- the condition has been evaluated in the same way on both sides
    apply or_congr_right
    apply exists_congr
    intro v
    apply exists_congr
    intro m₁
    apply and_congr_right
    intro _
    cases v.truthy with
    | false =>
      simp only [Bool.false_eq_true, if_false, false_and, true_and, or_false]
      exact finishes_pure
    | true =>
      simp only [if_true, Bool.true_eq_false, false_and, true_and, false_or]
      exact finishes_next (growing_execute body) (growing_loop condition body left)
        (fun _ => rfl) fun _ _ => rfl

end Finishes
end Lox
