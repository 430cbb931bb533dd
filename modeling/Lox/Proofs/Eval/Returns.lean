import Lox.Proofs.Eval.Flow
import Lox.Proofs.Eval.Scoped

/-
  Returns on the way

  `Leads` follows the execution of statements through blocks, branches and loops, but
  not into calls. Statements end with a return exactly if they lead to one
  (`ends_returned_iff`). From there nothing is executed any more: neither the statements
  behind the one that the return stands in (`not_enters_rest`), nor another round of a
  loop that it stands in (`not_enters_nextRound`).
-/

namespace Lox

open Eval
open Bool (eq_false_or_eq_true)

/-- Tasks that end as statements do. -/
def Task.Statement : Task → Prop
  | stmt _ | stmts _ | loop _ _ _ => True
  | _ => False

/-- `t.Ends rounds m flow m'`: the statements of the task, begun with `m`, end like this. -/
def Task.Ends (rounds : Nat) : Task → Machine → Flow → Machine → Prop
  | stmt s, m, flow, m' => execute rounds s m = .ok flow m'
  | stmts ss, m, flow, m' => Stmt.execAll (runBody rounds callLevels) rounds ss m = .ok flow m'
  | loop condition body left, m, flow, m' =>
    Eval.repeat (evaluate rounds condition) (execute rounds body) left m = .ok flow m'
  | _, _, _, _ => False

/-- `Leads rounds t m t' m'`: the execution of `t`, begun with `m`, comes to `t'` with
the machine `m'`, and not inside a call that it makes. -/
inductive Leads (rounds : Nat) : Task → Machine → Task → Machine → Prop
  | here {t : Task} {m : Machine} : Leads rounds t m t m
  | step {t t' t'' : Task} {m m' m'' : Machine} :
      Enters rounds t m t' m' → t'.Statement → Leads rounds t' m' t'' m'' →
      Leads rounds t m t'' m''

/-- The value that a return leaves with. -/
def returnedValue (rounds : Nat) : Option Expr → Eval Value
  | none => pure .nil
  | some e => evaluate rounds e

/-- `Returns rounds t m v m'`: the execution of `t`, begun with `m`, comes to a return,
and the return leaves with `v` and the machine `m'`. -/
def Returns (rounds : Nat) (t : Task) (m : Machine) (v : Value) (m' : Machine) : Prop :=
  ∃ keyword value m₁, Leads rounds t m (.stmt (.yield keyword value)) m₁ ∧
    returnedValue rounds value m₁ = .ok v m'

variable {rounds : Nat} {t t' : Task} {m m' m₁ : Machine} {v : Value}

theorem execute_yield_iff {keyword : Token} {value : Option Expr} :
    execute rounds (.yield keyword value) m = .ok (.returned v) m' ↔
      returnedValue rounds value m = .ok v m' := by
  cases value with
  | none =>
    constructor <;>
    · intro h
      cases h
      rfl
  | some e =>
    constructor
    · intro h
      obtain ⟨w, m₁, hw, h⟩ := ok_of_bind h
      cases h
      exact hw
    · exact bind_of_ok

theorem Machine.withFrame_of_eq {f : FrameId} (h : m.frame = f) : { m with frame := f } = m := by
  rw [← h]

/-! ## Ends of statements and of what they lead to -/

/-- A task whose statements lead to a return ends with it. -/
theorem Enters.ends_returned (he : Enters rounds t m t' m₁) (ht : t.Statement)
    (ht' : t'.Statement) (h : t'.Ends rounds m₁ (.returned v) m') :
    t.Ends rounds m (.returned v) { m' with frame := m.frame } := by
  -- only a block works in another frame than what is around it
  have hkeep : ∀ {t : Task}, t.Ends rounds m (.returned v) m' → m'.frame = m.frame →
      t.Ends rounds m (.returned v) { m' with frame := m.frame } :=
    fun h hframe => (Machine.withFrame_of_eq hframe).symm ▸ h
  cases he with
  | block => exact execute_block_of_ok h
  | @branchThen _ _ elseCase _ _ _ hv htruthy =>
    refine hkeep ?_ ((frame_of_execute h).trans (frame_of_evaluate hv))
    cases elseCase <;> exact (bind_of_ok hv).trans ((ite_of_true htruthy).trans h)
  | branchElse hv htruthy =>
    refine hkeep ?_ ((frame_of_execute h).trans (frame_of_evaluate hv))
    exact (bind_of_ok hv).trans ((ite_of_false htruthy).trans h)
  | loop => exact hkeep h (((Task.loop _ _ _).steady_run rounds).of_ok h).frame
  | first => exact hkeep (bind_of_ok h) (frame_of_execute h)
  | more hs =>
    refine hkeep ((bind_of_ok hs).trans h) ?_
    exact (((Task.stmts _).steady_run rounds).of_ok h).frame.trans (frame_of_execute hs)
  | loopBody hv htruthy =>
    refine hkeep ?_ ((frame_of_execute h).trans (frame_of_evaluate hv))
    exact (bind_of_ok hv).trans ((ite_of_true htruthy).trans (bind_of_ok h))
  | nextRound hv htruthy hb =>
    refine hkeep ((bind_of_ok hv).trans ((ite_of_true htruthy).trans ((bind_of_ok hb).trans h))) ?_
    exact (((Task.loop _ _ _).steady_run rounds).of_ok h).frame.trans
      ((frame_of_execute hb).trans (frame_of_evaluate hv))
  | body => exact ht.elim
  | _ => exact ht'.elim

theorem Leads.ends_returned (hl : Leads rounds t m t' m₁) (ht : t.Statement)
    (h : t'.Ends rounds m₁ (.returned v) m') :
    t.Ends rounds m (.returned v) { m' with frame := m.frame } := by
  induction hl with
  | @here t m =>
    -- a statement is over in the frame where it began
    have hframe : m'.frame = m.frame := by
      cases t with
      | stmt s => exact frame_of_execute h
      | stmts ss => exact (((Task.stmts ss).steady_run rounds).of_ok h).frame
      | loop condition body left =>
        exact (((Task.loop condition body left).steady_run rounds).of_ok h).frame
      | _ => exact ht.elim
    exact (Machine.withFrame_of_eq hframe).symm ▸ h
  | step he ht₁ _ ih =>
    have hreturned := he.ends_returned ht ht₁ (ih ht₁ h)
    exact hreturned

/-- Only returns, blocks, branches and loops end with a return. -/
theorem entered_of_execute_returned {s : Stmt} (h : execute rounds s m = .ok (.returned v) m') :
    (∃ keyword value, s = .yield keyword value) ∨
      ∃ t₁ m₁ m₂, Enters rounds (.stmt s) m t₁ m₁ ∧ t₁.Statement ∧
        t₁.Ends rounds m₁ (.returned v) m₂ := by
  -- simple statements never return
  have hsimple : ¬s.Simple := by
    intro hs
    have hnormal : Body.topLevel.Allows (.returned v) := hs.endsIn_exec m _ m' h
    cases hnormal
  cases s with
  | yield keyword value => exact .inl ⟨keyword, value, rfl⟩
  | block body =>
    refine .inr ?_
    cases hb : (Task.stmts body).run rounds (m.inNewFrame m.frame []) with
    | error e m₁ =>
      rw [execute_block_of_error hb] at h
      cases h
    | ok flow m₁ =>
      rw [execute_block_of_ok hb] at h
      cases h
      exact ⟨_, _, _, .block, trivial, hb⟩
  | branch condition thenCase elseCase =>
    refine .inr ?_
    cases elseCase with
    | none =>
      obtain ⟨w, m₁, hw, h⟩ := ok_of_bind h
      rcases eq_false_or_eq_true w.truthy with ht | ht
      · exact ⟨_, _, _, .branchThen hw ht, trivial, (ite_of_true ht).symm.trans h⟩
      · rw [ite_of_false ht] at h
        cases h
    | some elseCase =>
      obtain ⟨w, m₁, hw, h⟩ := ok_of_bind h
      rcases eq_false_or_eq_true w.truthy with ht | ht
      · exact ⟨_, _, _, .branchThen hw ht, trivial, (ite_of_true ht).symm.trans h⟩
      · exact ⟨_, _, _, .branchElse hw ht, trivial, (ite_of_false ht).symm.trans h⟩
  | loop condition body => exact .inr ⟨_, _, _, .loop, trivial, h⟩
  | _ => exact absurd trivial hsimple

/-- A task that ends with a return is a return, or goes into a task that ends with it. -/
theorem Task.Ends.entered (h : t.Ends rounds m (.returned v) m') :
    (∃ keyword value, t = .stmt (.yield keyword value)) ∨
      ∃ t₁ m₁ m₂, Enters rounds t m t₁ m₁ ∧ t₁.Statement ∧
        t₁.Ends rounds m₁ (.returned v) m₂ := by
  cases t with
  | stmt s =>
    refine (entered_of_execute_returned h).imp_left ?_
    rintro ⟨keyword, value, rfl⟩
    exact ⟨keyword, value, rfl⟩
  | stmts ss =>
    refine .inr ?_
    cases ss with
    | nil => cases h
    | cons s rest =>
      obtain ⟨flow, m₁, hs, h⟩ := ok_of_bind h
      cases flow with
      | normal => exact ⟨_, _, _, .more hs, trivial, h⟩
      | returned w =>
        cases h
        exact ⟨_, _, _, .first, trivial, hs⟩
  | loop condition body left =>
    refine .inr ?_
    cases left with
    | zero => cases h
    | succ left =>
      obtain ⟨w, m₁, hw, h⟩ := ok_of_bind h
      rcases eq_false_or_eq_true w.truthy with ht | ht
      · rw [ite_of_true ht] at h
        obtain ⟨flow, m₂, hb, h⟩ := ok_of_bind h
        cases flow with
        | normal => exact ⟨_, _, _, .nextRound hw ht hb, trivial, h⟩
        | returned u =>
          cases h
          exact ⟨_, _, _, .loopBody hw ht, trivial, hb⟩
      · rw [ite_of_false ht] at h
        cases h
  | _ => exact h.elim

theorem Returns.step (he : Enters rounds t m t' m₁) (ht : t'.Statement)
    (h : Returns rounds t' m₁ v m') : Returns rounds t m v m' := by
  obtain ⟨keyword, value, m₂, hl, hv⟩ := h
  exact ⟨keyword, value, m₂, .step he ht hl, hv⟩

theorem Task.Ends.unique {flow flow' : Flow} {m'' : Machine} (h : t.Ends rounds m flow m')
    (h' : t.Ends rounds m flow' m'') : flow' = flow ∧ m'' = m' := by
  cases t with
  | stmt _ | stmts _ | loop _ _ _ =>
    cases h.symm.trans h'
    exact ⟨rfl, rfl⟩
  | _ => exact h.elim

/-- A task that ends with a return has come to one. -/
theorem Task.Ends.returns (h : t.Ends rounds m (.returned v) m') :
    ∃ m₁, Returns rounds t m v m₁ := by
  refine Task.induction_enters rounds (P := fun t m => ∀ m', t.Ends rounds m (.returned v) m' →
    ∃ m₁, Returns rounds t m v m₁) ?_ t m m' h
  intro t m ih m' h
  rcases h.entered with ⟨keyword, value, rfl⟩ | ⟨t₁, m₁, m₂, he, ht₁, h₁⟩
  · exact ⟨m', keyword, value, m, .here, execute_yield_iff.1 h⟩
  · obtain ⟨m₃, hreturns⟩ := ih t₁ m₁ he m₂ h₁
    exact ⟨m₃, hreturns.step he ht₁⟩

theorem Returns.ends (h : Returns rounds t m v m') (ht : t.Statement) :
    t.Ends rounds m (.returned v) { m' with frame := m.frame } := by
  obtain ⟨keyword, value, m₁, hl, hv⟩ := h
  exact hl.ends_returned ht (execute_yield_iff.2 hv)

theorem Returns.of_leads (hl : Leads rounds t m t' m₁) (h : Returns rounds t' m₁ v m') :
    Returns rounds t m v m' := by
  induction hl with
  | here => exact h
  | step he ht _ ih => exact (ih h).step he ht

/-- Statements end with a return exactly if they come to one, and then with its value. The
machine is as the return left it, in the frame that it was in before. -/
theorem ends_returned_iff (ht : t.Statement) :
    t.Ends rounds m (.returned v) m' ↔
      ∃ m₁, Returns rounds t m v m₁ ∧ m' = { m₁ with frame := m.frame } := by
  constructor
  · intro h
    obtain ⟨m₁, hreturns⟩ := h.returns
    exact ⟨m₁, hreturns, (hreturns.ends ht).unique h |>.2⟩
  · rintro ⟨m₁, hreturns, rfl⟩
    exact hreturns.ends ht

/-! ## Nothing after a return -/

/-- No statement is executed after one that comes to a return. -/
theorem not_enters_rest {s : Stmt} {rest : List Stmt} (h : Returns rounds (.stmt s) m v m') :
    ¬Enters rounds (.stmts (s :: rest)) m (.stmts rest) m₁ := by
  intro he
  have hs := h.ends trivial
  cases he with
  | more hs' => cases hs.symm.trans hs'

/-- A loop whose body comes to a return is not gone on with. -/
theorem not_enters_nextRound {condition : Expr} {body : Stmt} {left left' : Nat}
    {m₂ : Machine} {w : Value} (hw : evaluate rounds condition m = .ok w m₁)
    (h : Returns rounds (.stmt body) m₁ v m') :
    ¬Enters rounds (.loop condition body left) m (.loop condition body left') m₂ := by
  intro he
  have hbody := h.ends trivial
  cases he with
  | nextRound hw' _ hbody' =>
    cases hw.symm.trans hw'
    cases hbody.symm.trans hbody'

end Lox
