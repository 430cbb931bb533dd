import Lox.Proofs.Eval.Alike
import Lox.Proofs.Scope.Alike
import Lox.Proofs.Session.Accepted

/-
  Requests that are alike

  If two sessions begin to evaluate trees that are alike, on machines that are
  alike, they give answers that are alike and are left with machines that are
  alike (`Session.Begins.alike`).
-/

namespace Lox

open Eval

variable {L : Likeness}

/-- Answers of evaluations that are alike. -/
inductive Answer.Alike (L : Likeness) : Answer → Answer → Prop
  | done : Answer.Alike L .done .done
  | value {v v' : Value} : v.Alike L v' → Answer.Alike L (.value v) (.value v')
  | program {l l' : Nat} (problem : RuntimeProblem) : L.lines l l' →
      Answer.Alike L (.failed (.failed (.program l problem))) (.failed (.failed (.program l' problem)))
  | host (problem : HostProblem) :
      Answer.Alike L (.failed (.failed (.host problem))) (.failed (.failed (.host problem)))
  | unfinished : Answer.Alike L .unfinished .unfinished

/-- Trees at the top level that are alike. -/
inductive Task.Alike (L : Likeness) : Task → Task → Prop
  | expr {e e' : Expr} : e.Alike L e' → Task.Alike L (.expr e) (.expr e')
  | stmts {ss ss' : List Stmt} : Stmt.AllAlike L ss ss' → Task.Alike L (.stmts ss) (.stmts ss')

/-- A tree at the top level on other lines and under other ids. -/
def Task.relabel (line id : Nat → Nat) : Task → Task
  | .expr e => .expr (e.relabel line id)
  | .stmts ss => .stmts (Stmt.relabelAll line id ss)
  | t => t

namespace Session

variable {r r' : Request} {s s₁ s' s₁' : Session} {t t' : Task}

/-- An evaluation at the top level is a program or an expression. -/
theorem Begins.alike_relabel (h : Begins r s t s₁) {line id : Nat → Nat}
    (hline : ∀ l, L.lines l (line l))
    (hid : ∀ i, s.nextId ≤ i → i < s₁.nextId → L.ids i (id i)) :
    t.Alike L (t.relabel line id) := by
  have hsites : SitesAlike L id t.sites := fun site hs => by
    obtain ⟨-, -, hfills, -⟩ := h.recorded
    obtain ⟨hlow, hhigh⟩ := hfills.mem_iff.1 (List.mem_map_of_mem hs)
    exact hid site.id hlow hhigh
  cases h with
  | run _ _ _ => exact .stmts (Stmt.alike_relabelAll hline _ hsites)
  | evaluate _ _ _ => exact .expr (Expr.alike_relabel hline _ hsites)

/-- What evaluations that end alike are answered. -/
theorem conclude_alike {α β : Type} {Q : α → β → Prop} {x : Eval α} {y : Eval β}
    {f : α → Answer} {f' : β → Answer} (hend : EndAlike L Q (x s.machine) (y s'.machine))
    (hf : ∀ a b, Q a b → (f a).Alike L (f' b)) :
    (conclude f (onMachine x s)).1.Alike L (conclude f' (onMachine y s')).1 ∧
      (conclude f (onMachine x s)).2.machine.Alike L (conclude f' (onMachine y s')).2.machine := by
  rw [onMachine, onMachine]
  generalize x s.machine = end₁ at hend
  generalize y s'.machine = end₂ at hend
  cases hend with
  | ok hq hn => exact ⟨hf _ _ hq, hn⟩
  | error he hn =>
    cases he with
    | program problem hl => exact ⟨.program problem hl, hn⟩
    | host problem => exact ⟨.host problem, hn⟩
    | outOfFuel => exact ⟨.unfinished, hn⟩

/-- Evaluations of trees that are alike, on machines that are alike. -/
theorem Begins.alike (rounds : Nat) (h : Begins r s t s₁) (h' : Begins r' s' t' s₁') (ht : t.Alike L t')
    (hm : s₁.machine.Alike L s₁'.machine) :
    (s.perform rounds r).1.Alike L (s'.perform rounds r').1 ∧
      (s.perform rounds r).2.machine.Alike L (s'.perform rounds r').2.machine := by
  cases ht with
  | expr he =>
    cases h with
    | evaluate hl hp hr =>
      cases h' with
      | evaluate hl' hp' hr' =>
        rw [perform, perform, evaluate_of_begins (.evaluate hl hp hr),
          evaluate_of_begins (.evaluate hl' hp' hr')]
        exact conclude_alike (he.evaluate rounds _ _ hm) fun _ _ hv => .value hv
  | stmts hs =>
    cases h with
    | run hl hp hr =>
      cases h' with
      | run hl' hp' hr' =>
        rw [perform, perform, run_of_begins (.run hl hp hr), run_of_begins (.run hl' hp' hr')]
        exact conclude_alike (hs.interpret rounds _ _ hm) fun _ _ _ => .done

end Session

/-! ## Sessions that are alike to themselves -/

/-- A likeness for each number of ids, in which ids only stand for themselves, and more
does so the more ids there are. -/
structure Likeness.OfIds (L : Nat → Likeness) : Prop where
  mono : ∀ {k n : Nat}, k ≤ n → (L k).Le (L n)
  same : ∀ {k i j : Nat}, (L k).ids i j → j = i

namespace Session

/-- All that a session holds is alike to itself. -/
def SelfAlike (L : Nat → Likeness) (s : Session) : Prop := s.machine.Alike (L s.nextId) s.machine

namespace SelfAlike

variable {L : Nat → Likeness} (hL : Likeness.OfIds L) {r : Request} {s s₁ : Session} {t : Task}
include hL

theorem begins (hs : s.SelfAlike L) (h : Begins r s t s₁) : s₁.SelfAlike L := by
  obtain ⟨-, -, -, hrecord⟩ := h.recorded
  rw [SelfAlike, hrecord]
  exact Machine.Alike.withDistances hs (hL.mono h.nextId_le) fun i j hi => hL.same hi ▸ rfl

/-- A request whose tree is alike to itself adds nothing else. -/
theorem perform (hs : s.SelfAlike L) (rounds : Nat)
    (hr : ∀ s t s₁, Begins r s t s₁ → t.Alike (L s₁.nextId) t) :
    (s.perform rounds r).2.SelfAlike L := by
  obtain ⟨t, s₁, h⟩ | ⟨a, k, h, hk, -⟩ := perform_cases rounds s r
  · have halike := (h.alike rounds h (hr _ _ _ h) (begins hL hs h)).2
    rw [SelfAlike]
    rw [h.session_eq] at halike ⊢
    exact halike
  · rw [h]
    exact Machine.Alike.withDistances hs (hL.mono hk) fun i j hi => hL.same hi ▸ rfl

theorem afterAll (hs : s.SelfAlike L) (rounds : Nat) {rs : List Request}
    (hrs : ∀ r ∈ rs, ∀ s t s₁, Begins r s t s₁ → t.Alike (L s₁.nextId) t) :
    (s.afterAll rounds rs).SelfAlike L := by
  induction rs generalizing s with
  | nil => exact hs
  | cons r rs ih =>
    exact ih (hs.perform hL rounds (hrs r (.head _))) fun r' hr' => hrs r' (.tail _ hr')

end SelfAlike
end Session
end Lox
