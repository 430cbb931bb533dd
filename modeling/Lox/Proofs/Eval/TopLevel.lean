import Lox.Proofs.Eval.Flow

/-
  Statements at the top level

  A return at the top level breaks a static rule. So statements there whose walk
  reports nothing never end with a return (`Stmt.normal_execAll`), and statements
  that follow them are executed next.
-/

namespace Lox

open Eval

namespace Eval

/-- A step that does not end with a return. -/
def Normal (x : Eval Flow) : Prop := ∀ m f m', x m = .ok f m' → f = .normal

end Eval

section Trees

variable {body : List Stmt → Eval Flow} {rounds : Nat}

/-- Accepted statements at the top level do not return. -/
theorem Stmt.normal_execAll (ss : List Stmt) (r : Resolution) (hr : r.body = .topLevel)
    (h : (Stmt.resolveAll ss r).errors = []) : Normal (Stmt.execAll body rounds ss) := by
  have hreturns : Stmt.AllReturnIn ss .topLevel := hr ▸ Stmt.allReturnIn_of_resolve ss r h
  exact Stmt.endsIn_execAll ss hreturns

/-- What follows statements that did not return is executed next. -/
theorem Stmt.execAll_append_of_normal {ss : List Stmt} (ts : List Stmt) {m m₁ : Machine}
    (h : Stmt.execAll body rounds ss m = .ok .normal m₁) :
    Stmt.execAll body rounds (ss ++ ts) m = Stmt.execAll body rounds ts m₁ := by
  induction ss generalizing m with
  | nil =>
    cases h
    rfl
  | cons s ss ih =>
    obtain ⟨f, n, hs, hss⟩ := ok_of_bind h
    cases f with
    | normal => exact (bind_of_ok hs).trans (ih hss)
    | returned v => cases hss

/-- Statements at the top level are all executed, or up to the first one that fails. -/
theorem Stmt.execAll_topLevel_cases {ss : List Stmt} (h : Stmt.AllReturnIn ss .topLevel)
    (m : Machine) :
    (∃ m', Stmt.execAll body rounds ss m = .ok .normal m') ∨
      ∃ front s rest m₁ e m₂, ss = front ++ s :: rest ∧
        Stmt.execAll body rounds front m = .ok .normal m₁ ∧
        s.exec body rounds m₁ = .error e m₂ ∧ Stmt.execAll body rounds ss m = .error e m₂ := by
  induction ss generalizing m with
  | nil => exact .inl ⟨m, rfl⟩
  | cons s rest ih =>
    cases hs : s.exec body rounds m with
    | error e m₂ => exact .inr ⟨[], s, rest, m, e, m₂, rfl, rfl, hs, bind_of_error hs⟩
    | ok flow m₁ =>
      obtain rfl : flow = .normal := s.endsIn_exec h.1 m flow m₁ hs
      rcases ih h.2 m₁ with ⟨m', hrest⟩ | ⟨front, s', rest', m₂, e, m₃, rfl, hfront, hs', hrest⟩
      · exact .inl ⟨m', (bind_of_ok hs).trans hrest⟩
      · exact .inr ⟨s :: front, s', rest', m₂, e, m₃, rfl, (bind_of_ok hs).trans hfront, hs',
          (bind_of_ok hs).trans hrest⟩

/-- A program is run as the rest of it, once its front did not return. -/
theorem interpret_append_of_normal {ss : List Stmt} (ts : List Stmt) {m m₁ : Machine}
    (h : Stmt.execAll (runBody rounds callLevels) rounds ss m = .ok .normal m₁) :
    interpret rounds (ss ++ ts) m = interpret rounds ts m₁ := by
  show EStateM.bind _ _ m = EStateM.bind _ _ m₁
  rw [EStateM.bind, EStateM.bind, Stmt.execAll_append_of_normal ts h]

end Trees
end Lox
