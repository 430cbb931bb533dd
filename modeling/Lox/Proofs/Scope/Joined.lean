import Lox.Proofs.Scope.Moved

/-
  Programs below programs — scopes

  Between statements at the top level a walk is where it began: no scope is
  open there. So a program that follows an accepted one is resolved as it would
  be by itself, and its distances are found beside those of the other one
  (`resolveProgram_append`).
-/

namespace Lox

open Resolution

theorem Stmt.resolveAll_append (ss ts : List Stmt) (r : Resolution) :
    Stmt.resolveAll (ss ++ ts) r = Stmt.resolveAll ts (Stmt.resolveAll ss r) := by
  induction ss generalizing r with
  | nil => rfl
  | cons s ss ih => exact ih _

/-- After an accepted program a walk goes on as from the start, over the distances
that were found. -/
theorem Resolution.Moved.behind {program : List Stmt} {ds : Distances} (g : Nat → Nat)
    (h : resolveProgram program = .ok ds) :
    Moved g 0 (fun id => ds[id]?) .start (Stmt.resolveAll program .start) := by
  have honward := Stmt.onwardAll program .start
  obtain ⟨herrors, rfl⟩ := Resolution.of_result h
  exact {
    scopes := honward.scopes.trans (Scopes.after_nil _)
    body := honward.body
    context := honward.context
    errors := herrors
    distances := fun id => by simp [Resolution.start] }

variable {program₁ program₂ : List Stmt} {ds₁ : Distances}

theorem resolveProgram_append_of_ok (g : Nat → Nat) (h₁ : resolveProgram program₁ = .ok ds₁)
    {ds₂ : Distances} (h₂ : resolveProgram program₂ = .ok ds₂) :
    ∃ ds, resolveProgram (program₁ ++ Stmt.relabelAll g (· + 0) program₂) = .ok ds ∧
      ∀ id : Nat, ds[id]? = (ds₂[id]?).or ds₁[id]? := by
  rw [resolveProgram, Stmt.resolveAll_append]
  exact (Stmt.moved_resolveAll program₂ (.behind g h₁)).result_of_ok h₂

theorem resolveProgram_append_of_error (g : Nat → Nat) (h₁ : resolveProgram program₁ = .ok ds₁)
    {errors : List ScopeError} (h₂ : resolveProgram program₂ = .error errors) :
    resolveProgram (program₁ ++ Stmt.relabelAll g (· + 0) program₂) =
      .error (errors.map (·.mapLine g)) := by
  rw [resolveProgram, Stmt.resolveAll_append]
  exact (Stmt.moved_resolveAll program₂ (.behind g h₁)).result_of_error h₂

end Lox
