import Lox.Proofs.Eval.Run
import Lox.Proofs.Scope.Returns

/-
  How statements end

  A statement goes through, or it returns. Which of these ends are possible depends
  on the body that it stands in, provided that its returns are allowed there
  (`Stmt.endsIn_exec`): at the top level nothing returns, and in a method named `init`
  nothing returns but `nil`.
-/

namespace Lox

open Eval

/-- The ends that statements in a body of this kind may come to. -/
def Body.Allows : Body → Flow → Prop
  | .topLevel, flow => flow = .normal
  | .initializer, flow => flow = .normal ∨ flow = .returned .nil
  | .function, _ | .method, _ => True

theorem Body.allows_normal (kind : Body) : kind.Allows .normal := by
  cases kind with
  | topLevel => rfl
  | initializer => exact .inl rfl
  | function | method => trivial

/-- A value is returned from functions and from methods other than `init`. -/
theorem Body.allows_returned {kind : Body} (htop : kind ≠ .topLevel)
    (hinit : kind ≠ .initializer) (v : Value) : kind.Allows (.returned v) := by
  cases kind with
  | topLevel => exact absurd rfl htop
  | initializer => exact absurd rfl hinit
  | function | method => trivial

theorem Body.allows_returned_nil {kind : Body} (htop : kind ≠ .topLevel) :
    kind.Allows (.returned .nil) := by
  cases kind with
  | topLevel => exact absurd rfl htop
  | initializer => exact .inr rfl
  | function | method => trivial

namespace Eval

/-- The step ends only as a body of this kind may. -/
def EndsIn (kind : Body) (x : Eval Flow) : Prop :=
  ∀ m flow m', x m = .ok flow m' → kind.Allows flow

namespace EndsIn

variable {kind : Body}

theorem pure {flow : Flow} (h : kind.Allows flow) : EndsIn kind (Pure.pure flow) := by
  intro m flow' m' hrun
  cases hrun
  exact h

theorem normal : EndsIn kind (Pure.pure .normal) := pure kind.allows_normal

theorem throw (e : Halt RuntimeError) : EndsIn kind (MonadExcept.throw e) := nofun

theorem bind {α : Type} {x : Eval α} {g : α → Eval Flow} (hg : ∀ a, EndsIn kind (g a)) :
    EndsIn kind (x >>= g) := by
  intro m flow m' h
  obtain ⟨a, m₁, -, h⟩ := ok_of_bind h
  exact hg a m₁ flow m' h

theorem ite {c : Prop} [Decidable c] {x y : Eval Flow} (hx : EndsIn kind x) (hy : EndsIn kind y) :
    EndsIn kind (if c then x else y) := by
  split
  · exact hx
  · exact hy

theorem inFrame (f : FrameId) {x : Eval Flow} (hx : EndsIn kind x) :
    EndsIn kind (Eval.inFrame f x) := by
  intro m flow m' h
  cases hr : x { m with frame := f } with
  | ok a n =>
    rw [inFrame_of_ok hr] at h
    cases h
    exact hx _ _ _ hr
  | error e n =>
    rw [inFrame_of_error hr] at h
    cases h

/-- A step that is gone on from only where it went through. -/
theorem next {x : Eval Flow} {g : Flow → Eval Flow} (hx : EndsIn kind x)
    (hg : EndsIn kind (g .normal)) (hreturned : ∀ v, g (.returned v) = Pure.pure (.returned v)) :
    EndsIn kind (x >>= g) := by
  intro m flow m' h
  obtain ⟨first, m₁, hfirst, h⟩ := ok_of_bind h
  cases first with
  | normal => exact hg m₁ flow m' h
  | returned v =>
    rw [hreturned] at h
    cases h
    exact hx m _ _ hfirst

theorem «repeat» (condition : Eval Value) {body : Eval Flow} (hb : EndsIn kind body)
    (rounds : Nat) : EndsIn kind (Eval.repeat condition body rounds) := by
  induction rounds with
  | zero => exact .throw _
  | succ rounds ih => exact .bind fun _ => .ite (.next hb ih fun _ => rfl) .normal

end EndsIn
end Eval

section Trees

variable {body : List Stmt → Eval Flow} {rounds : Nat} {kind : Body}

/-- Statements that execute no others in the same body. -/
def Stmt.Simple : Stmt → Prop
  | .expression _ | .print _ | .varDecl _ _ | .function _ | .classDecl _ _ _ => True
  | _ => False

/-- Simple statements go through, or they fail. -/
theorem Stmt.Simple.endsIn_exec : {s : Stmt} → s.Simple → EndsIn kind (s.exec body rounds)
  | .expression _, _ => .bind fun _ => .normal
  | .print _, _ => .bind fun _ => .bind fun _ => .normal
  | .varDecl _ none, _ => .bind fun _ => .normal
  | .varDecl _ (some _), _ => .bind fun _ => .bind fun _ => .normal
  | .function _, _ => .bind fun _ => .bind fun _ => .bind fun _ => .normal
  | .classDecl _ none _, _ => .bind fun _ => .bind fun _ => .normal
  | .classDecl _ (some _) _, _ =>
    .bind fun _ => .bind fun _ => .bind fun _ => .bind fun _ => .normal

mutual

/-- A statement whose returns are allowed ends as it may. -/
theorem Stmt.endsIn_exec : (s : Stmt) → s.ReturnsIn kind → EndsIn kind (s.exec body rounds)
  | .expression _, _ | .print _, _ | .varDecl _ _, _ | .function _, _ | .classDecl _ _ _, _ =>
    Stmt.Simple.endsIn_exec trivial
  | .block statements, h =>
    .bind fun _ => .bind fun f => .inFrame f (Stmt.endsIn_execAll statements h)
  | .branch _ thenCase none, h => .bind fun _ => .ite (thenCase.endsIn_exec h) .normal
  | .branch _ thenCase (some elseCase), h =>
    .bind fun _ => .ite (thenCase.endsIn_exec h.1) (elseCase.endsIn_exec h.2)
  | .loop _ inner, h => .repeat _ (inner.endsIn_exec h) rounds
  | .yield _ none, h => .pure (Body.allows_returned_nil h.1)
  | .yield _ (some _), h =>
    .bind fun v => .pure (Body.allows_returned h.1 (fun hinit => nomatch h.2 hinit) v)

theorem Stmt.endsIn_execAll : (ss : List Stmt) → Stmt.AllReturnIn ss kind →
    EndsIn kind (Stmt.execAll body rounds ss)
  | [], _ => .normal
  | s :: rest, h => .next (s.endsIn_exec h.1) (Stmt.endsIn_execAll rest h.2) fun _ => rfl

end

end Trees
end Lox
