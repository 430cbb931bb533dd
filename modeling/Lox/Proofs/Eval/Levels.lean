import Lox.Proofs.Eval.Steady

/-
  Levels — bodies of calls, however many levels they are given

  `runBody` hands the bodies of calls one level less at each call. Calls are
  only nested as deeply as `maxCallDepth`, so with more levels than that it
  makes no difference how many there are, and running a body is executing its
  statements (`runBody_eq`).
-/

namespace Lox
namespace Eval

/-- Two steps do the same when calls are nested `d` deep. -/
def SameAt {α : Type} (d : Nat) (x y : Eval α) : Prop := ∀ m : Machine, m.depth = d → x m = y m

namespace SameAt

variable {α β : Type} {d : Nat}

theorem refl (x : Eval α) : SameAt d x x := fun _ _ => rfl

/-- A steady step leads to a machine of the same depth. -/
theorem bind {x y : Eval α} {f g : α → Eval β} (hxy : SameAt d x y) (hx : Steady x)
    (hfg : ∀ a, SameAt d (f a) (g a)) : SameAt d (x >>= f) (y >>= g) := by
  intro m hm
  cases h : x m with
  | ok a m₁ =>
    rw [bind_of_ok h, bind_of_ok ((hxy m hm).symm.trans h)]
    exact hfg a m₁ ((hx.of_ok h).depth.trans hm)
  | error e m₁ => rw [bind_of_error h, bind_of_error ((hxy m hm).symm.trans h)]

theorem ite {c : Prop} [Decidable c] {x y x' y' : Eval α} (hx : SameAt d x x')
    (hy : SameAt d y y') : SameAt d (if c then x else y) (if c then x' else y') := by
  split
  · exact hx
  · exact hy

theorem inFrame (f : FrameId) {x y : Eval α} (h : SameAt d x y) :
    SameAt d (Eval.inFrame f x) (Eval.inFrame f y) := by
  intro m hm
  rw [Eval.inFrame, Eval.inFrame, h { m with frame := f } hm]

theorem oneDeeper {x y : Eval α} (h : SameAt (d + 1) x y) :
    SameAt d (Eval.oneDeeper x) (Eval.oneDeeper y) := by
  intro m hm
  rw [Eval.oneDeeper, Eval.oneDeeper, h { m with depth := m.depth + 1 } (by simp [hm])]

section Bodies

variable {body body' : List Stmt → Eval Flow} (hs : ∀ ss, Steady (body ss))
include hs

theorem callFunction (h : ∀ ss, SameAt d (body ss) (body' ss)) (closure : Closure)
    (arguments : List Value) :
    SameAt d (Eval.callFunction body closure arguments)
      (Eval.callFunction body' closure arguments) := by
  refine .bind (.refl _) (steady.newFrame _) fun f => .bind (.refl _) (fun _ => .withHeap _ _)
    fun _ => .bind (.inFrame f (h _)) ?_ fun _ => .refl _
  exact .inFrame f (hs _)

theorem invoke (h : ∀ ss, SameAt d (body ss) (body' ss)) (callee : Value)
    (arguments : List Value) :
    SameAt d (Eval.invoke body callee arguments) (Eval.invoke body' callee arguments) := by
  cases callee with
  | function _ closure => exact callFunction hs h closure arguments
  | cls _ c =>
    refine .bind (.refl _) steady.newObject fun _ => ?_
    split
    · exact .bind (.refl _) (steady.boundClosure _ _ _) fun _ =>
        .bind (callFunction hs h _ _) (steady.callFunction hs _ _) fun _ => .refl _
    · exact .refl _
  | _ => exact .refl _

/-- The body of a call is run one level deeper, and no deeper than allowed. -/
theorem call (h : d < maxCallDepth → ∀ ss, SameAt (d + 1) (body ss) (body' ss)) (paren : Token)
    (callee : Value) (arguments : List Value) :
    SameAt d (Eval.call body paren callee arguments) (Eval.call body' paren callee arguments) := by
  intro m hm
  cases ha : callee.arity? with
  | none => rw [call_of_not_callable ha, call_of_not_callable ha]
  | some arity =>
    by_cases hl : arguments.length = arity
    · subst hl
      rcases Nat.lt_or_ge m.depth maxCallDepth with hd | hd
      · rw [call_of_checked ha hd, call_of_checked ha hd]
        exact oneDeeper (invoke hs (h (hm ▸ hd)) callee arguments) m hm
      · rw [call_of_too_deep ha hd, call_of_too_deep ha hd]
    · rw [call_of_arity_ne ha hl, call_of_arity_ne ha hl]

end Bodies

theorem «repeat» {condition condition' : Eval Value} {body body' : Eval Flow}
    (hc : SameAt d condition condition') (hsc : Steady condition) (hb : SameAt d body body')
    (hsb : Steady body) (rounds : Nat) :
    SameAt d (Eval.repeat condition body rounds) (Eval.repeat condition' body' rounds) := by
  induction rounds with
  | zero => exact .refl _
  | succ rounds ih =>
    refine .bind hc hsc fun _ => .ite (.bind hb hsb fun flow => ?_) (.refl _)
    cases flow with
    | normal => exact ih
    | returned v => exact .refl _

end SameAt
end Eval

open Eval

section Trees

variable {d : Nat} {body body' : List Stmt → Eval Flow}

mutual

theorem Expr.sameAt_eval (hs : ∀ ss, Steady (body ss))
    (h : d < maxCallDepth → ∀ ss, SameAt (d + 1) (body ss) (body' ss)) :
    (e : Expr) → SameAt d (e.eval body) (e.eval body')
  | .number _ | .string _ | .boolean _ | .nil => .refl _
  | .group inner => Expr.sameAt_eval hs h inner
  | .unary _ operand => .bind (Expr.sameAt_eval hs h operand) (steady.eval hs operand) fun _ => .refl _
  | .binary left _ right =>
    .bind (Expr.sameAt_eval hs h left) (steady.eval hs left) fun _ =>
      .bind (Expr.sameAt_eval hs h right) (steady.eval hs right) fun _ => .refl _
  | .logical left _ right =>
    .bind (Expr.sameAt_eval hs h left) (steady.eval hs left) fun _ =>
      .ite (.refl _) (Expr.sameAt_eval hs h right)
  | .choice condition thenCase elseCase =>
    .bind (Expr.sameAt_eval hs h condition) (steady.eval hs condition) fun _ =>
      .ite (Expr.sameAt_eval hs h thenCase) (Expr.sameAt_eval hs h elseCase)
  | .comma items => Expr.sameAt_evalLast hs h items .nil
  | .var _ _ => .refl _
  | .assign _ _ value =>
    .bind (Expr.sameAt_eval hs h value) (steady.eval hs value) fun _ => .refl _
  | .call callee paren arguments =>
    .bind (Expr.sameAt_eval hs h callee) (steady.eval hs callee) fun _ =>
      .bind (Expr.sameAt_evalAll hs h arguments) (steady.evalAll hs arguments) fun _ =>
        .call hs h paren _ _
  | .get object _ => .bind (Expr.sameAt_eval hs h object) (steady.eval hs object) fun _ => .refl _
  | .set object _ value => by
    refine .bind (Expr.sameAt_eval hs h object) (steady.eval hs object) fun o => ?_
    cases o with
    | object id c =>
      exact .bind (Expr.sameAt_eval hs h value) (steady.eval hs value) fun _ => .refl _
    | _ => exact .refl _
  | .self _ _ => .refl _
  | .super _ _ _ => .refl _

theorem Expr.sameAt_evalLast (hs : ∀ ss, Steady (body ss))
    (h : d < maxCallDepth → ∀ ss, SameAt (d + 1) (body ss) (body' ss)) :
    (es : List Expr) → (last : Value) →
      SameAt d (Expr.evalLast body last es) (Expr.evalLast body' last es)
  | [], _ => .refl _
  | e :: es, _ =>
    .bind (Expr.sameAt_eval hs h e) (steady.eval hs e) fun v => Expr.sameAt_evalLast hs h es v

theorem Expr.sameAt_evalAll (hs : ∀ ss, Steady (body ss))
    (h : d < maxCallDepth → ∀ ss, SameAt (d + 1) (body ss) (body' ss)) :
    (es : List Expr) → SameAt d (Expr.evalAll body es) (Expr.evalAll body' es)
  | [] => .refl _
  | e :: es =>
    .bind (Expr.sameAt_eval hs h e) (steady.eval hs e) fun _ =>
      .bind (Expr.sameAt_evalAll hs h es) (steady.evalAll hs es) fun _ => .refl _

end

variable {rounds : Nat}

mutual

theorem Stmt.sameAt_exec (hs : ∀ ss, Steady (body ss))
    (h : d < maxCallDepth → ∀ ss, SameAt (d + 1) (body ss) (body' ss)) :
    (s : Stmt) → SameAt d (s.exec body rounds) (s.exec body' rounds)
  | .expression e => .bind (e.sameAt_eval hs h) (steady.eval hs e) fun _ => .refl _
  | .print e => .bind (e.sameAt_eval hs h) (steady.eval hs e) fun _ => .refl _
  | .varDecl _ none => .refl _
  | .varDecl _ (some initial) =>
    .bind (initial.sameAt_eval hs h) (steady.eval hs initial) fun _ => .refl _
  | .block statements =>
    .bind (.refl _) steady.currentFrame fun _ => .bind (.refl _) (steady.newFrame _) fun _ =>
      .inFrame _ (Stmt.sameAt_execAll hs h statements)
  | .branch condition thenCase none =>
    .bind (condition.sameAt_eval hs h) (steady.eval hs condition) fun _ =>
      .ite (Stmt.sameAt_exec hs h thenCase) (.refl _)
  | .branch condition thenCase (some elseCase) =>
    .bind (condition.sameAt_eval hs h) (steady.eval hs condition) fun _ =>
      .ite (Stmt.sameAt_exec hs h thenCase) (Stmt.sameAt_exec hs h elseCase)
  | .loop condition inner =>
    .repeat (condition.sameAt_eval hs h) (steady.eval hs condition) (Stmt.sameAt_exec hs h inner)
      (steady.exec hs inner) rounds
  | .function _ => .refl _
  | .yield _ none => .refl _
  | .yield _ (some value) => .bind (value.sameAt_eval hs h) (steady.eval hs value) fun _ => .refl _
  | .classDecl _ none _ => .refl _
  | .classDecl _ (some superclass) _ =>
    .bind (.refl _) (steady.define _ _) fun _ =>
      .bind (superclass.sameAt_eval hs h) (steady.eval hs superclass) fun _ => .refl _

theorem Stmt.sameAt_execAll (hs : ∀ ss, Steady (body ss))
    (h : d < maxCallDepth → ∀ ss, SameAt (d + 1) (body ss) (body' ss)) :
    (ss : List Stmt) → SameAt d (Stmt.execAll body rounds ss) (Stmt.execAll body' rounds ss)
  | [] => .refl _
  | s :: rest => by
    refine .bind (Stmt.sameAt_exec hs h s) (steady.exec hs s) fun flow => ?_
    cases flow with
    | normal => exact Stmt.sameAt_execAll hs h rest
    | returned v => exact .refl _

end

end Trees

/-- With levels for all calls that may still be nested, more levels make no
difference. -/
theorem sameAt_runBody (rounds : Nat) {n k d : Nat} (hn : maxCallDepth < n + d)
    (hk : maxCallDepth < k + d) (hd : d ≤ maxCallDepth) (ss : List Stmt) :
    SameAt d (runBody rounds n ss) (runBody rounds k ss) := by
  induction n generalizing k d ss with
  | zero => omega
  | succ n ih =>
    obtain ⟨k, rfl⟩ : ∃ j, k = j + 1 := ⟨k - 1, by omega⟩
    exact Stmt.sameAt_execAll (steady.runBody rounds n)
      (fun hlt ss => ih (by omega) (by omega) hlt ss) ss

/-- Running the body of a call is executing its statements. -/
theorem runBody_eq (rounds : Nat) (ss : List Stmt) {m : Machine} (hm : m.depth ≤ maxCallDepth) :
    runBody rounds callLevels ss m = Stmt.execAll (runBody rounds callLevels) rounds ss m := by
  have h : maxCallDepth < callLevels := Nat.lt_succ_self _
  exact sameAt_runBody rounds (k := callLevels + 1) (by omega) (by omega) hm ss m rfl

end Lox
