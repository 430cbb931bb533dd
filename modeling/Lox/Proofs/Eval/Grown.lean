import Lox.Proofs.Eval.Scoped

/-
  Growth on the way

  After another task, which it entered, has ended, a task makes the heap grow further
  (`Good.extends_entered`). So the heaps of all moments that an evaluation comes to
  grow into the heap that the evaluation ends with (`Good.extends_reached`).
-/

namespace Lox

open Eval
open Bool (eq_false_or_eq_true)

variable {ok : Site → Prop} {made : FrameId → Opener → Prop} {rounds : Nat}

namespace Eval

section
variable {α β : Type} {x : Eval α} {f : α → Eval β} {m n : Machine} {P : α → Heap → Prop}

theorem after_congr {y : Eval α} (h : x m = y n) : x.after m = y.after n := by
  rw [after, after, h]

theorem after_bind_of_ok {a : α} (h : x m = .ok a n) : (x >>= f).after m = (f a).after n :=
  after_congr (bind_of_ok h)

theorem Safe.anyhow (h : Safe ok made x m P) : Safe ok made x m (fun _ _ => True) :=
  h.mono fun _ _ _ _ => trivial

/-- A step that ends as another one does. -/
theorem extends_of_eq {y : Eval α} (h : x m = y n) :
    (y.after n).heap.Extends (x.after m).heap := by
  rw [after_congr h]
  exact .refl _

/-- Safe steps after a first one make the heap grow further. -/
theorem Safe.extends_first {y : Eval β} {m₀ : Machine} (hx : Safe ok made x m P)
    (hy : y m₀ = (x >>= f) m)
    (hf : ∀ a n, x m = .ok a n → n.heap.Fitted ok made → P a n.heap →
      Safe ok made (f a) n (fun _ _ => True)) :
    (x.after m).heap.Extends (y.after m₀).heap := by
  rw [after_congr hy]
  cases h : x m with
  | ok a n =>
    obtain ⟨-, hfit, hp⟩ := hx.of_ok h
    rw [after_of_ok h, after_bind_of_ok h]
    exact (hf a n h hfit hp).extends_after
  | error e n =>
    rw [after_of_error h, after_of_error (bind_of_error h)]
    exact .refl _

theorem heap_after_inFrame (g : FrameId) :
    ((inFrame g x).after m).heap = (x.after { m with frame := g }).heap := by
  cases h : x { m with frame := g } with
  | ok a n => rw [after_of_ok h, after_of_ok (inFrame_of_ok h)]
  | error e n => rw [after_of_error h, after_of_error (inFrame_of_error h)]

theorem heap_after_oneDeeper :
    ((oneDeeper x).after m).heap = (x.after { m with depth := m.depth + 1 }).heap := by
  cases h : x { m with depth := m.depth + 1 } with
  | ok a n => rw [after_of_ok h, after_of_ok (oneDeeper_of_ok h)]
  | error e n => rw [after_of_error h, after_of_error (oneDeeper_of_error h)]

end

end Eval

variable {t t' : Task} {m m' : Machine}

/-- A function leaves the heap as its body does. -/
theorem heap_after_function {closure : Closure} {arguments : List Value}
    (hm : m.depth ≤ maxCallDepth) :
    ((callFunction (runBody rounds callLevels) closure arguments).after m).heap =
      (((Task.stmts closure.declaration.body).run rounds).after
        (closure.entered arguments m)).heap := by
  cases h : (Task.stmts closure.declaration.body).run rounds (closure.entered arguments m) with
  | error e n => rw [after_of_error h, after_of_error (callFunction_of_error hm h)]
  | ok flow n =>
    rw [after_of_ok h, after_congr (callFunction_of_ok hm h)]
    cases closure.initializer <;> rfl

theorem heap_after_block {body : List Stmt} :
    (((Task.stmt (.block body)).run rounds).after m).heap =
      (((Task.stmts body).run rounds).after (m.inNewFrame m.frame [])).heap :=
  heap_after_inFrame (m := { m with heap := (m.heap.newFrame (some m.frame)).2 }) m.heap.frames.size

/-! ## Behind what a task enters

The last step of a task ends as the task does. Behind the others there are safe steps, and
what these enter is safe as well.
-/

theorem extends_expr {e : Expr} (hgood : Good ok made (.expr e) m)
    (hmade : ∀ f o, Creates rounds (.expr e) m f o → made f o)
    (sub : SafeInside ok made rounds (.expr e) m) (he : Enters rounds (.expr e) m t' m') :
    ((t'.run rounds).after m').heap.Extends (((Task.expr e).run rounds).after m).heap := by
  have hs := hgood.settled
  cases he with
  | group | comma => exact .refl _
  | unary =>
    exact (sub .unary).extends_first rfl fun _ _ _ hfit _ => .ofExcept hfit fun _ _ => trivial
  | binaryLeft =>
    exact (sub .binaryLeft).extends_first rfl fun _ _ ha _ _ =>
      .bind (sub (.binaryRight ha)) fun _ _ _ _ hfit _ =>
        .ofExcept hfit fun _ _ => trivial
  | binaryRight h =>
    exact (sub (.binaryRight h)).extends_first (bind_of_ok h) fun _ _ _ hfit _ =>
      .ofExcept hfit fun _ _ => trivial
  | logicalLeft =>
    refine (sub .logicalLeft).extends_first rfl fun a _ ha hfit hv => ?_
    obtain hd | hd := eq_false_or_eq_true (decidesLogical _ a)
    · exact .congr (ite_of_true hd) (.pure hfit trivial)
    · exact .congr (ite_of_false hd) (sub (.logicalRight ha hd)).anyhow
  | logicalRight h hd => exact extends_of_eq ((bind_of_ok h).trans (ite_of_false hd))
  | choiceCondition =>
    refine (sub .choiceCondition).extends_first rfl fun v _ hv _ _ => ?_
    obtain ht | ht := eq_false_or_eq_true v.truthy
    · exact .congr (ite_of_true ht) (sub (.choiceThen hv ht)).anyhow
    · exact .congr (ite_of_false ht) (sub (.choiceElse hv ht)).anyhow
  | choiceThen h ht => exact extends_of_eq ((bind_of_ok h).trans (ite_of_true ht))
  | choiceElse h ht => exact extends_of_eq ((bind_of_ok h).trans (ite_of_false ht))
  | assigned =>
    exact (sub .assigned).extends_first rfl fun _ _ _ hfit hv =>
      .bind (.writeVariable hfit _ hs.1.1 hv) fun _ _ _ _ hfit _ =>
        .pure hfit trivial
  | callee =>
    exact (sub .callee).extends_first rfl fun _ _ hf _ _ =>
      .bind (sub (.arguments hf)) fun _ _ hvs _ _ _ => (sub (.call hf hvs)).anyhow
  | arguments h =>
    exact (sub (.arguments h)).extends_first (bind_of_ok h) fun _ _ hvs _ _ =>
      (sub (.call h hvs)).anyhow
  | call h h' => exact extends_of_eq ((bind_of_ok h).trans (bind_of_ok h'))
  | getObject =>
    refine (sub .getObject).extends_first rfl fun v _ hv hfit hfitted => ?_
    refine (Safe.getProperty hfit hfitted _ fun id c method hvalue hf hm => ?_).anyhow
    subst hvalue
    exact hmade _ _ (.property hv hf hm)
  | setObject =>
    refine (sub .setObject).extends_first rfl fun v _ hv hfit _ => ?_
    cases v with
    | object id c =>
      exact .bind (sub (.setValue hv)) fun _ _ _ _ hfit hw =>
        .bind (.setField hfit _ _ hw) fun _ _ _ _ hfit _ => .pure hfit trivial
    | _ => exact .fail hfit
  | setValue h =>
    exact (sub (.setValue h)).extends_first (bind_of_ok h) fun _ _ _ hfit hw =>
      .bind (.setField hfit _ _ hw) fun _ _ _ _ hfit _ =>
        .pure hfit trivial

theorem extends_items {last : Value} {es : List Expr}
    (sub : SafeInside ok made rounds (.items last es) m)
    (he : Enters rounds (.items last es) m t' m') :
    ((t'.run rounds).after m').heap.Extends (((Task.items last es).run rounds).after m).heap := by
  cases he with
  | item => exact (sub .item).extends_first rfl fun _ _ hv _ _ => (sub (.moreItems hv)).anyhow
  | moreItems h => exact extends_of_eq (bind_of_ok h)

theorem extends_operands {es : List Expr} (sub : SafeInside ok made rounds (.operands es) m)
    (he : Enters rounds (.operands es) m t' m') :
    ((t'.run rounds).after m').heap.Extends (((Task.operands es).run rounds).after m).heap := by
  cases he with
  | operand =>
    exact (sub .operand).extends_first rfl fun _ _ hv _ _ =>
      .bind (sub (.moreOperands hv)) fun _ _ _ _ hfit _ =>
        .pure hfit trivial
  | moreOperands h =>
    exact (sub (.moreOperands h)).extends_first (bind_of_ok h) fun _ _ _ hfit _ =>
      .pure hfit trivial

theorem extends_stmt {s : Stmt} (hgood : Good ok made (.stmt s) m)
    (hmade : ∀ f o, Creates rounds (.stmt s) m f o → made f o)
    (sub : SafeInside ok made rounds (.stmt s) m) (he : Enters rounds (.stmt s) m t' m') :
    ((t'.run rounds).after m').heap.Extends (((Task.stmt s).run rounds).after m).heap := by
  have hs := hgood.settled
  cases he with
  | loop => exact .refl _
  | expression =>
    exact (sub .expression).extends_first rfl fun _ _ _ hfit _ =>
      .pure hfit trivial
  | print =>
    exact (sub .print).extends_first rfl fun _ _ _ hfit _ =>
      .bind (.print hfit _) fun _ _ _ _ hfit _ => .pure hfit trivial
  | initial =>
    refine (sub .initial).extends_first rfl fun v n _ hfit hv => ?_
    obtain ⟨hext, hfit'⟩ := Safe.define hfit n.frame hs.1.1 hv
    exact .intro_ok (n := { n with heap := n.heap.define n.frame _ v }) rfl hext hfit' trivial
  | block => exact .of_frames (congrArg Heap.frames heap_after_block)
  | @branchCondition _ _ elseCase =>
    cases elseCase with
    | none =>
      refine (sub .branchCondition).extends_first rfl fun v _ hv hfit _ => ?_
      obtain ht | ht := eq_false_or_eq_true v.truthy
      · exact .congr (ite_of_true ht) (sub (.branchThen hv ht)).anyhow
      · exact .congr (ite_of_false ht) (.pure hfit trivial)
    | some elseCase =>
      refine (sub .branchCondition).extends_first rfl fun v _ hv _ _ => ?_
      obtain ht | ht := eq_false_or_eq_true v.truthy
      · exact .congr (ite_of_true ht) (sub (.branchThen hv ht)).anyhow
      · exact .congr (ite_of_false ht) (sub (.branchElse hv ht)).anyhow
  | @branchThen _ _ elseCase _ _ _ h ht =>
    cases elseCase <;> exact extends_of_eq ((bind_of_ok h).trans (ite_of_true ht))
  | branchElse h ht => exact extends_of_eq ((bind_of_ok h).trans (ite_of_false ht))
  | returned =>
    exact (sub .returned).extends_first rfl fun _ _ _ hfit _ =>
      .pure hfit trivial
  | superclass =>
    refine (sub .superclass).extends_first (bind_of_ok rfl) fun v n hv hfit hfitted => ?_
    have hext := ((sub .superclass).of_ok hv).1
    exact (safe_withSuperclass hgood hmade hv hext hfit hfitted _).anyhow

theorem extends_stmts {ss : List Stmt} (sub : SafeInside ok made rounds (.stmts ss) m)
    (he : Enters rounds (.stmts ss) m t' m') :
    ((t'.run rounds).after m').heap.Extends (((Task.stmts ss).run rounds).after m).heap := by
  cases he with
  | first =>
    refine (sub .first).extends_first rfl fun flow _ hs hfit _ => ?_
    cases flow with
    | normal => exact (sub (.more hs)).anyhow
    | returned v => exact .pure hfit trivial
  | more h => exact extends_of_eq (bind_of_ok h)

theorem extends_loop {condition : Expr} {body : Stmt} {left : Nat}
    (sub : SafeInside ok made rounds (.loop condition body left) m)
    (he : Enters rounds (.loop condition body left) m t' m') :
    ((t'.run rounds).after m').heap.Extends
      (((Task.loop condition body left).run rounds).after m).heap := by
  cases he with
  | loopCondition =>
    refine (sub .loopCondition).extends_first rfl fun v _ hv hfit _ => ?_
    obtain ht | ht := eq_false_or_eq_true v.truthy
    · refine .congr (ite_of_true ht) (.bind (sub (.loopBody hv ht)) fun flow _ hb _ hfit _ => ?_)
      cases flow with
      | normal => exact (sub (.nextRound hv ht hb)).anyhow
      | returned v => exact .pure hfit trivial
    · exact .congr (ite_of_false ht) (.pure hfit trivial)
  | loopBody h ht =>
    refine (sub (.loopBody h ht)).extends_first
      ((bind_of_ok h).trans (ite_of_true ht)) fun flow _ hb hfit _ => ?_
    cases flow with
    | normal => exact (sub (.nextRound h ht hb)).anyhow
    | returned v => exact .pure hfit trivial
  | nextRound h ht h' =>
    exact extends_of_eq ((bind_of_ok h).trans ((ite_of_true ht).trans (bind_of_ok h')))

/-- After a task that it entered, a good task makes the heap grow further. -/
theorem Good.extends_entered (hm : m.depth ≤ maxCallDepth) (hmakes : Makes made rounds t m)
    (hgood : Good ok made t m) (he : Enters rounds t m t' m') :
    ((t'.run rounds).after m').heap.Extends ((t.run rounds).after m).heap := by
  have sub : SafeInside ok made rounds t m := fun _ _ he => (hgood.entered hm hmakes he).2
  cases t with
  | expr e => exact extends_expr hgood hmakes.here sub he
  | items last es => exact extends_items sub he
  | operands es => exact extends_operands sub he
  | stmt s => exact extends_stmt hgood hmakes.here sub he
  | stmts ss => exact extends_stmts sub he
  | loop condition body left => exact extends_loop sub he
  | call paren callee arguments =>
    cases he with
    | invoke ha hd =>
      refine .of_frames (congrArg Heap.frames ?_)
      exact (congrArg Machine.heap (after_congr (call_of_checked ha hd))).trans
        heap_after_oneDeeper
  | invoke callee arguments =>
    cases he with
    | function => exact .refl _
    | initializer hc hn hb =>
      exact (sub (.initializer hc hn hb)).extends_first (construct_of_some hc hn hb)
        fun _ _ _ hfit _ => .pure hfit trivial
  | function closure arguments =>
    cases he with
    | body => exact .of_frames (congrArg Heap.frames (heap_after_function hm))

/-- What is left after all that a good task comes to grows into what the task leaves. -/
theorem Good.extends_reached {n : Nat} (hm : m.depth ≤ maxCallDepth)
    (hmakes : Makes made rounds t m) (hgood : Good ok made t m)
    (h : Reaches rounds t m n t' m') :
    ((t'.run rounds).after m').heap.Extends ((t.run rounds).after m).heap := by
  induction h with
  | here => exact .refl _
  | step he _ ih =>
    have hrest := ih (he.depth_le hm) (hmakes.enters he) (hgood.entered hm hmakes he).1
    exact hrest.trans (hgood.extends_entered hm hmakes he)

end Lox
