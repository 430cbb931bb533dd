import Lox.Proofs.Eval.Methods
import Lox.Proofs.Heap.Confined

/-
  Names and values in frames — who changes what

  Whatever is evaluated, the frames that existed before get new names and new
  values only from declarations and assignments that the evaluation came to, each
  of them in the frame that it works on (`Task.confined`). A declaration works on the
  frame it is executed in. Expressions and blocks come to declarations only in frames
  that they made themselves (`Reaches.declared`), so they add nothing to any
  other frame (`names_confined`).
-/

namespace Lox

open Eval
open Bool (eq_false_or_eq_true)

/-! ## Writes -/

/-- The names that a task declares in the frame in which it is begun. -/
def Task.declared : Task → List Token
  | stmt s => s.declared
  | stmts ss => Stmt.declaredAll ss
  | loop _ body _ => body.declared
  | _ => []

/-- Statements that declare a name by themselves. -/
def Stmt.Declares : Stmt → Token → Prop
  | varDecl name _, n | classDecl name _ _, n => n = name
  | function declaration, n => n = declaration.name
  | _, _ => False

/-- `Adds t m f name`: the task `t`, begun with `m`, declares the name in the frame `f`. -/
def Adds (t : Task) (m : Machine) (f : FrameId) (name : String) : Prop :=
  m.frame = f ∧ ∃ s n, t = .stmt s ∧ s.Declares n ∧ name = n.lexeme

/-- `Assigns rounds t m f name`: the task `t`, begun with `m`, assigns to the name, which
the frame `f` binds. -/
def Assigns (rounds : Nat) (t : Task) (m : Machine) (f : FrameId) (name : String) : Prop :=
  ∃ id n value v m₁, t = .expr (.assign id n value) ∧ name = n.lexeme ∧
    evaluate rounds value m = .ok v m₁ ∧ m₁.holder? id n.lexeme = some f

/-- Somewhere in the evaluation of the task the name is declared in the frame. -/
def Task.Added (rounds : Nat) (t : Task) (m : Machine) (f : FrameId) (name : String) : Prop :=
  ∃ k t' m', Reaches rounds t m k t' m' ∧ Adds t' m' f name

/-- Somewhere in the evaluation of the task the name is declared in the frame, or is
assigned to where the frame binds it. -/
def Task.Written (rounds : Nat) (t : Task) (m : Machine) (f : FrameId) (name : String) : Prop :=
  ∃ k t' m', Reaches rounds t m k t' m' ∧ (Adds t' m' f name ∨ Assigns rounds t' m' f name)

/-- The inside of a call is evaluated only where calls are not nested too deeply. -/
def Task.Allowed : Task → Machine → Prop
  | invoke _ _, m | function _ _, m => m.depth ≤ maxCallDepth
  | _, _ => True

/-! ## Confined steps -/

namespace Eval

/-- However the step ends, its changes to frames are confined. -/
def Confines {α : Type} (written added : FrameId → String → Prop) (x : Eval α) (m : Machine) :
    Prop :=
  m.heap.Confined written added (x.after m).heap

namespace Confines

variable {α β : Type} {written added : FrameId → String → Prop} {x : Eval α} {m n : Machine}

theorem of_eq {y : Eval α} (hxy : x m = y n) (hmn : m.heap.Confined written added n.heap)
    (hy : Confines written added y n) : Confines written added x m := by
  rw [Confines, after_congr hxy]
  exact hmn.trans hy

theorem congr {y : Eval α} (hxy : x m = y m) (hy : Confines written added y m) :
    Confines written added x m := of_eq hxy (.refl _) hy

theorem of_ok {a : α} (hx : x m = .ok a n) (hmn : m.heap.Confined written added n.heap) :
    Confines written added x m := by
  rw [Confines, after_of_ok hx]
  exact hmn

theorem of_error {e : Halt RuntimeError} (hx : x m = .error e n)
    (hmn : m.heap.Confined written added n.heap) : Confines written added x m := by
  rw [Confines, after_of_error hx]
  exact hmn

theorem ok (h : Confines written added x m) {a : α} (hx : x m = .ok a n) :
    m.heap.Confined written added n.heap := after_of_ok hx ▸ h

theorem error (h : Confines written added x m) {e : Halt RuntimeError} (hx : x m = .error e n) :
    m.heap.Confined written added n.heap := after_of_error hx ▸ h

theorem pure (a : α) : Confines written added (Pure.pure a : Eval α) m := Heap.Confined.refl _

theorem throw (e : Halt RuntimeError) :
    Confines written added (MonadExcept.throw e : Eval α) m := Heap.Confined.refl _

theorem bind {f : α → Eval β} (hx : Confines written added x m)
    (hf : ∀ a m₁, x m = .ok a m₁ → Confines written added (f a) m₁) :
    Confines written added (x >>= f) m := by
  cases h : x m with
  | ok a m₁ => exact of_eq (bind_of_ok h) (hx.ok h) (hf a m₁ h)
  | error e m₁ => exact of_error (bind_of_error h) (hx.error h)

theorem mono {written' added' : FrameId → String → Prop} (hx : Confines written added x m)
    (hw : ∀ f name, written f name → written' f name)
    (ha : ∀ f name, added f name → added' f name) : Confines written' added' x m :=
  Heap.Confined.mono hx hw ha

theorem oneDeeper (hx : Confines written added x { m with depth := m.depth + 1 }) :
    Confines written added (Eval.oneDeeper x) m := by
  rw [Confines, heap_after_oneDeeper]
  exact hx

/-! ### Elementary steps -/

theorem ofExcept (line : Nat) (r : Except RuntimeProblem α) :
    Confines written added (Eval.ofExcept line r) m := by
  cases r with
  | ok a => exact pure a
  | error problem => exact throw _

theorem readVariable (id : Nat) (name : Token) :
    Confines written added (Eval.readVariable id name) m := by
  cases h : m.lookup? id name.lexeme with
  | some v => exact of_ok (readVariable_of_some h) (.refl _)
  | none => exact of_error (readVariable_of_none h) (.refl _)

/-- An assignment finds the name bound. -/
theorem writeVariable {id : Nat} {name : Token} (v : Value)
    (hw : ∀ f, m.holder? id name.lexeme = some f → written f name.lexeme) :
    Confines written added (Eval.writeVariable id name v) m := by
  cases h : m.holder? id name.lexeme with
  | some f =>
    refine of_ok (writeVariable_of_some h) (.define _ _ _ _ ?_ ?_)
    · exact fun _ => hw f h
    · exact fun _ => .inl (Machine.binds_of_holder? h)
  | none => exact of_error (writeVariable_of_none h) (.refl _)

theorem setField (object : Nat) (name : String) (v : Value) :
    Confines written added (Eval.setField object name v) m :=
  of_ok rfl (.of_frames rfl)

theorem print (text : String) : Confines written added (Eval.print text) m := by
  cases hw : (m.sink.write text).1 with
  | true => exact of_ok (print_of_true hw) (.of_frames rfl)
  | false => exact of_error (print_of_false hw) (.of_frames rfl)

/-- The frame of a bound method is a new one. -/
theorem boundClosure (method : Closure) (object : Nat) (c : Class) :
    Confines written added (Eval.bind method object c) m :=
  of_ok rfl ((Heap.Confined.newFrame m.heap (some method.frame)).define_fresh (Nat.le_refl _) _ _)

theorem boundMethod (method : Closure) (object : Nat) (c : Class) :
    Confines written added (Eval.boundMethod method object c) m :=
  .bind (.boundClosure method object c) fun _ _ _ => .of_ok rfl (.of_frames rfl)

theorem getProperty (v : Value) (name : Token) :
    Confines written added (Eval.getProperty v name) m := by
  cases v with
  | object id c =>
    cases hf : (m.heap.fields id).find? name.lexeme with
    | some w => exact of_ok (getProperty_of_field hf) (.refl _)
    | none =>
      cases hc : c.findMethod? name.lexeme with
      | some method => exact congr (getProperty_of_method hf hc) (.boundMethod method id c)
      | none => exact of_error (getProperty_of_none hf hc) (.refl _)
  | _ => exact throw _

theorem superMethod (id : Nat) (keyword method : Token) :
    Confines written added (Eval.superMethod id keyword method) m := by
  cases h : m.super? id with
  | none => exact of_error (superMethod_of_none h) (.refl _)
  | some found =>
    obtain ⟨superclass, object, c⟩ := found
    cases hc : superclass.findMethod? method.lexeme with
    | none => exact of_error (superMethod_of_no_method h hc) (.refl _)
    | some found => exact congr (superMethod_of_method h hc) (.boundMethod found object c)

end Confines
end Eval

/-! ## Tasks -/

section Tasks

variable {rounds : Nat} {t t' : Task} {m m' : Machine} {f : FrameId} {name : String}

theorem Task.Added.of_enters (he : Enters rounds t m t' m') (h : t'.Added rounds m' f name) :
    t.Added rounds m f name := by
  obtain ⟨k, t₁, m₁, hreach, h⟩ := h
  exact ⟨_, t₁, m₁, .step he hreach, h⟩

theorem Task.Written.of_enters (he : Enters rounds t m t' m') (h : t'.Written rounds m' f name) :
    t.Written rounds m f name := by
  obtain ⟨k, t₁, m₁, hreach, h⟩ := h
  exact ⟨_, t₁, m₁, .step he hreach, h⟩

theorem Task.added_of_declares {s : Stmt} {n : Token} (hs : s.Declares n) :
    (Task.stmt s).Added rounds m m.frame n.lexeme :=
  ⟨_, _, _, .here, rfl, s, n, rfl, hs, rfl⟩

/-- What is added is written. -/
theorem Task.Added.written (h : t.Added rounds m f name) : t.Written rounds m f name := by
  obtain ⟨k, t₁, m₁, hreach, h⟩ := h
  exact ⟨k, t₁, m₁, hreach, .inl h⟩

theorem Enters.allowed (he : Enters rounds t m t' m') (ht : t.Allowed m) : t'.Allowed m' := by
  cases he with
  | invoke _ hd => exact hd
  | function => exact ht
  | initializer _ hn hb =>
    cases hn
    cases hb
    exact ht
  | _ => trivial

/-- What is entered is entered in a frame that exists, and frames stay, provided that
this is so for all that was entered before. -/
theorem Enters.grown_of_confines {written added : FrameId → String → Prop}
    (he : Enters rounds t m t' m') (hf : m.frame < m.heap.frames.size)
    (hsub : ∀ {t₁ m₁}, Enters rounds t m t₁ m₁ → m₁.frame < m₁.heap.frames.size →
      Confines written added (t₁.run rounds) m₁) :
    m'.frame < m'.heap.frames.size ∧ m.heap.frames.size ≤ m'.heap.frames.size := by
  have hevaluated : ∀ {e v n}, Enters rounds t m (.expr e) m → evaluate rounds e m = .ok v n →
      n.frame < n.heap.frames.size ∧ m.heap.frames.size ≤ n.heap.frames.size := by
    intro e v n he hv
    have hsize := ((hsub he hf).ok hv).size
    rw [frame_of_evaluate hv]
    exact ⟨Nat.lt_of_lt_of_le hf hsize, hsize⟩
  have hnew : ∀ e values, (m.inNewFrame e values).frame < (m.inNewFrame e values).heap.frames.size ∧
      m.heap.frames.size ≤ (m.inNewFrame e values).heap.frames.size := by
    intro e values
    have hlt : m.heap.frames.size < (m.inNewFrame e values).heap.frames.size := by
      rw [Machine.inNewFrame, Heap.size_defineAll]
      exact Heap.lt_size_newFrame m.heap (some e)
    exact ⟨hlt, Nat.le_of_lt hlt⟩
  cases he with
  | binaryRight h => exact hevaluated .binaryLeft h
  | logicalRight h _ => exact hevaluated .logicalLeft h
  | choiceThen h _ | choiceElse h _ => exact hevaluated .choiceCondition h
  | arguments h => exact hevaluated .callee h
  | setValue h => exact hevaluated .setObject h
  | moreItems h => exact hevaluated .item h
  | moreOperands h => exact hevaluated .operand h
  | branchThen h _ | branchElse h _ => exact hevaluated .branchCondition h
  | loopBody h _ => exact hevaluated .loopCondition h
  | call h h' =>
    obtain ⟨hlt, hsize⟩ := hevaluated .callee h
    have hsize' := ((hsub (.arguments h) hlt).ok h').size
    rw [(((Task.operands _).steady_run rounds).of_ok h').frame]
    exact ⟨Nat.lt_of_lt_of_le hlt hsize', Nat.le_trans hsize hsize'⟩
  | more h =>
    have hsize := ((hsub .first hf).ok h).size
    rw [frame_of_execute h]
    exact ⟨Nat.lt_of_lt_of_le hf hsize, hsize⟩
  | nextRound h ht h' =>
    obtain ⟨hlt, hsize⟩ := hevaluated .loopCondition h
    have hsize' := ((hsub (.loopBody h ht) hlt).ok h').size
    rw [frame_of_execute h']
    exact ⟨Nat.lt_of_lt_of_le hlt hsize', Nat.le_trans hsize hsize'⟩
  | @initializer _ object c method _ _ _ m₁ _ _ hn hb =>
    have hbind : Confines written added (Eval.bind method object c) m₁ :=
      .boundClosure method object c
    cases hn
    have hsize : m.heap.frames.size ≤ _ := (hbind.ok hb).size
    rw [((steady.boundClosure _ _ _).of_ok hb).frame]
    exact ⟨Nat.lt_of_lt_of_le hf hsize, hsize⟩
  | block | body => exact hnew _ _
  | superclass =>
    have hsize := Heap.size_frames_define m.heap m.frame
    exact ⟨by rwa [hsize], by rw [hsize]⟩
  | _ => exact ⟨hf, Nat.le_refl _⟩

/-- The cases of the expressions. -/
theorem confines_expr {e : Expr}
    (sub : ∀ {t₁ m₁}, Enters rounds (.expr e) m t₁ m₁ →
      Confines ((Task.expr e).Written rounds m) ((Task.expr e).Added rounds m) (t₁.run rounds) m₁) :
    Confines ((Task.expr e).Written rounds m) ((Task.expr e).Added rounds m)
      ((Task.expr e).run rounds) m := by
  cases e with
  | number _ | string _ | boolean _ | nil => exact .pure _
  | group inner =>
    have h := sub .group
    exact h
  | unary operator operand => exact .bind (sub .unary) fun _ _ _ => .ofExcept _ _
  | binary left operator right =>
    exact .bind (sub .binaryLeft) fun _ _ ha =>
      .bind (sub (.binaryRight ha)) fun _ _ _ => .ofExcept _ _
  | logical left operator right =>
    refine .bind (sub .logicalLeft) fun a _ ha => ?_
    rcases eq_false_or_eq_true (decidesLogical operator a) with hd | hd
    · exact .congr (ite_of_true hd) (.pure _)
    · exact .congr (ite_of_false hd) (sub (.logicalRight ha hd))
  | choice condition thenCase elseCase =>
    refine .bind (sub .choiceCondition) fun v _ hv => ?_
    rcases eq_false_or_eq_true v.truthy with ht | ht
    · exact .congr (ite_of_true ht) (sub (.choiceThen hv ht))
    · exact .congr (ite_of_false ht) (sub (.choiceElse hv ht))
  | comma items =>
    have h := sub .comma
    exact h
  | var id name => exact .readVariable id name
  | self id keyword => exact .readVariable id keyword
  | super id keyword method => exact .superMethod id keyword method
  | assign id name value =>
    refine .bind (sub .assigned) fun v m₁ hv => ?_
    refine .bind (.writeVariable v fun f hf => ?_) fun _ _ _ => .pure _
    exact ⟨_, _, _, .here, .inr ⟨id, name, value, v, m₁, rfl, rfl, hv, hf⟩⟩
  | call callee paren arguments =>
    exact .bind (sub .callee) fun _ _ hf =>
      .bind (sub (.arguments hf)) fun _ _ hvs => sub (.call hf hvs)
  | get object name => exact .bind (sub .getObject) fun v _ _ => .getProperty v name
  | set object name value =>
    refine .bind (sub .setObject) fun o _ ho => ?_
    cases o with
    | object id c =>
      exact .bind (sub (.setValue ho)) fun v _ _ =>
        .bind (.setField id name.lexeme v) fun _ _ _ => .pure _
    | _ => exact .throw _

/-- A declaration defines its own name in its own frame. -/
theorem confined_define_own {s : Stmt} {n : Token} (hs : s.Declares n) (h : Heap) (v : Value) :
    h.Confined ((Task.stmt s).Written rounds m) ((Task.stmt s).Added rounds m)
      (h.define m.frame n.lexeme v) :=
  .define h m.frame n.lexeme v (fun _ => (Task.added_of_declares hs).written)
    fun _ => .inr (Task.added_of_declares hs)

theorem confined_withSuper {written added : FrameId → String → Prop} (m : Machine) (id : Nat)
    (c : Class) : m.heap.Confined written added (m.withSuper id c) :=
  (Heap.Confined.newFrame m.heap (some m.frame)).define_fresh (Nat.le_refl _) _ _

/-- The cases of the class declarations. -/
theorem confines_class {name : Token} {superclass : Option Expr} {methods : List Function}
    (hf : m.frame < m.heap.frames.size)
    (sub : ∀ {t₁ m₁}, Enters rounds (.stmt (.classDecl name superclass methods)) m t₁ m₁ →
      Confines ((Task.stmt (.classDecl name superclass methods)).Written rounds m)
        ((Task.stmt (.classDecl name superclass methods)).Added rounds m) (t₁.run rounds) m₁) :
    Confines ((Task.stmt (.classDecl name superclass methods)).Written rounds m)
      ((Task.stmt (.classDecl name superclass methods)).Added rounds m)
      ((Task.stmt (.classDecl name superclass methods)).run rounds) m := by
  have hown : ∀ (h : Heap) (v : Value), h.Confined
      ((Task.stmt (.classDecl name superclass methods)).Written rounds m)
      ((Task.stmt (.classDecl name superclass methods)).Added rounds m)
      (h.define m.frame name.lexeme v) := confined_define_own rfl
  cases superclass with
  | none =>
    refine .of_ok (execute_baseClass hf) ?_
    exact (hown _ _).trans ((Heap.Confined.newIdentity _).trans (hown _ _))
  | some superclass =>
    refine .of_eq (bind_of_ok rfl) (hown m.heap .nil) (.bind (sub .superclass) fun v m₁ hv => ?_)
    cases v with
    | cls id c =>
      -- the name is still bound, so it is found in the frame of the declaration
      have hframe : m₁.frame = m.frame :=
        frame_of_evaluate (m := { m with heap := m.heap.define m.frame name.lexeme .nil }) hv
      have hb : m₁.heap.Binds m₁.frame name.lexeme := by
        rw [hframe]
        refine ((sub .superclass).ok hv).kept _ ?_ _ (Heap.binds_define hf name.lexeme .nil)
        show _ < Array.size _
        rwa [Heap.size_frames_define]
      refine .of_ok ((bind_of_ok rfl).trans (bind_of_ok (declareClass_of_binds methods hb))) ?_
      refine (confined_withSuper m₁ id c).trans ((Heap.Confined.newIdentity _).trans ?_)
      rw [hframe]
      exact hown _ _
    | _ => exact .throw _

/-- The cases of the statements. -/
theorem confines_stmt {s : Stmt} (hf : m.frame < m.heap.frames.size)
    (sub : ∀ {t₁ m₁}, Enters rounds (.stmt s) m t₁ m₁ →
      Confines ((Task.stmt s).Written rounds m) ((Task.stmt s).Added rounds m) (t₁.run rounds) m₁) :
    Confines ((Task.stmt s).Written rounds m) ((Task.stmt s).Added rounds m)
      ((Task.stmt s).run rounds) m := by
  cases s with
  | expression e => exact .bind (sub .expression) fun _ _ _ => .pure _
  | print e =>
    exact .bind (sub .print) fun _ _ _ => .bind (.print _) fun _ _ _ => .pure _
  | varDecl name initial =>
    cases initial with
    | none => exact .of_ok rfl (confined_define_own (s := .varDecl name none) rfl _ _)
    | some e =>
      refine .bind (sub .initial) fun v m₁ hv => ?_
      refine .of_ok (n := { m₁ with heap := m₁.heap.define m₁.frame name.lexeme v }) rfl ?_
      rw [show m₁.frame = m.frame from frame_of_evaluate hv]
      exact confined_define_own (s := .varDecl name (some e)) rfl _ _
  | block body =>
    rw [Confines, heap_after_block]
    exact (Heap.Confined.newFrame m.heap (some m.frame)).trans (sub .block)
  | branch condition thenCase elseCase =>
    cases elseCase with
    | none =>
      refine .bind (sub .branchCondition) fun v _ hv => ?_
      rcases eq_false_or_eq_true v.truthy with ht | ht
      · exact .congr (ite_of_true ht) (sub (.branchThen hv ht))
      · exact .congr (ite_of_false ht) (.pure _)
    | some elseCase =>
      refine .bind (sub .branchCondition) fun v _ hv => ?_
      rcases eq_false_or_eq_true v.truthy with ht | ht
      · exact .congr (ite_of_true ht) (sub (.branchThen hv ht))
      · exact .congr (ite_of_false ht) (sub (.branchElse hv ht))
  | loop condition body =>
    have h := sub .loop
    exact h
  | function declaration =>
    exact .of_ok rfl ((Heap.Confined.newIdentity m.heap).trans
      (confined_define_own (s := .function declaration) rfl _ _))
  | yield keyword value =>
    cases value with
    | none => exact .pure _
    | some e => exact .bind (sub .returned) fun _ _ _ => .pure _
  | classDecl name superclass methods => exact confines_class hf sub

/-- The cases of the calls. -/
theorem confines_invoke {written added : FrameId → String → Prop} {callee : Value}
    {arguments : List Value}
    (sub : ∀ {t₁ m₁}, Enters rounds (.invoke callee arguments) m t₁ m₁ →
      Confines written added (t₁.run rounds) m₁) :
    Confines written added ((Task.invoke callee arguments).run rounds) m := by
  cases callee with
  | function id closure =>
    have h := sub .function
    exact h
  | cls id c =>
    cases hc : c.findMethod? Class.initializerName with
    | none => exact .of_ok (construct_of_none hc) (.of_frames rfl)
    | some method =>
      cases hb : Eval.bind method m.heap.objects.size c { m with heap := m.heap.newObject.2 } with
      | error _ _ => cases hb
      | ok k m₂ =>
        have hbind : Confines written added (Eval.bind method m.heap.objects.size c)
            { m with heap := m.heap.newObject.2 } := .boundClosure _ _ _
        exact .of_eq (construct_of_some hc rfl hb)
          ((Heap.Confined.newObject m.heap).trans (hbind.ok hb))
          (.bind (sub (.initializer hc rfl hb)) fun _ _ _ => .pure _)
  | clock => exact .of_ok rfl (.refl _)
  | _ => exact .pure _

/-- However an evaluation ends, whatever it added to frames that existed before was
declared on the way, and whatever it wrote there was declared or assigned to. -/
theorem Task.confined (t : Task) (m : Machine) (ht : t.Allowed m)
    (hf : m.frame < m.heap.frames.size) :
    Confines (t.Written rounds m) (t.Added rounds m) (t.run rounds) m := by
  refine Task.induction_enters rounds (P := fun t m => t.Allowed m →
    m.frame < m.heap.frames.size → Confines (t.Written rounds m) (t.Added rounds m)
      (t.run rounds) m) ?_ t m ht hf
  clear ht hf t m
  intro t m ih ht hf
  have hsub : ∀ {t₁ m₁}, Enters rounds t m t₁ m₁ → m₁.frame < m₁.heap.frames.size →
      Confines (t.Written rounds m) (t.Added rounds m) (t₁.run rounds) m₁ := by
    intro t₁ m₁ he hf₁
    refine (ih t₁ m₁ he (he.allowed ht) hf₁).mono ?_ ?_
    · exact fun f name h => h.of_enters he
    · exact fun f name h => h.of_enters he
  have sub : ∀ {t₁ m₁}, Enters rounds t m t₁ m₁ →
      Confines (t.Written rounds m) (t.Added rounds m) (t₁.run rounds) m₁ :=
    fun he => hsub he (he.grown_of_confines hf hsub).1
  cases t with
  | expr e => exact confines_expr sub
  | items last es =>
    cases es with
    | nil => exact .pure _
    | cons e es => exact .bind (sub .item) fun _ _ hv => sub (.moreItems hv)
  | operands es =>
    cases es with
    | nil => exact .pure _
    | cons e es =>
      exact .bind (sub .operand) fun _ _ hv => .bind (sub (.moreOperands hv)) fun _ _ _ => .pure _
  | stmt s => exact confines_stmt hf sub
  | stmts ss =>
    cases ss with
    | nil => exact .pure _
    | cons s rest =>
      refine .bind (sub .first) fun flow _ hs => ?_
      cases flow with
      | normal => exact sub (.more hs)
      | returned v => exact .pure _
  | loop condition body left =>
    cases left with
    | zero => exact .throw _
    | succ left =>
      refine .bind (sub .loopCondition) fun v _ hv => ?_
      rcases eq_false_or_eq_true v.truthy with ht | ht
      · refine .congr (ite_of_true ht) (.bind (sub (.loopBody hv ht)) fun flow _ hb => ?_)
        cases flow with
        | normal => exact sub (.nextRound hv ht hb)
        | returned v => exact .pure _
      · exact .congr (ite_of_false ht) (.pure _)
  | call paren callee arguments =>
    rcases call_cases (runBody rounds callLevels) paren callee arguments m with
      ⟨problem, h⟩ | ⟨ha, hd⟩
    · exact .of_error h (.refl _)
    · exact .congr (call_of_checked ha hd) (.oneDeeper (sub (.invoke ha hd)))
  | invoke callee arguments => exact confines_invoke sub
  | function closure arguments =>
    have hafter : (((Task.function closure arguments).run rounds).after m).heap = _ :=
      heap_after_function ht
    rw [Confines, hafter]
    exact ((Heap.Confined.newFrame m.heap (some closure.frame)).defineAll_fresh
      (Nat.le_refl _) _).trans (sub .body)

/-! ## Where declarations are executed -/

/-- What is entered is entered in a frame that exists, and frames stay. -/
theorem Enters.grown (he : Enters rounds t m t' m') (ht : t.Allowed m)
    (hf : m.frame < m.heap.frames.size) :
    m'.frame < m'.heap.frames.size ∧ m.heap.frames.size ≤ m'.heap.frames.size := by
  have hsub : ∀ {t₁ m₁}, Enters rounds t m t₁ m₁ → m₁.frame < m₁.heap.frames.size →
      Confines (fun _ _ => True) (fun _ _ => True) (t₁.run rounds) m₁ := by
    intro t₁ m₁ he hf
    exact (Task.confined t₁ m₁ (he.allowed ht) hf).mono (fun _ _ _ => trivial) fun _ _ _ => trivial
  exact he.grown_of_confines hf hsub

/-- A task enters declarations in a new frame, or they are its own. -/
theorem Enters.declared (he : Enters rounds t m t' m') {n : Token} (hn : n ∈ t'.declared) :
    m.heap.frames.size ≤ m'.frame ∨ m'.frame = m.frame ∧ n ∈ t.declared := by
  cases he with
  | block | body => exact .inl (Nat.le_refl _)
  | @branchThen _ _ elseCase _ _ _ h _ =>
    refine .inr ⟨frame_of_evaluate h, ?_⟩
    cases elseCase with
    | none => exact hn
    | some elseCase => exact List.mem_append_left _ hn
  | branchElse h _ => exact .inr ⟨frame_of_evaluate h, List.mem_append_right _ hn⟩
  | loop => exact .inr ⟨rfl, hn⟩
  | first => exact .inr ⟨rfl, List.mem_append_left _ hn⟩
  | more h => exact .inr ⟨frame_of_execute h, List.mem_append_right _ hn⟩
  | loopBody h _ => exact .inr ⟨frame_of_evaluate h, hn⟩
  | nextRound h _ h' =>
    exact .inr ⟨(frame_of_execute h').trans (frame_of_evaluate h), hn⟩
  | _ => cases hn

/-- Whatever a task comes to declares in a frame that is new since, or it is a
declaration of the task itself. -/
theorem Reaches.declared {k : Nat} (h : Reaches rounds t m k t' m') (ht : t.Allowed m)
    (hf : m.frame < m.heap.frames.size) {n : Token} (hn : n ∈ t'.declared) :
    m.heap.frames.size ≤ m'.frame ∨ m'.frame = m.frame ∧ n ∈ t.declared := by
  induction h with
  | here => exact .inr ⟨rfl, hn⟩
  | step he _ ih =>
    obtain ⟨hf₁, hsize⟩ := he.grown ht hf
    rcases ih (he.allowed ht) hf₁ hn with hnew | ⟨hframe, hn₁⟩
    · exact .inl (Nat.le_trans hsize hnew)
    · rcases he.declared hn₁ with hnew | ⟨hframe₁, hn₂⟩
      · exact .inl (hframe ▸ hnew)
      · exact .inr ⟨hframe.trans hframe₁, hn₂⟩

theorem Stmt.Declares.mem {s : Stmt} {n : Token} (h : s.Declares n) : n ∈ s.declared := by
  cases s with
  | varDecl | classDecl | function =>
    cases h
    exact .head _
  | _ => cases h

/-- The only names that an evaluation adds to frames that existed before are those that
it declares itself, and it adds them to the current frame. -/
theorem Task.names_added (ht : t.Allowed m) (hf : m.frame < m.heap.frames.size) {f : FrameId}
    (hlt : f < m.heap.frames.size) {name : String}
    (hb : ((t.run rounds).after m).heap.Binds f name) :
    m.heap.Binds f name ∨ f = m.frame ∧ ∃ n ∈ t.declared, n.lexeme = name := by
  rcases (Task.confined t m ht hf).names f hlt name hb with hb | hadded
  · exact .inl hb
  · obtain ⟨k, t', m', hreach, rfl, s, n, rfl, hs, rfl⟩ := hadded
    rcases hreach.declared ht hf hs.mem with hnew | ⟨hframe, hn⟩
    · exact absurd hlt (Nat.not_lt.2 hnew)
    · exact .inr ⟨hframe, n, hn, rfl⟩

/-- The names that statements in turn add are declared by one of them that was executed. -/
theorem Task.names_added_stmts {ss : List Stmt} (hf : m.frame < m.heap.frames.size)
    {f : FrameId} (hlt : f < m.heap.frames.size) {name : String}
    (hb : (((Task.stmts ss).run rounds).after m).heap.Binds f name) :
    m.heap.Binds f name ∨ f = m.frame ∧ ∃ front s rest m₁, ss = front ++ s :: rest ∧
      (Task.stmts front).run rounds m = .ok .normal m₁ ∧ ∃ n ∈ s.declared, n.lexeme = name := by
  induction ss generalizing m with
  | nil => exact .inl hb
  | cons s rest ih =>
    -- the first statement may add the name, or one of the others if it is executed
    have hfirst : ∀ {m₁}, ((Task.stmt s).run rounds).after m = m₁ → m₁.heap.Binds f name →
        m.heap.Binds f name ∨ f = m.frame ∧ ∃ front s' rest' m₁, s :: rest = front ++ s' :: rest' ∧
          (Task.stmts front).run rounds m = .ok .normal m₁ ∧
          ∃ n ∈ s'.declared, n.lexeme = name := by
      rintro _ rfl hb
      refine (Task.names_added (t := .stmt s) trivial hf hlt hb).imp_right ?_
      rintro ⟨rfl, hn⟩
      exact ⟨rfl, [], s, rest, m, rfl, rfl, hn⟩
    cases hs : execute rounds s m with
    | error e m₁ =>
      have hrun : (Task.stmts (s :: rest)).run rounds m = .error e m₁ := bind_of_error hs
      rw [after_of_error hrun] at hb
      exact hfirst (after_of_error hs) hb
    | ok flow m₁ =>
      cases flow with
      | returned v =>
        have hrun : (Task.stmts (s :: rest)).run rounds m = .ok (.returned v) m₁ := bind_of_ok hs
        rw [after_of_ok hrun] at hb
        exact hfirst (after_of_ok hs) hb
      | normal =>
        have hconfined : Confines _ _ (execute rounds s) m := Task.confined (.stmt s) m trivial hf
        have hsize := (hconfined.ok hs).size
        have hframe := frame_of_execute hs
        have hrun : (Task.stmts (s :: rest)).run rounds m = (Task.stmts rest).run rounds m₁ :=
          bind_of_ok hs
        rw [after_congr hrun] at hb
        rcases ih (hframe ▸ Nat.lt_of_lt_of_le hf hsize) (Nat.lt_of_lt_of_le hlt hsize) hb with
          hb | ⟨rfl, front, s', rest', m₂, rfl, hrun, hn⟩
        · exact hfirst (after_of_ok hs) hb
        · exact .inr ⟨hframe, s :: front, s', rest', m₂, rfl, (bind_of_ok hs).trans hrun, hn⟩

end Tasks

end Lox
