import Lox.Proofs.Eval.Safe

/-
  Tasks in their scopes

  A task is good if the heap fits and the frame it is evaluated in fits the scopes
  that its tree was resolved in; values are good if they fit. All that a good task
  enters is good (`Good.enters`), and a good task is safe (`Task.safe`): this is
  the invariant that ties the evaluator to the resolution.
-/

namespace Lox

open Eval
open Bool (eq_false_or_eq_true)

section

variable (ok : Site → Prop) (made : FrameId → Opener → Prop)

/-- The frame fits scopes in which all these sites are known. -/
def Situated (h : Heap) (f : FrameId) (sites : List Opener → Resolution → List Site) : Prop :=
  ∃ os r, Fits made h f os r.scopes ∧ ∀ site ∈ sites os r, ok site

/-- Values that all fit. -/
def Value.AllFitted (h : Heap) (vs : List Value) : Prop := ∀ v ∈ vs, v.Fitted ok made h

/-- What is asked of a task, apart from the heap. -/
def Task.Settled : Task → Machine → Prop
  | .expr e, m => e.Proper ∧ Situated ok made m.heap m.frame (e.sites · ·)
  | .items last es, m => last.Fitted ok made m.heap ∧ Expr.AllProper es ∧
    Situated ok made m.heap m.frame (Expr.sitesAll · es ·)
  | .operands es, m => Expr.AllProper es ∧
    Situated ok made m.heap m.frame (Expr.sitesAll · es ·)
  | .stmt s, m => s.Proper ∧ Situated ok made m.heap m.frame (s.sites · ·)
  | .stmts ss, m => Stmt.AllProper ss ∧ Situated ok made m.heap m.frame (Stmt.sitesAll · ss ·)
  | .loop condition body _, m => (Stmt.loop condition body).Proper ∧
    Situated ok made m.heap m.frame ((Stmt.loop condition body).sites · ·)
  | .call _ callee arguments, m =>
    callee.Fitted ok made m.heap ∧ Value.AllFitted ok made m.heap arguments
  | .invoke callee arguments, m => callee.arity? = some arguments.length ∧
    callee.Fitted ok made m.heap ∧ Value.AllFitted ok made m.heap arguments
  | .function closure arguments, m =>
    closure.declaration.parameters.length = arguments.length ∧
      closure.Fitted ok made m.heap ∧ Value.AllFitted ok made m.heap arguments

/-- A task in a heap that fits, in its own scopes. -/
structure Good (t : Task) (m : Machine) : Prop where
  heap : m.heap.Fitted ok made
  settled : t.Settled ok made m

def Flow.Fitted (h : Heap) : Flow → Prop
  | .normal => True
  | .returned v => v.Fitted ok made h

/-- What is promised of the result of a task in a frame. A statement that goes
through has bound the names that it declares. -/
def Task.Delivers : (t : Task) → FrameId → t.Result → Heap → Prop
  | .expr _, _, v, h | .items _ _, _, v, h | .call _ _ _, _, v, h | .invoke _ _, _, v, h
  | .function _ _, _, v, h => Value.Fitted ok made h v
  | .operands _, _, vs, h => Value.AllFitted ok made h vs
  | .stmt s, f, flow, h => Flow.Fitted ok made h flow ∧
    (flow = Flow.normal → ∀ name ∈ s.declared, h.Binds f name.lexeme)
  | .stmts _, _, flow, h | .loop _ _ _, _, flow, h => Flow.Fitted ok made h flow

variable (rounds : Nat)

/-- What a task enters is safe. -/
def SafeInside (t : Task) (m : Machine) : Prop :=
  ∀ ⦃t' m'⦄, Enters rounds t m t' m' →
    Safe ok made (t'.run rounds) m' (t'.Delivers ok made m'.frame)

/-- What a task enters is safe where it is good. -/
def SafeWhereGood (t : Task) (m : Machine) : Prop :=
  ∀ ⦃t' m'⦄, Enters rounds t m t' m' → Good ok made t' m' →
    Safe ok made (t'.run rounds) m' (t'.Delivers ok made m'.frame)

end

variable {ok : Site → Prop} {made : FrameId → Opener → Prop} {rounds : Nat}

namespace Situated

variable {h h' : Heap} {f : FrameId} {A B : List Opener → Resolution → List Site}

/-- What is resolved first. -/
theorem first (hs : Situated ok made h f fun os r => A os r ++ B os r) : Situated ok made h f A := by
  obtain ⟨os, r, hfits, hsites⟩ := hs
  exact ⟨os, r, hfits, (List.forall_mem_append.1 hsites).1⟩

theorem rest (hs : Situated ok made h f fun os r => A os r ++ B os r) : Situated ok made h f B := by
  obtain ⟨os, r, hfits, hsites⟩ := hs
  exact ⟨os, r, hfits, (List.forall_mem_append.1 hsites).2⟩

/-- What is resolved after a walk that opens no scopes. -/
theorem onward {walk : Resolution → Resolution}
    (hs : Situated ok made h f fun os r => B os (walk r))
    (hwalk : ∀ r : Resolution, r.Onward [] (walk r)) : Situated ok made h f B := by
  obtain ⟨os, r, hfits, hsites⟩ := hs
  refine ⟨os, walk r, ?_, hsites⟩
  rwa [(hwalk r).scopes]

theorem mono (hs : Situated ok made h f A) (hext : h.Extends h') : Situated ok made h' f A := by
  obtain ⟨os, r, hfits, hsites⟩ := hs
  exact ⟨os, r, hfits.mono hext, hsites⟩

end Situated

theorem frame_of_evaluate {e : Expr} {v : Value} {m m' : Machine}
    (h : evaluate rounds e m = .ok v m') : m'.frame = m.frame :=
  ((steady_evaluate rounds e).of_ok h).frame

theorem frame_of_execute {s : Stmt} {flow : Flow} {m m' : Machine}
    (h : execute rounds s m = .ok flow m') : m'.frame = m.frame :=
  ((steady_execute rounds s).of_ok h).frame

/-- The evaluation of an expression leaves what is around it in place. -/
theorem Situated.after {e : Expr} {v : Value} {m m' : Machine}
    {A : List Opener → Resolution → List Site} (hs : Situated ok made m.heap m.frame A)
    (hext : m.heap.Extends m'.heap) (h : evaluate rounds e m = .ok v m') :
    Situated ok made m'.heap m'.frame A := frame_of_evaluate h ▸ hs.mono hext

theorem Value.AllFitted.mono {h h' : Heap} {vs : List Value} (hv : Value.AllFitted ok made h vs)
    (hext : h.Extends h') : Value.AllFitted ok made h' vs := fun v hm => (hv v hm).mono hext

/-! ## New frames -/

section NewFrame

variable {m : Machine} {f : FrameId} {values : List (String × Value)}

theorem extends_inNewFrame (m : Machine) (f : FrameId) (values : List (String × Value)) :
    m.heap.Extends (m.inNewFrame f values).heap :=
  (Heap.Extends.newFrame m.heap (some f)).defineAll_fresh (Nat.le_refl _) values

theorem fitted_inNewFrame (hh : m.heap.Fitted ok made)
    (hnames : ∀ name ∈ values.map Prod.fst, ¬Heap.Reserved name)
    (hv : Value.AllFitted ok made m.heap (values.map Prod.snd)) :
    (m.inNewFrame f values).heap.Fitted ok made := by
  have hext := Heap.Extends.newFrame m.heap (some f)
  exact (hh.newFrame f).defineAll (.defineAll _ _ hnames) (hv.mono hext)

theorem not_binds_inNewFrame (hnames : ∀ name ∈ values.map Prod.fst, ¬Heap.Reserved name)
    {name : String} (hname : Heap.Reserved name) :
    ¬(m.inNewFrame f values).heap.Binds (m.inNewFrame f values).frame name := by
  have hext := Heap.Extends.defineAll (m.heap.newFrame (some f)).2 m.heap.frames.size hnames
  rw [Heap.Binds]
  refine (hext.reserved _ (Heap.lt_size_newFrame m.heap _) _ hname).symm ▸ ?_
  exact Heap.not_binds_newFrame m.heap (some f) name

/-- A new frame fits a scope with names that it binds. -/
theorem fits_inNewFrame {o : Opener} {os : List Opener} {scope : Scope} {outer : List Scope}
    (hh : m.heap.Fitted ok made) (hfits : Fits made m.heap f os outer)
    (hmade : made m.heap.frames.size o)
    (hscope : ∀ name, scope.lookup name = some true → name ∈ values.map Prod.fst)
    (hnames : ∀ name ∈ values.map Prod.fst, ¬Heap.Reserved name) :
    Fits made (m.inNewFrame f values).heap (m.inNewFrame f values).frame (o :: os)
      (scope :: outer) := by
  have hlt := Heap.lt_size_newFrame m.heap (some f)
  show Fits made ((m.heap.newFrame (some f)).2.defineAll m.heap.frames.size values)
    m.heap.frames.size _ _
  refine .inner ?_ ?_ (hfits.lt_size hh.global) hmade
    (fun name hn => Heap.binds_defineAll (by exact hlt) (hscope name hn))
    (fun hn => absurd (Or.inl rfl) (hnames _ (hscope _ hn)))
    (fun hn => absurd (Or.inr rfl) (hnames _ (hscope _ hn)))
    (fun name hr _ => not_binds_inNewFrame hnames hr)
    (hfits.mono (extends_inNewFrame m f values))
  · rwa [Heap.size_defineAll]
  · exact (Heap.enclosing?_defineAll ..).trans (Heap.enclosing?_new ..)

end NewFrame

/-! ## What good tasks enter -/

/-- No parameter is named `this` or `super`. -/
theorem Function.Proper.parameters_not_reserved {d : Function} (hd : d.Proper)
    (arguments : List Value) :
    ∀ name ∈ ((d.parameters.map Token.lexeme).zip arguments).map Prod.fst, ¬Heap.Reserved name := by
  obtain ⟨name, parameters, body⟩ := d
  intro n hn
  obtain ⟨⟨n, v⟩, hzip, rfl⟩ := List.mem_map.1 hn
  obtain ⟨parameter, hp, rfl⟩ := List.mem_map.1 (List.of_mem_zip hzip).1
  exact Heap.not_reserved (hd.2.1 parameter hp)

/-- A class that is about to be declared: its name is bound, to nothing yet. -/
theorem bound_before_class {m : Machine} {name : Token} (hh : m.heap.Fitted ok made)
    (hname : name.Plain) :
    m.heap.Extends (m.heap.define m.frame name.lexeme .nil) ∧
      (m.heap.define m.frame name.lexeme .nil).Fitted ok made :=
  Safe.define hh m.frame hname trivial

/-- The initializer of a new object is bound to it. -/
theorem Good.initializer {id : Nat} {c : Class} {method closure : Closure} {arguments : List Value}
    {m m' : Machine} (hgood : Good ok made (.invoke (.cls id c) arguments) m)
    (hm : c.findMethod? Class.initializerName = some method) (hmade : made m.heap.frames.size .self)
    (hb : Eval.bind method m.heap.objects.size c { m with heap := m.heap.newObject.2 } =
      .ok closure m') : Good ok made (.function closure arguments) m' := by
  obtain ⟨hh, hlength, hc, harguments⟩ := hgood
  have hc : c.Fitted ok made m.heap := hc
  have hext : m.heap.Extends m.heap.newObject.2 := .of_frames rfl
  obtain ⟨hext', hfit, hclosure, hd⟩ := (Safe.bindMethod (m := { m with heap := m.heap.newObject.2 })
    hh.newObject ((hc.methods _ _ hm).mono hext) (hc.mono hext) hmade).of_ok hb
  have harity : c.arity = arguments.length := Option.some.inj hlength
  rw [Class.arity, hm] at harity
  refine ⟨hfit, ?_, hclosure, harguments.mono (hext.trans hext')⟩
  rw [hd]
  exact harity

/-- The body of a function is evaluated in the scope of its parameters. -/
theorem Good.body {closure : Closure} {arguments : List Value} {m : Machine}
    (hgood : Good ok made (.function closure arguments) m)
    (hmade : made m.heap.frames.size (.function closure.declaration)) :
    Good ok made (.stmts closure.declaration.body) (closure.entered arguments m) := by
  obtain ⟨⟨name, parameters, body⟩, frame, initializer⟩ := closure
  obtain ⟨hh, hlength, ⟨hp, os, r, kind, hfits, hsites⟩, harguments⟩ := hgood
  have hlength : parameters.length = arguments.length := hlength
  have hfst : ((parameters.map Token.lexeme).zip arguments).map Prod.fst =
      parameters.map Token.lexeme := List.map_fst_zip (by simp [hlength])
  have hsnd : ((parameters.map Token.lexeme).zip arguments).map Prod.snd = arguments :=
    List.map_snd_zip (by simp [hlength])
  have hnames := hp.parameters_not_reserved arguments
  obtain ⟨scope, hscopes, hholds⟩ :=
    (show Scope.Holds [] [] from fun _ => rfl).after r.scopes parameters
  refine ⟨fitted_inNewFrame hh hnames (hsnd.symm ▸ harguments), hp.2.2, _, _, ?_, hsites⟩
  rw [(Resolution.Onward.declaredAll _ parameters).scopes]
  show Fits made _ _ _ (Scopes.after ([] :: r.scopes) parameters)
  rw [hscopes]
  refine fits_inNewFrame hh hfits hmade (fun n hn => ?_) hnames
  rw [hholds] at hn
  show n ∈ ((parameters.map Token.lexeme).zip arguments).map Prod.fst
  rw [hfst]
  by_contra hm
  rw [List.nil_append, if_neg hm] at hn
  cases hn

/-- A superclass is evaluated where the name of the class is bound already. -/
theorem Good.superclass {name : Token} {superclass : Expr} {methods : List Function} {m : Machine}
    (hgood : Good ok made (.stmt (.classDecl name (some superclass) methods)) m) :
    Good ok made (.expr superclass) { m with heap := m.heap.define m.frame name.lexeme .nil } := by
  obtain ⟨hh, hp, os, r, hfits, hsites⟩ := hgood
  obtain ⟨id, word, rfl, hword⟩ := hp.2.1 superclass rfl
  obtain ⟨hext, hfit⟩ := bound_before_class (m := m) hh hp.1
  refine ⟨hfit, hword, os, _, ?_, (List.forall_mem_append.1 hsites).1⟩
  have ho := (Resolution.Onward.declared { r with context := .derived } name).trans
    (.checkSuperclass _ name (.var id word))
  rw [ho.scopes]
  exact (hfits.mono hext).after (List.forall_mem_singleton.2 hp.1)
    (List.forall_mem_singleton.2 (Heap.binds_define (hfits.lt_size hh.global) _ _))

/-- What the evaluation of a good expression leaves. -/
theorem SafeWhereGood.evaluated {t : Task} {m m₁ : Machine} {e : Expr} {v : Value}
    (ih : SafeWhereGood ok made rounds t m) (he : Enters rounds t m (.expr e) m)
    (hgood : Good ok made (.expr e) m) (h : evaluate rounds e m = .ok v m₁) :
    m.heap.Extends m₁.heap ∧ m₁.heap.Fitted ok made ∧ v.Fitted ok made m₁.heap :=
  (ih he hgood).of_ok h

section Enters

variable {t' : Task} {m m' : Machine}

theorem Good.enters_expr {e : Expr} (hgood : Good ok made (.expr e) m)
    (ih : SafeWhereGood ok made rounds (.expr e) m) (he : Enters rounds (.expr e) m t' m') :
    Good ok made t' m' := by
  obtain ⟨hh, hs⟩ := hgood
  cases he with
  | group => exact ⟨hh, hs⟩
  | unary => exact ⟨hh, hs.1.2, hs.2⟩
  | binaryLeft => exact ⟨hh, hs.1.2.1, hs.2.first⟩
  | @binaryRight left right _ _ m₁ a h =>
    obtain ⟨hext, hfit, -⟩ := ih.evaluated .binaryLeft ⟨hh, hs.1.2.1, hs.2.first⟩ h
    exact ⟨hfit, hs.1.2.2, (hs.2.rest.onward left.onward).after hext h⟩
  | logicalLeft => exact ⟨hh, hs.1.1, hs.2.first⟩
  | @logicalRight left right _ _ m₁ a h _ =>
    obtain ⟨hext, hfit, -⟩ := ih.evaluated .logicalLeft ⟨hh, hs.1.1, hs.2.first⟩ h
    exact ⟨hfit, hs.1.2, (hs.2.rest.onward left.onward).after hext h⟩
  | choiceCondition => exact ⟨hh, hs.1.1, hs.2.first⟩
  | @choiceThen condition thenCase elseCase _ m₁ v h _ =>
    obtain ⟨hext, hfit, -⟩ := ih.evaluated .choiceCondition ⟨hh, hs.1.1, hs.2.first⟩ h
    exact ⟨hfit, hs.1.2.1, (hs.2.rest.first.onward condition.onward).after hext h⟩
  | @choiceElse condition thenCase elseCase _ m₁ v h _ =>
    obtain ⟨hext, hfit, -⟩ := ih.evaluated .choiceCondition ⟨hh, hs.1.1, hs.2.first⟩ h
    have hcase := hs.2.rest.rest.onward fun r => (condition.onward r).trans (thenCase.onward _)
    exact ⟨hfit, hs.1.2.2, hcase.after hext h⟩
  | comma => exact ⟨hh, trivial, hs⟩
  | assigned => exact ⟨hh, hs.1.2, hs.2.first⟩
  | callee => exact ⟨hh, hs.1.1, hs.2.first⟩
  | @arguments callee _ arguments _ m₁ v h =>
    obtain ⟨hext, hfit, -⟩ := ih.evaluated .callee ⟨hh, hs.1.1, hs.2.first⟩ h
    exact ⟨hfit, hs.1.2, (hs.2.rest.onward callee.onward).after hext h⟩
  | @call callee _ arguments _ m₁ m₂ v vs h h' =>
    obtain ⟨hext, hfit, hv⟩ := ih.evaluated .callee ⟨hh, hs.1.1, hs.2.first⟩ h
    obtain ⟨hext', hfit', hvs⟩ := (ih (.arguments h)
      ⟨hfit, hs.1.2, (hs.2.rest.onward callee.onward).after hext h⟩).of_ok h'
    exact ⟨hfit', hv.mono hext', hvs⟩
  | getObject => exact ⟨hh, hs⟩
  -- the value of an assignment is resolved before the object, and evaluated after it
  | @setObject object value _ _ => exact ⟨hh, hs.1.1, hs.2.rest.onward value.onward⟩
  | @setValue object value _ _ m₁ id c h =>
    obtain ⟨hext, hfit, -⟩ := ih.evaluated .setObject
      ⟨hh, hs.1.1, hs.2.rest.onward value.onward⟩ h
    exact ⟨hfit, hs.1.2, hs.2.first.after hext h⟩

theorem Good.enters_items {last : Value} {es : List Expr} (hgood : Good ok made (.items last es) m)
    (ih : SafeWhereGood ok made rounds (.items last es) m)
    (he : Enters rounds (.items last es) m t' m') : Good ok made t' m' := by
  obtain ⟨hh, hs⟩ := hgood
  cases he with
  | item => exact ⟨hh, hs.2.1.1, hs.2.2.first⟩
  | @moreItems last v e es _ m₁ h =>
    obtain ⟨hext, hfit, hv⟩ := ih.evaluated .item ⟨hh, hs.2.1.1, hs.2.2.first⟩ h
    exact ⟨hfit, hv, hs.2.1.2, (hs.2.2.rest.onward e.onward).after hext h⟩

theorem Good.enters_operands {es : List Expr} (hgood : Good ok made (.operands es) m)
    (ih : SafeWhereGood ok made rounds (.operands es) m)
    (he : Enters rounds (.operands es) m t' m') : Good ok made t' m' := by
  obtain ⟨hh, hs⟩ := hgood
  cases he with
  | operand => exact ⟨hh, hs.1.1, hs.2.first⟩
  | @moreOperands v e es _ m₁ h =>
    obtain ⟨hext, hfit, -⟩ := ih.evaluated .operand ⟨hh, hs.1.1, hs.2.first⟩ h
    exact ⟨hfit, hs.1.2, (hs.2.rest.onward e.onward).after hext h⟩

theorem Good.enters_stmt {s : Stmt} (hgood : Good ok made (.stmt s) m)
    (hmade : ∀ f o, Creates rounds (.stmt s) m f o → made f o)
    (ih : SafeWhereGood ok made rounds (.stmt s) m) (he : Enters rounds (.stmt s) m t' m') :
    Good ok made t' m' := by
  obtain ⟨hh, hs⟩ := hgood
  cases he with
  | expression | print => exact ⟨hh, hs⟩
  | @initial name e _ =>
    obtain ⟨hp, os, r, hfits, hsites⟩ := hs
    refine ⟨hh, hp.2 e rfl, os, r.declare name, ?_, hsites⟩
    rw [Resolution.scopes_declare]
    exact hfits.declare hp.1
  | @block body _ =>
    obtain ⟨hp, os, r, hfits, hsites⟩ := hs
    have hnone : ∀ n ∈ ([] : List (String × Value)).map Prod.fst, ¬Heap.Reserved n := by simp
    exact ⟨fitted_inNewFrame hh hnone (by simp [Value.AllFitted]), hp, _, r.opened [],
      fits_inNewFrame hh hfits (hmade _ _ .block) (by simp) hnone, hsites⟩
  | @branchCondition condition thenCase elseCase _ =>
    cases elseCase <;> exact ⟨hh, hs.1.1, hs.2.first⟩
  | @branchThen condition thenCase elseCase _ m₁ v h _ =>
    cases elseCase with
    | none =>
      obtain ⟨hext, hfit, -⟩ := ih.evaluated .branchCondition ⟨hh, hs.1.1, hs.2.first⟩ h
      exact ⟨hfit, hs.1.2.1, (hs.2.rest.onward condition.onward).after hext h⟩
    | some elseCase =>
      obtain ⟨hext, hfit, -⟩ := ih.evaluated .branchCondition ⟨hh, hs.1.1, hs.2.first⟩ h
      exact ⟨hfit, hs.1.2.1.1, (hs.2.rest.first.onward condition.onward).after hext h⟩
  | @branchElse condition thenCase elseCase _ m₁ v h _ =>
    obtain ⟨hext, hfit, -⟩ := ih.evaluated .branchCondition ⟨hh, hs.1.1, hs.2.first⟩ h
    -- a branch declares nothing, so the other one is resolved in the same scopes
    have hthen : ∀ r : Resolution, r.Onward [] (thenCase.resolve r) := fun r => by
      have ho := thenCase.onward r
      rwa [hs.1.2.1.2] at ho
    have hcase := hs.2.rest.rest.onward fun r => (condition.onward r).trans (hthen _)
    exact ⟨hfit, hs.1.2.2.1, hcase.after hext h⟩
  | loop => exact ⟨hh, hs⟩
  | @returned keyword e _ =>
    obtain ⟨hp, os, r, hfits, hsites⟩ := hs
    refine ⟨hh, hp e rfl, os, r.checkReturn keyword true, ?_, hsites⟩
    rwa [(Resolution.Onward.checkReturn r keyword true).scopes]
  | superclass => exact Good.superclass ⟨hh, hs⟩

theorem Good.enters_stmts {ss : List Stmt} (hgood : Good ok made (.stmts ss) m)
    (ih : SafeWhereGood ok made rounds (.stmts ss) m) (he : Enters rounds (.stmts ss) m t' m') :
    Good ok made t' m' := by
  obtain ⟨hh, hs⟩ := hgood
  cases he with
  | first => exact ⟨hh, hs.1.1, hs.2.first⟩
  | @more s rest _ m₁ h =>
    obtain ⟨hext, hfit, -, hbound⟩ := (ih .first ⟨hh, hs.1.1, hs.2.first⟩).of_ok h
    obtain ⟨hp, os, r, hfits, hsites⟩ := hs
    refine ⟨hfit, hp.2, os, s.resolve r, ?_, (List.forall_mem_append.1 hsites).2⟩
    -- a statement that went through has bound what it declares
    rw [(s.onward r).scopes, frame_of_execute h]
    exact (hfits.mono hext).after hp.1.plain_declared (hbound rfl)

theorem Good.enters_loop {condition : Expr} {body : Stmt} {left : Nat}
    (hgood : Good ok made (.loop condition body left) m)
    (ih : SafeWhereGood ok made rounds (.loop condition body left) m)
    (he : Enters rounds (.loop condition body left) m t' m') : Good ok made t' m' := by
  obtain ⟨hh, hs⟩ := hgood
  cases he with
  | loopCondition => exact ⟨hh, hs.1.1, hs.2.first⟩
  | @loopBody condition body left _ m₁ v h _ =>
    obtain ⟨hext, hfit, -⟩ := ih.evaluated .loopCondition ⟨hh, hs.1.1, hs.2.first⟩ h
    exact ⟨hfit, hs.1.2.1, (hs.2.rest.onward condition.onward).after hext h⟩
  | @nextRound condition body left _ m₁ m₂ v h ht h' =>
    obtain ⟨hext, hfit, -⟩ := ih.evaluated .loopCondition ⟨hh, hs.1.1, hs.2.first⟩ h
    have hbody := (hs.2.rest.onward condition.onward).after hext h
    obtain ⟨hext', hfit', -⟩ := (ih (.loopBody h ht) ⟨hfit, hs.1.2.1, hbody⟩).of_ok h'
    have hframe := (frame_of_execute h').trans (frame_of_evaluate h)
    exact ⟨hfit', hs.1, hframe ▸ hs.2.mono (hext.trans hext')⟩

/-- All that a good task enters is good, if what was entered before was safe. -/
theorem Good.enters {t : Task} (hgood : Good ok made t m)
    (hmade : ∀ f o, Creates rounds t m f o → made f o) (ih : SafeWhereGood ok made rounds t m)
    (he : Enters rounds t m t' m') : Good ok made t' m' := by
  cases t with
  | expr e => exact hgood.enters_expr ih he
  | items last es => exact hgood.enters_items ih he
  | operands es => exact hgood.enters_operands ih he
  | stmt s => exact hgood.enters_stmt hmade ih he
  | stmts ss => exact hgood.enters_stmts ih he
  | loop condition body left => exact hgood.enters_loop ih he
  | call paren callee arguments =>
    cases he with
    | invoke ha _ => exact ⟨hgood.heap, ha, hgood.settled⟩
  | invoke callee arguments =>
    cases he with
    | function => exact ⟨hgood.heap, Option.some.inj hgood.settled.1, hgood.settled.2⟩
    | initializer hm hn hb =>
      cases hn
      exact hgood.initializer hm (hmade _ _ (.initializer hm)) hb
  | function closure arguments =>
    cases he with
    | body => exact hgood.body (hmade _ _ .function)

end Enters

/-! ## Good tasks are safe -/

/-- What the evaluation of a task makes, it makes for its constructs. -/
def Makes (made : FrameId → Opener → Prop) (rounds : Nat) (t : Task) (m : Machine) : Prop :=
  ∀ n t' m' f o, Reaches rounds t m n t' m' → Creates rounds t' m' f o → made f o

theorem Makes.here {t : Task} {m : Machine} (h : Makes made rounds t m) (f : FrameId) (o : Opener)
    (hc : Creates rounds t m f o) : made f o := h 0 t m f o .here hc

theorem Makes.enters {t t' : Task} {m m' : Machine} (h : Makes made rounds t m)
    (he : Enters rounds t m t' m') : Makes made rounds t' m' :=
  fun _ _ _ _ _ hr hc => h _ _ _ _ _ (.step he hr) hc

/-- A statement that declares nothing has nothing to bind. -/
theorem delivers_of_declared_nil {s : Stmt} (hs : s.declared = []) (f : FrameId) (flow : Flow)
    {h : Heap} (hflow : flow.Fitted ok made h) : Task.Delivers ok made (.stmt s) f flow h :=
  ⟨hflow, fun _ => by simp [hs]⟩

theorem Situated.lt_size {h : Heap} {f : FrameId} {A : List Opener → Resolution → List Site}
    (hs : Situated ok made h f A) (hh : h.Fitted ok made) : f < h.frames.size := by
  obtain ⟨_, _, hfits, -⟩ := hs
  exact hfits.lt_size hh.global

section Safety

variable {m : Machine}

/-! ### Calls -/

theorem safe_call {paren : Token} {callee : Value} {arguments : List Value}
    (hgood : Good ok made (.call paren callee arguments) m)
    (sub : SafeInside ok made rounds (.call paren callee arguments) m) :
    Safe ok made ((Task.call paren callee arguments).run rounds) m
      (fun v h => v.Fitted ok made h) := by
  obtain ⟨problem, h⟩ | ⟨ha, hd⟩ := call_cases (runBody rounds callLevels) paren callee arguments m
  · exact .intro_error h (.refl _) hgood.heap
  · exact .congr (call_of_checked ha hd) (.oneDeeper (sub (.invoke ha hd)))

theorem safe_construct {id : Nat} {c : Class} {arguments : List Value}
    (hgood : Good ok made (.invoke (.cls id c) arguments) m)
    (hmade : ∀ f o, Creates rounds (.invoke (.cls id c) arguments) m f o → made f o)
    (sub : SafeInside ok made rounds (.invoke (.cls id c) arguments) m) :
    Safe ok made ((Task.invoke (.cls id c) arguments).run rounds) m
      (fun v h => v.Fitted ok made h) := by
  have hc : c.Fitted ok made m.heap := hgood.settled.2.1
  have hext : m.heap.Extends m.heap.newObject.2 := .of_frames rfl
  cases hm : c.findMethod? Class.initializerName with
  | none =>
    exact .intro_ok (construct_of_none hm) hext hgood.heap.newObject
      (hc.mono hext : Class.Fitted _ _ _ c)
  | some method =>
    obtain ⟨closure, m₂, hb⟩ : ∃ closure m₂, Eval.bind method m.heap.objects.size c
        { m with heap := m.heap.newObject.2 } = .ok closure m₂ := ⟨_, _, rfl⟩
    obtain ⟨hext', -⟩ := (Safe.bindMethod (m := { m with heap := m.heap.newObject.2 })
      hgood.heap.newObject ((hc.methods _ _ hm).mono hext) (hc.mono hext)
      (hmade _ _ (.initializer hm))).of_ok hb
    have hext₂ := hext.trans hext'
    refine .of_extends (construct_of_some hm rfl hb) hext₂
      (.bind (sub (.initializer hm rfl hb)) fun _ m₃ _ hext₃ hfit₃ _ => ?_)
    exact .pure hfit₃ (hc.mono (hext₂.trans hext₃) : Class.Fitted _ _ _ c)

theorem safe_function {closure : Closure} {arguments : List Value} (hd : m.depth ≤ maxCallDepth)
    (sub : SafeInside ok made rounds (.function closure arguments) m) :
    Safe ok made ((Task.function closure arguments).run rounds) m
      (fun v h => v.Fitted ok made h) := by
  have hbody := sub .body
  have hext : m.heap.Extends (closure.entered arguments m).heap := extends_inNewFrame m _ _
  cases hrun : (Task.stmts closure.declaration.body).run rounds (closure.entered arguments m) with
  | error e m₁ =>
    obtain ⟨hext₁, hfit₁⟩ := hbody.of_error hrun
    exact .intro_error (callFunction_of_error hd hrun) (hext.trans hext₁) hfit₁
  | ok flow m₁ =>
    obtain ⟨hext₁, hfit₁, hflow⟩ := hbody.of_ok hrun
    refine .of_extends (callFunction_of_ok hd hrun) (hext.trans hext₁) ?_
    cases closure.initializer with
    | true => exact .boundObject (m := { m₁ with frame := m.frame }) hfit₁ closure
    | false =>
      refine .pure (m := { m₁ with frame := m.frame }) hfit₁ ?_
      cases flow with
      | normal => trivial
      | returned v => exact hflow

/-! ### Expressions -/

theorem safe_expr {e : Expr} (hgood : Good ok made (.expr e) m)
    (hmade : ∀ f o, Creates rounds (.expr e) m f o → made f o)
    (sub : SafeInside ok made rounds (.expr e) m) :
    Safe ok made ((Task.expr e).run rounds) m (fun v h => v.Fitted ok made h) := by
  obtain ⟨hh, hs⟩ := hgood
  cases e with
  | number _ | string _ | boolean _ | nil => exact .pure hh trivial
  | group inner =>
    have h := sub .group
    exact h
  | unary operator operand =>
    exact .bind (sub .unary) fun v m₁ _ _ hfit _ =>
      .ofExcept hfit fun _ hv => (Value.atomic_of_unary hv).fitted
  | binary left operator right =>
    refine .bind (sub .binaryLeft) fun a m₁ ha _ _ _ => ?_
    exact .bind (sub (.binaryRight ha)) fun b m₂ _ _ hfit _ =>
      .ofExcept hfit fun _ hv => (Value.atomic_of_binary hv).fitted
  | logical left operator right =>
    refine .bind (sub .logicalLeft) fun a m₁ ha _ hfit hv => ?_
    obtain hd | hd := eq_false_or_eq_true (decidesLogical operator a)
    · exact .congr (ite_of_true hd) (.pure hfit hv)
    · exact .congr (ite_of_false hd) (sub (.logicalRight ha hd))
  | choice condition thenCase elseCase =>
    refine .bind (sub .choiceCondition) fun v m₁ hv _ _ _ => ?_
    obtain ht | ht := eq_false_or_eq_true v.truthy
    · exact .congr (ite_of_true ht) (sub (.choiceThen hv ht))
    · exact .congr (ite_of_false ht) (sub (.choiceElse hv ht))
  | comma items =>
    have h := sub .comma
    exact h
  | var id name => exact .readVariable hh id name
  | assign id name value =>
    refine .bind (sub .assigned) fun v m₁ _ _ hfit hv => ?_
    exact .bind (.writeVariable hfit id hs.1.1 hv) fun _ m₂ _ hext₂ hfit₂ _ =>
      .pure hfit₂ (hv.mono hext₂)
  | call callee paren arguments =>
    refine .bind (sub .callee) fun f m₁ hf _ _ _ => ?_
    exact .bind (sub (.arguments hf)) fun vs m₂ hvs _ _ _ => sub (.call hf hvs)
  | get object name =>
    refine .bind (sub .getObject) fun v m₁ hv _ hfit hfitted => ?_
    refine .getProperty hfit hfitted name fun id c method hvalue hf hm => ?_
    subst hvalue
    exact hmade _ _ (.property hv hf hm)
  | set object name value =>
    refine .bind (sub .setObject) fun v m₁ hv _ hfit _ => ?_
    cases v with
    | object id c =>
      refine .bind (sub (.setValue hv)) fun w m₂ _ _ hfit₂ hw => ?_
      exact .bind (.setField hfit₂ id name.lexeme hw) fun _ m₃ _ hext₃ hfit₃ _ =>
        .pure hfit₃ (hw.mono hext₃)
    | _ => exact .fail hfit
  | self id keyword => exact .readVariable hh id keyword
  | super id keyword method =>
    exact .superMethod hh id keyword method fun _ _ _ _ hs hf => hmade _ _ (.superMethod hs hf)

theorem safe_items {last : Value} {es : List Expr} (hgood : Good ok made (.items last es) m)
    (sub : SafeInside ok made rounds (.items last es) m) :
    Safe ok made ((Task.items last es).run rounds) m (fun v h => v.Fitted ok made h) := by
  cases es with
  | nil => exact .pure hgood.heap hgood.settled.1
  | cons e es => exact .bind (sub .item) fun v m₁ hv _ _ _ => sub (.moreItems hv)

theorem safe_operands {es : List Expr} (hgood : Good ok made (.operands es) m)
    (sub : SafeInside ok made rounds (.operands es) m) :
    Safe ok made ((Task.operands es).run rounds) m
      (fun vs h => Value.AllFitted ok made h vs) := by
  cases es with
  | nil => exact .pure hgood.heap (by simp [Value.AllFitted])
  | cons e es =>
    refine .bind (sub .operand) fun v m₁ hv _ _ hfitted => ?_
    refine .bind (sub (.moreOperands hv)) fun vs m₂ _ hext hfit hvs => .pure hfit ?_
    exact List.forall_mem_cons.2 ⟨hfitted.mono hext, hvs⟩

/-! ### Statements -/

/-- A function is made in the frame that will bind its name. -/
theorem safe_functionDecl {declaration : Function}
    (hgood : Good ok made (.stmt (.function declaration)) m) :
    Safe ok made ((Task.stmt (.function declaration)).run rounds) m
      ((Task.stmt (.function declaration)).Delivers ok made m.frame) := by
  obtain ⟨hh, hp, hs⟩ := hgood
  have hlt := hs.lt_size hh
  obtain ⟨os, r, hfits, hsites⟩ := hs
  have hname : declaration.name.Plain := by
    obtain ⟨name, parameters, body⟩ := declaration
    exact hp.1
  let v : Value := .function m.heap.nextIdentity ⟨declaration, m.frame, false⟩
  let h₁ := m.heap.newIdentity.2
  have hext₁ := Heap.Extends.define h₁ m.frame (Heap.not_reserved hname) v
  have hext : m.heap.Extends (h₁.define m.frame declaration.name.lexeme v) :=
    (show m.heap.Extends h₁ from .of_frames rfl).trans hext₁
  have hbound : (h₁.define m.frame declaration.name.lexeme v).Binds m.frame
      declaration.name.lexeme := Heap.binds_define hlt _ _
  have hv : v.Fitted ok made (h₁.define m.frame declaration.name.lexeme v) := by
    refine ⟨hp, os, _, .function, ?_, hsites⟩
    rw [(Resolution.Onward.declared r declaration.name).scopes]
    exact (hfits.mono hext).after (List.forall_mem_singleton.2 hname)
      (List.forall_mem_singleton.2 hbound)
  exact .intro_ok (n := { m with heap := h₁.define m.frame declaration.name.lexeme v }) rfl hext
    (hh.newIdentity.define hext₁ hv) ⟨trivial, fun _ => List.forall_mem_singleton.2 hbound⟩

/-- What a class declaration comes to once its class fits. -/
theorem safe_bindClass {name : Token} {c : Class} (hh : m.heap.Fitted ok made)
    (hname : name.Plain) (hc : c.Fitted ok made m.heap) :
    Safe ok made (do assign name (← newClass c)) m (fun _ _ => True) :=
  .bind (.newClass hh hc) fun _ _ _ _ hfit hv => .assign hfit hname hv

theorem safe_baseClass {name : Token} {methods : List Function}
    (hgood : Good ok made (.stmt (.classDecl name none methods)) m) :
    Safe ok made ((Task.stmt (.classDecl name none methods)).run rounds) m
      ((Task.stmt (.classDecl name none methods)).Delivers ok made m.frame) := by
  obtain ⟨hh, hp, hs⟩ := hgood
  have hlt := hs.lt_size hh
  obtain ⟨os, r, hfits, hsites⟩ := hs
  obtain ⟨hext, hfit⟩ := bound_before_class (m := m) hh hp.1
  have hbound := Heap.binds_define hlt name.lexeme .nil
  refine .of_extends (bind_of_ok rfl) hext ?_
  have hc : Class.Fitted ok made (m.heap.define m.frame name.lexeme .nil)
      ⟨name.lexeme, none, methodTable methods m.frame⟩ := by
    refine Class.fitted_methodTable hp.2.2 (by simp) rfl ?_ hsites
    rw [(Resolution.Onward.declared { r with context := .base } name).scopes]
    exact (hfits.mono hext).after (List.forall_mem_singleton.2 hp.1)
      (List.forall_mem_singleton.2 hbound)
  refine .bind (.of_extends (bind_of_ok rfl) (.refl _) (safe_bindClass hfit hp.1 hc))
    fun _ m₁ _ hext₁ hfit₁ _ => .pure hfit₁ ⟨trivial, fun _ => ?_⟩
  exact List.forall_mem_singleton.2 (hext₁.binds _ (hext.size.trans_lt' hlt) _ hbound)

/-- What a class declaration comes to once its superclass is there. -/
theorem safe_withSuperclass {name : Token} {superclass : Expr} {methods : List Function} {v : Value}
    {m₁ : Machine} (hgood : Good ok made (.stmt (.classDecl name (some superclass) methods)) m)
    (hmade : ∀ f o, Creates rounds (.stmt (.classDecl name (some superclass) methods)) m f o →
      made f o)
    (hv : evaluate rounds superclass { m with heap := m.heap.define m.frame name.lexeme .nil } =
      .ok v m₁)
    (hext₁ : (m.heap.define m.frame name.lexeme .nil).Extends m₁.heap)
    (hfit₁ : m₁.heap.Fitted ok made) (hfitted : v.Fitted ok made m₁.heap) (line : Nat) :
    Safe ok made (do
      let c ← asSuperclass line v
      declareClass name methods (some c)
      pure Flow.normal) m₁
      ((Task.stmt (.classDecl name (some superclass) methods)).Delivers ok made m.frame) := by
  obtain ⟨hh, hp, hs⟩ := hgood
  have hlt := hs.lt_size hh
  obtain ⟨os, r, hfits, hsites⟩ := hs
  obtain ⟨hext, -⟩ := bound_before_class (m := m) hh hp.1
  have hbound := Heap.binds_define hlt name.lexeme .nil
  have hframe : m₁.frame = m.frame :=
    frame_of_evaluate (m := { m with heap := m.heap.define m.frame name.lexeme .nil }) hv
  have hext' := hext.trans hext₁
  have hbound₁ := hext₁.binds _ (hext.size.trans_lt' hlt) _ hbound
  cases v with
  | cls id c =>
    let r₁ := ((({ r with context := .derived } : Resolution).declare name).define
      name).checkSuperclass name superclass
    have hscopes : (superclass.resolve r₁).scopes = Scopes.after r.scopes [name] :=
      (superclass.onward r₁).scopes.trans ((Resolution.Onward.declared _ name).trans
        (.checkSuperclass _ name superclass)).scopes
    have houter : Fits made m₁.heap m₁.frame os (Scopes.after r.scopes [name]) :=
      hframe ▸ (hfits.mono hext').after (List.forall_mem_singleton.2 hp.1)
        (List.forall_mem_singleton.2 hbound₁)
    obtain ⟨hext₂, hfit₂, hfits₂⟩ := Fits.binding superName (.cls id c) houter hfit₁ hfitted
      (hmade _ _ (.superclass hv)) (fun h => absurd h (by decide)) (fun _ => ⟨id, c, rfl⟩)
    have hc : Class.Fitted ok made _ ⟨name.lexeme, some c, methodTable methods _⟩ :=
      Class.fitted_methodTable hp.2.2 (by simpa using (Class.Fitted.mono hfitted hext₂))
        (congrArg (fun scopes => [(selfName, true)] :: [(superName, true)] :: scopes) hscopes)
        hfits₂ (List.forall_mem_append.1 hsites).2
    have hdeclare : Safe ok made (declareClass name methods (some (id, c))) m₁ (fun _ _ => True) :=
      .of_extends ((bind_of_ok rfl).trans ((bind_of_ok rfl).trans (bind_of_ok rfl))) hext₂
        (safe_bindClass (m := { m₁ with heap := _ }) hfit₂ hp.1 hc)
    refine .of_extends (bind_of_ok rfl) (.refl _) (.bind hdeclare fun _ m₂ _ hext₂ hfit₂ _ =>
      .pure hfit₂ ⟨trivial, fun _ => List.forall_mem_singleton.2 ?_⟩)
    exact hext₂.binds _ (hext'.size.trans_lt' hlt) _ hbound₁
  | _ => exact .of_extends (m := m₁) (n := m₁) rfl (.refl _) (.fail hfit₁)

theorem safe_derivedClass {name : Token} {superclass : Expr} {methods : List Function}
    (hgood : Good ok made (.stmt (.classDecl name (some superclass) methods)) m)
    (hmade : ∀ f o, Creates rounds (.stmt (.classDecl name (some superclass) methods)) m f o →
      made f o)
    (sub : SafeInside ok made rounds (.stmt (.classDecl name (some superclass) methods)) m) :
    Safe ok made ((Task.stmt (.classDecl name (some superclass) methods)).run rounds) m
      ((Task.stmt (.classDecl name (some superclass) methods)).Delivers ok made m.frame) := by
  obtain ⟨hext, -⟩ := bound_before_class (m := m) hgood.heap hgood.settled.1.1
  exact .of_extends (bind_of_ok rfl) hext
    (.bind (sub .superclass) fun v m₁ hv hext₁ hfit₁ hfitted =>
      safe_withSuperclass hgood hmade hv hext₁ hfit₁ hfitted _)

theorem safe_stmt {s : Stmt} (hgood : Good ok made (.stmt s) m)
    (hmade : ∀ f o, Creates rounds (.stmt s) m f o → made f o)
    (sub : SafeInside ok made rounds (.stmt s) m) :
    Safe ok made ((Task.stmt s).run rounds) m ((Task.stmt s).Delivers ok made m.frame) := by
  have ⟨hh, hp, hs⟩ := hgood
  have hlt := hs.lt_size hh
  cases s with
  | expression e =>
    exact .bind (sub .expression) fun _ m₁ _ _ hfit _ =>
      .pure hfit (delivers_of_declared_nil rfl m.frame .normal trivial)
  | print e =>
    refine .bind (sub .print) fun _ m₁ _ _ hfit _ => ?_
    exact .bind (.print hfit _) fun _ m₂ _ _ hfit₂ _ =>
      .pure hfit₂ (delivers_of_declared_nil rfl m.frame .normal trivial)
  | varDecl name initial =>
    cases initial with
    | none =>
      obtain ⟨hext, hfit⟩ := bound_before_class (m := m) hh hp.1
      exact .intro_ok (n := { m with heap := m.heap.define m.frame name.lexeme .nil }) rfl hext hfit
        ⟨trivial, fun _ => List.forall_mem_singleton.2 (Heap.binds_define hlt _ _)⟩
    | some e =>
      refine .bind (sub .initial) fun v m₁ hv hext hfit hfitted => ?_
      have hframe : m₁.frame = m.frame := frame_of_evaluate hv
      obtain ⟨hext₁, hfit₁⟩ := Safe.define hfit m₁.frame hp.1 hfitted
      refine .intro_ok (n := { m₁ with heap := m₁.heap.define m₁.frame name.lexeme v }) rfl hext₁
        hfit₁ ⟨trivial, fun _ => List.forall_mem_singleton.2 ?_⟩
      exact hframe ▸ Heap.binds_define (hframe ▸ hext.size.trans_lt' hlt) _ _
  | block body =>
    have hbody := sub .block
    have hext := extends_inNewFrame m m.frame []
    cases hrun : (Task.stmts body).run rounds (m.inNewFrame m.frame []) with
    | error e m₁ =>
      obtain ⟨hext₁, hfit₁⟩ := hbody.of_error hrun
      exact .intro_error (execute_block_of_error hrun) (hext.trans hext₁) hfit₁
    | ok flow m₁ =>
      obtain ⟨hext₁, hfit₁, hflow⟩ := hbody.of_ok hrun
      exact .intro_ok (execute_block_of_ok hrun) (hext.trans hext₁) hfit₁
        (delivers_of_declared_nil rfl m.frame flow hflow)
  | branch condition thenCase elseCase =>
    cases elseCase with
    | none =>
      refine .bind (sub .branchCondition) fun v m₁ hv _ hfit _ => ?_
      obtain ht | ht := eq_false_or_eq_true v.truthy
      · exact .congr (ite_of_true ht) ((sub (.branchThen hv ht)).mono fun flow h _ hflow =>
          delivers_of_declared_nil hp.2.2 m.frame flow hflow.1)
      · exact .congr (ite_of_false ht) (.pure hfit
          (delivers_of_declared_nil hp.2.2 m.frame .normal trivial))
    | some elseCase =>
      have hnil : (Stmt.branch condition thenCase (some elseCase)).declared = [] := by
        rw [Stmt.declared, hp.2.1.2, hp.2.2.2, List.append_nil]
      refine .bind (sub .branchCondition) fun v m₁ hv _ hfit _ => ?_
      obtain ht | ht := eq_false_or_eq_true v.truthy
      · exact .congr (ite_of_true ht) ((sub (.branchThen hv ht)).mono fun flow h _ hflow =>
          delivers_of_declared_nil hnil m.frame flow hflow.1)
      · exact .congr (ite_of_false ht) ((sub (.branchElse hv ht)).mono fun flow h _ hflow =>
          delivers_of_declared_nil hnil m.frame flow hflow.1)
  | loop condition body =>
    exact (sub .loop).mono fun flow h _ hflow => delivers_of_declared_nil hp.2.2 m.frame flow hflow
  | function declaration => exact safe_functionDecl hgood
  | yield keyword value =>
    cases value with
    | none => exact .pure hh (delivers_of_declared_nil rfl m.frame (.returned .nil) trivial)
    | some e =>
      exact .bind (sub .returned) fun v m₁ _ _ hfit hv =>
        .pure hfit (delivers_of_declared_nil rfl m.frame (.returned v) hv)
  | classDecl name superclass methods =>
    cases superclass with
    | none => exact safe_baseClass hgood
    | some superclass => exact safe_derivedClass hgood hmade sub

theorem safe_stmts {ss : List Stmt} (hgood : Good ok made (.stmts ss) m)
    (sub : SafeInside ok made rounds (.stmts ss) m) :
    Safe ok made ((Task.stmts ss).run rounds) m (fun flow h => flow.Fitted ok made h) := by
  cases ss with
  | nil => exact .pure hgood.heap trivial
  | cons s rest =>
    refine .bind (sub .first) fun flow m₁ hs _ hfit hflow => ?_
    cases flow with
    | normal => exact sub (.more hs)
    | returned v => exact .pure hfit hflow.1

theorem safe_loop {condition : Expr} {body : Stmt} {left : Nat}
    (hgood : Good ok made (.loop condition body left) m)
    (sub : SafeInside ok made rounds (.loop condition body left) m) :
    Safe ok made ((Task.loop condition body left).run rounds) m
      (fun flow h => flow.Fitted ok made h) := by
  cases left with
  | zero => exact .throw hgood.heap
  | succ left =>
    refine .bind (sub .loopCondition) fun v m₁ hv _ hfit _ => ?_
    obtain ht | ht := eq_false_or_eq_true v.truthy
    · refine .congr (ite_of_true ht) (.bind (sub (.loopBody hv ht)) fun flow m₂ hb _ hfit₂ hflow => ?_)
      cases flow with
      | normal => exact sub (.nextRound hv ht hb)
      | returned v => exact .pure hfit₂ hflow.1
    · exact .congr (ite_of_false ht) (.pure hfit trivial)

end Safety

/-- A good task is safe, and so is all that it comes to. -/
theorem Task.safe {t : Task} {m : Machine} (hm : m.depth ≤ maxCallDepth)
    (hmakes : Makes made rounds t m) (hgood : Good ok made t m) :
    Safe ok made (t.run rounds) m (t.Delivers ok made m.frame) := by
  refine Task.induction rounds (P := fun t m => Makes made rounds t m → Good ok made t m →
    Safe ok made (t.run rounds) m (t.Delivers ok made m.frame)) ?_ t m hm hmakes hgood
  intro t m hm ih hmakes hgood
  have hwhere : SafeWhereGood ok made rounds t m := fun t' m' he => ih t' m' he (hmakes.enters he)
  have sub : SafeInside ok made rounds t m := fun _ _ he =>
    hwhere he (hgood.enters hmakes.here hwhere he)
  cases t with
  | expr e => exact safe_expr hgood hmakes.here sub
  | items last es => exact safe_items hgood sub
  | operands es => exact safe_operands hgood sub
  | stmt s => exact safe_stmt hgood hmakes.here sub
  | stmts ss => exact safe_stmts hgood sub
  | loop condition body left => exact safe_loop hgood sub
  | call paren callee arguments => exact safe_call hgood sub
  | invoke callee arguments =>
    cases callee with
    | function id closure =>
      have h := sub .function
      exact h
    | cls id c => exact safe_construct hgood hmakes.here sub
    | clock => exact .intro_ok rfl (.refl _) hgood.heap trivial
    | _ => exact .pure hgood.heap trivial
  | function closure arguments => exact safe_function hm sub

/-- What a good task enters is good, and safe. -/
theorem Good.entered {t t' : Task} {m m' : Machine} (hm : m.depth ≤ maxCallDepth)
    (hmakes : Makes made rounds t m) (hgood : Good ok made t m) (he : Enters rounds t m t' m') :
    Good ok made t' m' ∧ Safe ok made (t'.run rounds) m' (t'.Delivers ok made m'.frame) := by
  have hwhere : SafeWhereGood ok made rounds t m := fun _ _ he hgood =>
    Task.safe (he.depth_le hm) (hmakes.enters he) hgood
  have hgood' := hgood.enters hmakes.here hwhere he
  exact ⟨hgood', hwhere he hgood'⟩

/-- All that a good task comes to is good. -/
theorem Good.reaches {t t' : Task} {m m' : Machine} {n : Nat} (hm : m.depth ≤ maxCallDepth)
    (hmakes : Makes made rounds t m) (hgood : Good ok made t m)
    (h : Reaches rounds t m n t' m') : Good ok made t' m' := by
  induction h with
  | here => exact hgood
  | step he _ ih =>
    exact ih (he.depth_le hm) (hmakes.enters he) (hgood.entered hm hmakes he).1

end Lox
