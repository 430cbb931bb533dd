import Lox.Proofs.Eval.Trait

/-
  Evaluation hands traits on

  If a task and the heap have a trait, then whatever the task comes to has it, and so
  have all values that it makes (`Bearing.reaches`, `Bearing.upholds`).
-/

namespace Lox

open Eval
open Bool (eq_false_or_eq_true)

variable {T : Trait} {made : FrameId → Opener → Prop} {rounds : Nat} {t t' : Task}
  {m m' : Machine}

/-- What is promised of a task that has the trait. -/
def Task.Upholds (T : Trait) (made : FrameId → Opener → Prop) (rounds : Nat) (t : Task)
    (m : Machine) : Prop :=
  Eval.Upholds T made (t.run rounds) m fun n a => Value.AllBear T made n (t.results a)

namespace Value.AllBear

variable {n : Nat} {v : Value} {vs : List Value}

theorem nil : AllBear T made n [] := List.forall_mem_nil _

theorem single : AllBear T made n [v] ↔ v.Bears T made n := List.forall_mem_singleton

theorem cons : AllBear T made n (v :: vs) ↔ v.Bears T made n ∧ AllBear T made n vs :=
  List.forall_mem_cons

end Value.AllBear

/-- A flow that carries no value but `nil`. -/
theorem Flow.value_bears {n : Nat} {flow : Flow} (h : Value.AllBear T made n flow.values) :
    flow.value.Bears T made n := by
  cases flow with
  | normal => exact Value.bears_nil
  | returned v => exact Value.AllBear.single.1 h

/-! ## What is entered -/

/-- Code that is entered has the trait, be it part of other code or the body of a function. -/
theorem Bearing.code_of_enters (hb : Bearing T made t m) (he : Enters rounds t m t' m')
    (ht' : t'.Code) : T.code t' := by
  have hpart : t.Code → T.code t' := fun ht => T.entered he ht ht' (hb.code ht)
  cases t with
  | call | invoke => cases he <;> exact ht'.elim
  | function closure arguments =>
    have hvalue := (Value.AllBear.cons.1 hb.values).1
    cases he
    exact T.body (hvalue.offers closure rfl)
  | _ => exact hpart trivial

theorem Heap.Bears.inNewFrame (hh : m.heap.Bears T made) (f : FrameId)
    {values : List (String × Value)}
    (hv : Value.AllBear T made m.heap.objects.size (values.map Prod.snd)) :
    (m.inNewFrame f values).heap.Bears T made := (hh.newFrame _).defineAll _ hv

/-- The initializer of a new object has the trait. -/
theorem Bearing.initializer {id : Nat} {c : Class} {method closure : Closure}
    {arguments : List Value} (hb : Bearing T made (.invoke (.cls id c) arguments) m)
    (hc : c.findMethod? Class.initializerName = some method) (hm : made m.heap.frames.size .self)
    (hbind : Eval.bind method m.heap.objects.size c { m with heap := m.heap.newObject.2 } =
      .ok closure m') : Bearing T made (.function closure arguments) m' := by
  obtain ⟨hv, hvs⟩ := Value.AllBear.cons.1 hb.values
  -- there is one object more, the one that the method is bound to
  have hlt : m.heap.objects.size < m.heap.newObject.2.objects.size :=
    Heap.size_objects_newObject m.heap ▸ Nat.lt_succ_self _
  have hobject : (Value.object m.heap.objects.size c).Bears T made
      m.heap.newObject.2.objects.size := (hv.mono (Nat.le_of_lt hlt)).toObject hlt
  have hmethod : T.routine method.initializer method.declaration := hv.method hc
  cases hbind
  exact ⟨(hb.heap.newObject.newFrame _).define _ _ hobject, nofun,
    Value.AllBear.cons.2 ⟨Value.bears_function hmethod fun _ => hm, hvs.mono (Nat.le_of_lt hlt)⟩⟩

/-- The parameters of a function are arguments that have the trait. -/
theorem Heap.Bears.entered {closure : Closure} {arguments : List Value} (hh : m.heap.Bears T made)
    (hvs : Value.AllBear T made m.heap.objects.size arguments) :
    (closure.entered arguments m).heap.Bears T made := by
  refine hh.inNewFrame _ fun v hv => ?_
  obtain ⟨entry, hmem, rfl⟩ := List.mem_map.1 hv
  exact hvs _ (List.of_mem_zip hmem).2

/-- What a task enters has the trait, provided that this holds of what it evaluated before. -/
theorem Bearing.enters (hb : Bearing T made t m)
    (hmade : ∀ f o, Creates rounds t m f o → made f o)
    (sub : ∀ {t₁ m₁}, Enters rounds t m t₁ m₁ → Bearing T made t₁ m₁ →
      t₁.Upholds T made rounds m₁)
    (he : Enters rounds t m t' m') : Bearing T made t' m' := by
  have hcode := hb.code_of_enters he
  have hh := hb.heap
  -- what the evaluation of an expression leaves
  have hevaluated : ∀ {e v n}, Enters rounds t m (.expr e) m → evaluate rounds e m = .ok v n →
      m.heap.objects.size ≤ n.heap.objects.size ∧ n.heap.Bears T made ∧
        v.Bears T made n.heap.objects.size := by
    intro e v n he hv
    have hbearing : Bearing T made (.expr e) m := ⟨hh, hb.code_of_enters he, .nil⟩
    obtain ⟨hsize, hn, hvalue⟩ := (sub he hbearing).of_ok hv
    exact ⟨hsize, hn, Value.AllBear.single.1 hvalue⟩
  cases he with
  | binaryRight h => exact ⟨(hevaluated .binaryLeft h).2.1, hcode, .nil⟩
  | logicalRight h _ => exact ⟨(hevaluated .logicalLeft h).2.1, hcode, .nil⟩
  | choiceThen h _ | choiceElse h _ =>
    exact ⟨(hevaluated .choiceCondition h).2.1, hcode, .nil⟩
  | arguments h => exact ⟨(hevaluated .callee h).2.1, hcode, .nil⟩
  | setValue h => exact ⟨(hevaluated .setObject h).2.1, hcode, .nil⟩
  | moreOperands h => exact ⟨(hevaluated .operand h).2.1, hcode, .nil⟩
  | branchThen h _ | branchElse h _ =>
    exact ⟨(hevaluated .branchCondition h).2.1, hcode, .nil⟩
  | loopBody h _ => exact ⟨(hevaluated .loopCondition h).2.1, hcode, .nil⟩
  | comma => exact ⟨hh, hcode, Value.AllBear.single.2 Value.bears_nil⟩
  | moreItems h =>
    obtain ⟨-, hn, hv⟩ := hevaluated .item h
    exact ⟨hn, hcode, Value.AllBear.single.2 hv⟩
  | call h h' =>
    obtain ⟨-, hn, hv⟩ := hevaluated .callee h
    have harguments : Bearing T made (.operands _) _ :=
      ⟨hn, hb.code_of_enters (.arguments h), .nil⟩
    obtain ⟨hsize, hn', hvs⟩ := (sub (.arguments h) harguments).of_ok h'
    exact ⟨hn', hcode, Value.AllBear.cons.2 ⟨hv.mono hsize, hvs⟩⟩
  | invoke => exact ⟨hh, hcode, hb.values⟩
  | function =>
    obtain ⟨hv, hvs⟩ := Value.AllBear.cons.1 hb.values
    refine ⟨hh, hcode, Value.AllBear.cons.2 ⟨?_, hvs⟩⟩
    exact Value.bears_function (hv.offers _ rfl) (hv.bound _ _ rfl)
  | initializer hc hn hbind =>
    cases hn
    exact hb.initializer hc (hmade _ _ (.initializer hc)) hbind
  | body => exact ⟨hh.entered (Value.AllBear.cons.1 hb.values).2, hcode, .nil⟩
  | block => exact ⟨hh.inNewFrame _ .nil, hcode, .nil⟩
  | superclass => exact ⟨hh.define _ _ Value.bears_nil, hcode, .nil⟩
  | @more s rest _ _ h =>
    have he : Enters rounds (.stmts (s :: rest)) m (.stmt s) m := .first
    have hfirst : Bearing T made (.stmt s) m := ⟨hh, hb.code_of_enters he, .nil⟩
    exact ⟨((sub he hfirst).of_ok h).2.1, hcode, .nil⟩
  | nextRound h ht h' =>
    obtain ⟨-, hn, -⟩ := hevaluated .loopCondition h
    have hbody : Bearing T made (.stmt _) _ := ⟨hn, hb.code_of_enters (.loopBody h ht), .nil⟩
    exact ⟨((sub (.loopBody h ht) hbody).of_ok h').2.1, hcode, .nil⟩
  | _ => exact ⟨hh, hcode, .nil⟩

/-! ## What tasks do -/

section Cases

variable {e : Expr} {s : Stmt} {callee : Value} {arguments : List Value} {closure : Closure}

theorem upholds_expr (hb : Bearing T made (.expr e) m)
    (hmade : ∀ f o, Creates rounds (.expr e) m f o → made f o)
    (sub : ∀ {t₁ m₁}, Enters rounds (.expr e) m t₁ m₁ → t₁.Upholds T made rounds m₁) :
    (Task.expr e).Upholds T made rounds m := by
  have hh := hb.heap
  -- the value of an expression that is evaluated on the way
  have part : ∀ {e₁ m₁}, Enters rounds (.expr e) m (.expr e₁) m₁ →
      Upholds T made (evaluate rounds e₁) m₁ fun n v => v.Bears T made n :=
    fun he => (sub he).mono fun _ _ _ hv => Value.AllBear.single.1 hv
  suffices h : Upholds T made (evaluate rounds e) m fun n v => v.Bears T made n from
    h.mono fun _ _ _ hv => Value.AllBear.single.2 hv
  cases e with
  | number _ | string _ | boolean _ | nil => exact .pure hh (Value.Inert.bears trivial)
  | group inner =>
    have h := part .group
    exact h
  | unary operator operand =>
    exact .bind (part .unary) fun _ _ _ _ hh _ =>
      .ofExcept hh fun _ hv => (Value.atomic_of_unary hv).bears
  | binary left operator right =>
    refine .bind (part .binaryLeft) fun a m₁ ha _ _ _ => ?_
    exact .bind (part (.binaryRight ha)) fun _ _ _ _ hh _ =>
      .ofExcept hh fun _ hv => (Value.atomic_of_binary hv).bears
  | logical left operator right =>
    refine .bind (part .logicalLeft) fun a m₁ ha _ hh hv => ?_
    rcases eq_false_or_eq_true (decidesLogical operator a) with hd | hd
    · exact .congr (ite_of_true hd) (.pure hh hv)
    · exact .congr (ite_of_false hd) (part (.logicalRight ha hd))
  | choice condition thenCase elseCase =>
    refine .bind (part .choiceCondition) fun v m₁ hv _ _ _ => ?_
    rcases eq_false_or_eq_true v.truthy with ht | ht
    · exact .congr (ite_of_true ht) (part (.choiceThen hv ht))
    · exact .congr (ite_of_false ht) (part (.choiceElse hv ht))
  | comma items => exact (sub .comma).mono fun _ _ _ hv => Value.AllBear.single.1 hv
  | var id name => exact .readVariable hh id name
  | self id keyword => exact .readVariable hh id keyword
  | super id keyword method =>
    exact .superMethod hh id keyword method fun _ _ _ _ hs hf => hmade _ _ (.superMethod hs hf)
  | assign id name value =>
    refine .bind (part .assigned) fun v m₁ _ _ hh hv => ?_
    exact .bind (.writeVariable hh id name hv) fun _ _ _ hsize hh _ =>
      .pure hh (hv.mono hsize)
  | call callee paren arguments =>
    refine .bind (part .callee) fun f m₁ hf _ _ _ => ?_
    refine .bind (sub (.arguments hf)) fun vs m₂ hvs _ _ _ => ?_
    exact (sub (.call hf hvs)).mono fun _ _ _ hv => Value.AllBear.single.1 hv
  | get object name =>
    refine .bind (part .getObject) fun v m₁ hv _ hh hvalue => ?_
    refine .getProperty hh hvalue name fun id c method hobject hf hc => ?_
    subst hobject
    exact hmade _ _ (.property hv hf hc)
  | set object name value =>
    refine .bind (part .setObject) fun v m₁ hv _ hh _ => ?_
    cases v with
    | object id c =>
      refine .bind (part (.setValue hv)) fun w m₂ _ _ hh hw => ?_
      exact .bind (.setField hh id name.lexeme hw) fun _ _ _ hsize hh _ =>
        .pure hh (hw.mono hsize)
    | _ => exact .throw hh

theorem upholds_class {name : Token} {superclass : Option Expr} {methods : List Function}
    (hb : Bearing T made (.stmt (.classDecl name superclass methods)) m)
    (sub : ∀ {t₁ m₁}, Enters rounds (.stmt (.classDecl name superclass methods)) m t₁ m₁ →
      t₁.Upholds T made rounds m₁) :
    (Task.stmt (.classDecl name superclass methods)).Upholds T made rounds m := by
  have hcode := hb.code trivial
  have hbound := hb.heap.define m.frame name.lexeme Value.bears_nil
  cases superclass with
  | none =>
    refine .of_le (bind_of_ok rfl) (Nat.le_refl _) ?_
    refine .bind (.declareClass (m := { m with heap := m.heap.define m.frame name.lexeme .nil })
      hbound hcode ?_) fun _ _ _ _ hh _ => .pure hh .nil
    rintro _ ⟨⟩
  | some superclass =>
    refine .of_le (n := { m with heap := m.heap.define m.frame name.lexeme .nil })
      (bind_of_ok rfl) (Nat.le_refl _) ?_
    refine .bind (sub .superclass) fun v m₁ _ _ hh hv => ?_
    cases v with
    | cls id c =>
      refine .of_le (bind_of_ok rfl) (Nat.le_refl _) (.bind (.declareClass hh hcode ?_)
        fun _ _ _ _ hh _ => .pure hh .nil)
      rintro _ ⟨⟩
      exact Value.AllBear.single.1 hv
    | _ => exact .throw hh

theorem upholds_stmt (hb : Bearing T made (.stmt s) m)
    (sub : ∀ {t₁ m₁}, Enters rounds (.stmt s) m t₁ m₁ → t₁.Upholds T made rounds m₁) :
    (Task.stmt s).Upholds T made rounds m := by
  have hh := hb.heap
  cases s with
  | expression e => exact .bind (sub .expression) fun _ _ _ _ hh _ => .pure hh .nil
  | print e =>
    exact .bind (sub .print) fun _ _ _ _ hh _ =>
      .bind (.print hh _) fun _ _ _ _ hh _ => .pure hh .nil
  | varDecl name initial =>
    cases initial with
    | none =>
      exact .intro_ok rfl (Nat.le_refl _) (hh.define m.frame name.lexeme Value.bears_nil) .nil
    | some e =>
      refine .bind (sub .initial) fun v m₁ _ _ hh hv => ?_
      exact .intro_ok rfl (Nat.le_refl _)
        (hh.define m₁.frame name.lexeme (Value.AllBear.single.1 hv)) .nil
  | block body =>
    have hbody := sub .block
    have hsize : (m.inNewFrame m.frame []).heap.objects.size = m.heap.objects.size := rfl
    cases hrun : (Task.stmts body).run rounds (m.inNewFrame m.frame []) with
    | ok flow m₁ =>
      obtain ⟨hle, hh, hflow⟩ := hbody.of_ok hrun
      exact .intro_ok (execute_block_of_ok hrun) (hsize ▸ hle) hh hflow
    | error e m₁ =>
      obtain ⟨hle, hh⟩ := hbody.of_error hrun
      exact .intro_error (execute_block_of_error hrun) (hsize ▸ hle) hh
  | branch condition thenCase elseCase =>
    cases elseCase with
    | none =>
      refine .bind (sub .branchCondition) fun v m₁ hv _ hh _ => ?_
      rcases eq_false_or_eq_true v.truthy with ht | ht
      · exact .congr (ite_of_true ht) (sub (.branchThen hv ht))
      · exact .congr (ite_of_false ht) (.pure hh .nil)
    | some elseCase =>
      refine .bind (sub .branchCondition) fun v m₁ hv _ _ _ => ?_
      rcases eq_false_or_eq_true v.truthy with ht | ht
      · exact .congr (ite_of_true ht) (sub (.branchThen hv ht))
      · exact .congr (ite_of_false ht) (sub (.branchElse hv ht))
  | loop condition body =>
    have h := sub .loop
    exact h
  | function declaration =>
    have hv : ∀ id, (Value.function id ⟨declaration, m.frame, false⟩).Bears T made
        m.heap.objects.size := fun id =>
      Value.bears_function (T.function (hb.code trivial)) nofun
    exact .intro_ok rfl (Nat.le_refl _) (hh.newIdentity.define m.frame _ (hv _)) .nil
  | yield keyword value =>
    cases value with
    | none => exact .pure hh (Value.AllBear.single.2 Value.bears_nil)
    | some e => exact .bind (sub .returned) fun _ _ _ _ hh hv => .pure hh hv
  | classDecl name superclass methods => exact upholds_class hb sub

theorem upholds_construct {id : Nat} {c : Class}
    (hb : Bearing T made (.invoke (.cls id c) arguments) m)
    (sub : ∀ {t₁ m₁}, Enters rounds (.invoke (.cls id c) arguments) m t₁ m₁ →
      t₁.Upholds T made rounds m₁) :
    (Task.invoke (.cls id c) arguments).Upholds T made rounds m := by
  have hv := (Value.AllBear.cons.1 hb.values).1
  have hsize := Heap.size_objects_newObject m.heap
  have hobject : ∀ {n}, m.heap.objects.size < n → (Value.object m.heap.objects.size c).Bears
      T made n := fun hn => (hv.mono (Nat.le_of_lt hn)).toObject hn
  cases hc : c.findMethod? Class.initializerName with
  | none =>
    refine .intro_ok (construct_of_none hc) ?_ hb.heap.newObject (Value.AllBear.single.2 ?_)
    · exact Nat.le_of_lt (hsize ▸ Nat.lt_succ_self _)
    · exact hobject (hsize ▸ Nat.lt_succ_self _)
  | some method =>
    refine .of_le (construct_of_some hc rfl rfl) (Nat.le_of_lt (hsize ▸ Nat.lt_succ_self _))
      (.bind (sub (.initializer hc rfl rfl)) fun _ m₂ _ hle hh _ => .pure hh ?_)
    exact Value.AllBear.single.2 (hobject (Nat.lt_of_lt_of_le (hsize ▸ Nat.lt_succ_self _) hle))

theorem upholds_function (hd : m.depth ≤ maxCallDepth)
    (sub : ∀ {t₁ m₁}, Enters rounds (.function closure arguments) m t₁ m₁ →
      t₁.Upholds T made rounds m₁) :
    (Task.function closure arguments).Upholds T made rounds m := by
  have hbody := sub .body
  have hsize : (closure.entered arguments m).heap.objects.size = m.heap.objects.size :=
    congrArg Array.size (Heap.objects_defineAll ..)
  cases hrun : (Task.stmts closure.declaration.body).run rounds (closure.entered arguments m) with
  | error e m₁ =>
    obtain ⟨hle, hh⟩ := hbody.of_error hrun
    exact .intro_error (callFunction_of_error hd hrun) (hsize ▸ hle) hh
  | ok flow m₁ =>
    obtain ⟨hle, hh, hflow⟩ := hbody.of_ok hrun
    refine .of_le (callFunction_of_ok hd hrun) (hsize ▸ hle) ?_
    rcases eq_false_or_eq_true closure.initializer with hinit | hinit
    · refine .congr (ite_of_true hinit) (.intro_ok (n := { m₁ with frame := m.frame }) rfl
        (Nat.le_refl _) hh (Value.AllBear.single.2 ?_))
      cases hv : m₁.heap.getAt? closure.frame 0 selfName with
      | none => exact Value.bears_nil
      | some v => exact hh.getAt? hv
    · refine .congr (ite_of_false hinit) (.pure hh ?_)
      exact Value.AllBear.single.2 (Flow.value_bears hflow)

end Cases

/-- A task that has the trait makes only values that have it. -/
theorem Bearing.upholds (hd : m.depth ≤ maxCallDepth) (hmakes : Makes made rounds t m)
    (hb : Bearing T made t m) : t.Upholds T made rounds m := by
  refine Task.induction rounds (P := fun t m => Makes made rounds t m → Bearing T made t m →
    t.Upholds T made rounds m) ?_ t m hd hmakes hb
  intro t m hd ih hmakes hb
  have sub : ∀ {t₁ m₁}, Enters rounds t m t₁ m₁ → t₁.Upholds T made rounds m₁ := by
    intro t₁ m₁ he
    refine ih t₁ m₁ he (hmakes.enters he) (hb.enters hmakes.here ?_ he)
    exact fun he hb => ih _ _ he (hmakes.enters he) hb
  cases t with
  | expr e => exact upholds_expr hb hmakes.here sub
  | items last es =>
    cases es with
    | nil => exact .pure hb.heap hb.values
    | cons e es => exact .bind (sub .item) fun _ _ hv _ _ _ => sub (.moreItems hv)
  | operands es =>
    cases es with
    | nil => exact .pure hb.heap .nil
    | cons e es =>
      refine .bind (sub .operand) fun v m₁ hrun _ _ hv => ?_
      exact .bind (sub (.moreOperands hrun)) fun vs m₂ _ hsize hh hvs =>
        .pure hh (Value.AllBear.cons.2 ⟨(Value.AllBear.single.1 hv).mono hsize, hvs⟩)
  | stmt s => exact upholds_stmt hb sub
  | stmts ss =>
    cases ss with
    | nil => exact .pure hb.heap .nil
    | cons s rest =>
      refine .bind (sub .first) fun flow m₁ hs _ hh hflow => ?_
      cases flow with
      | normal => exact sub (.more hs)
      | returned v => exact .pure hh hflow
  | loop condition body left =>
    cases left with
    | zero => exact .throw hb.heap
    | succ left =>
      refine .bind (sub .loopCondition) fun v m₁ hv _ hh _ => ?_
      rcases eq_false_or_eq_true v.truthy with ht | ht
      · refine .congr (ite_of_true ht) (.bind (sub (.loopBody hv ht))
          fun flow m₂ hrun _ hh hflow => ?_)
        cases flow with
        | normal => exact sub (.nextRound hv ht hrun)
        | returned w => exact .pure hh hflow
      · exact .congr (ite_of_false ht) (.pure hh .nil)
  | call paren callee arguments =>
    rcases call_cases (runBody rounds callLevels) paren callee arguments m with
      ⟨problem, h⟩ | ⟨ha, hlt⟩
    · exact .intro_error h (Nat.le_refl _) hb.heap
    · exact .congr (call_of_checked ha hlt) (.oneDeeper (sub (.invoke ha hlt)))
  | invoke callee arguments =>
    cases callee with
    | function id closure =>
      have h := sub .function
      exact h
    | cls id c => exact upholds_construct hb sub
    | clock =>
      exact .intro_ok rfl (Nat.le_refl _) hb.heap
        (Value.AllBear.single.2 (Value.Inert.bears trivial))
    | _ => exact .pure hb.heap (Value.AllBear.single.2 Value.bears_nil)
  | function closure arguments => exact upholds_function hd sub

theorem Bearing.entered (hd : m.depth ≤ maxCallDepth) (hmakes : Makes made rounds t m)
    (hb : Bearing T made t m) (he : Enters rounds t m t' m') : Bearing T made t' m' :=
  hb.enters hmakes.here (fun he hb => hb.upholds (he.depth_le hd) (hmakes.enters he)) he

/-- Whatever a task comes to that has the trait has it too. -/
theorem Bearing.reaches {n : Nat} (hd : m.depth ≤ maxCallDepth) (hmakes : Makes made rounds t m)
    (hb : Bearing T made t m) (h : Reaches rounds t m n t' m') : Bearing T made t' m' := by
  induction h with
  | here => exact hb
  | step he _ ih => exact ih (he.depth_le hd) (hmakes.enters he) (hb.entered hd hmakes he)

end Lox
