import Lox.Proofs.Eval.Failure
import Lox.Proofs.Heap.LoopFree

/-
  Loop-free evaluation

  Only loops can go on for ever, since calls are nested at most `maxCallDepth` deep.
  Bodies come out of the heap, so it takes a loop-free machine as well as a loop-free
  tree: then an evaluation ends, in the same way however many rounds loops are allowed
  (`loopFree_ends`).

  `Ends` says so of two steps, one for each number of rounds. It is closed under
  everything that steps are built from.
-/

namespace Lox

open Eval

/-- A statement has returned nothing but a tame value. -/
def Flow.Tame (live : Live) : Flow → Prop
  | .normal => True
  | .returned v => v.Tame live

theorem Flow.Tame.value {live : Live} {flow : Flow} (h : flow.Tame live) :
    flow.value.Tame live := by
  cases flow with
  | normal => exact ⟨nofun, nofun⟩
  | returned v => exact h

namespace Eval

section

variable (live : Live) (d : Nat)

/-- A result as promised, with a tame machine of the given depth, or an error. -/
def Concluded {α : Type} (P : α → Prop) : EStateM.Result (Halt RuntimeError) Machine α → Prop
  | .ok a m => P a ∧ m.Tame live ∧ m.depth = d
  | .error e _ => e ≠ .outOfFuel

/-- From tame machines of the given depth both steps come to the same conclusion. -/
def Ends {α : Type} (P : α → Prop) (x y : Eval α) : Prop :=
  ∀ m : Machine, m.Tame live → m.depth = d → x m = y m ∧ Concluded live d P (x m)

/-- Both ways to run loop-free bodies come to the same conclusion. -/
def BodiesEnd (body body' : List Stmt → Eval Flow) : Prop :=
  ∀ ss, Stmt.AllLoopFree ss → Ends live d (Flow.Tame live) (body ss) (body' ss)

end

namespace Ends

variable {live : Live} {d : Nat} {α β : Type} {P : α → Prop} {Q : β → Prop} {x y : Eval α}

/-- A step that has nothing to do with rounds. -/
theorem same (h : ∀ m : Machine, m.Tame live → m.depth = d → Concluded live d P (x m)) :
    Ends live d P x x := fun m hm hd => ⟨rfl, h m hm hd⟩

theorem pure {a : α} (ha : P a) : Ends live d P (Pure.pure a : Eval α) (Pure.pure a) :=
  same fun _ hm hd => ⟨ha, hm, hd⟩

theorem fail (line : Nat) (problem : RuntimeProblem) :
    Ends live d P (Eval.fail line problem : Eval α) (Eval.fail line problem) :=
  same fun _ _ _ => nofun

theorem ofExcept (line : Nat) {r : Except RuntimeProblem α} (h : ∀ a, r = .ok a → P a) :
    Ends live d P (Eval.ofExcept line r) (Eval.ofExcept line r) := by
  cases r with
  | ok a => exact .pure (h a rfl)
  | error problem => exact .fail line problem

theorem bind {f g : α → Eval β} (hxy : Ends live d P x y)
    (hfg : ∀ a, P a → Ends live d Q (f a) (g a)) : Ends live d Q (x >>= f) (y >>= g) := by
  intro m hm hd
  obtain ⟨heq, hx⟩ := hxy m hm hd
  cases h : x m with
  | ok a m₁ =>
    rw [h] at heq hx
    rw [bind_of_ok h, bind_of_ok heq.symm]
    exact hfg a hx.1 m₁ hx.2.1 hx.2.2
  | error e m₁ =>
    rw [h] at heq hx
    rw [bind_of_error h, bind_of_error heq.symm]
    exact ⟨rfl, hx⟩

theorem ite {c : Prop} [Decidable c] {x' y' : Eval α} (hx : Ends live d P x y)
    (hx' : Ends live d P x' y') :
    Ends live d P (if c then x else x') (if c then y else y') := by
  split
  · exact hx
  · exact hx'

theorem inFrame {f : FrameId} (hf : live.frame f) (hxy : Ends live d P x y) :
    Ends live d P (Eval.inFrame f x) (Eval.inFrame f y) := by
  intro m hm hd
  obtain ⟨heq, hx⟩ := hxy { m with frame := f } ⟨hm.heap, hf⟩ hd
  cases h : x { m with frame := f } with
  | ok a m₁ =>
    rw [h] at heq hx
    rw [inFrame_of_ok h, inFrame_of_ok heq.symm]
    exact ⟨rfl, hx.1, ⟨hx.2.1.heap, hm.frame⟩, hx.2.2⟩
  | error e m₁ =>
    rw [h] at heq hx
    rw [inFrame_of_error h, inFrame_of_error heq.symm]
    exact ⟨rfl, hx⟩

theorem oneDeeper (hxy : Ends live (d + 1) P x y) :
    Ends live d P (Eval.oneDeeper x) (Eval.oneDeeper y) := by
  intro m hm hd
  obtain ⟨heq, hx⟩ := hxy { m with depth := m.depth + 1 } ⟨hm.heap, hm.frame⟩ (by simp [hd])
  cases h : x { m with depth := m.depth + 1 } with
  | ok a m₁ =>
    rw [h] at heq hx
    rw [oneDeeper_of_ok h, oneDeeper_of_ok heq.symm]
    exact ⟨rfl, hx.1, ⟨hx.2.1.heap, hx.2.1.frame⟩, by simp [hx.2.2]⟩
  | error e m₁ =>
    rw [h] at heq hx
    rw [oneDeeper_of_error h, oneDeeper_of_error heq.symm]
    exact ⟨rfl, hx⟩

/-! ### Elementary steps -/

/-- A step to another heap. -/
theorem toHeap {heap : Machine → Heap} {result : Machine → α}
    (hx : ∀ m, x m = .ok (result m) { m with heap := heap m })
    (hheap : ∀ m, m.Tame live → (heap m).Tame live) (hresult : ∀ m, m.Tame live → P (result m)) :
    Ends live d P x x :=
  same fun m hm hd => by
    rw [hx]
    exact ⟨hresult m hm, ⟨hheap m hm, hm.frame⟩, hd⟩

theorem newFrame {e : FrameId} (he : live.frame e) :
    Ends live d live.frame (Eval.newFrame e) (Eval.newFrame e) :=
  toHeap (fun _ => rfl) (fun _ hm => hm.heap.newFrame he)
    fun _ hm => hm.heap.frames _ (Nat.le_refl _)

theorem currentFrame : Ends live d live.frame Eval.currentFrame Eval.currentFrame :=
  same fun _ hm hd => ⟨hm.frame, hm, hd⟩

theorem defineIn (f : FrameId) (name : String) {v : Value} (hv : v.Tame live) :
    Ends live d (fun _ => True) (Eval.defineIn f name v) (Eval.defineIn f name v) :=
  toHeap (fun _ => rfl) (fun _ hm => hm.heap.define f name hv) fun _ _ => trivial

theorem define (name : String) {v : Value} (hv : v.Tame live) :
    Ends live d (fun _ => True) (Eval.define name v) (Eval.define name v) :=
  toHeap (fun _ => rfl) (fun m hm => hm.heap.define m.frame name hv) fun _ _ => trivial

theorem assignIn (f? : Option FrameId) (name : Token) {v : Value} (hv : v.Tame live) :
    Ends live d (fun _ => True) (Eval.assignIn f? name v) (Eval.assignIn f? name v) := by
  cases f? with
  | none => exact .fail _ _
  | some f => exact .defineIn _ _ hv

theorem assign (name : Token) {v : Value} (hv : v.Tame live) :
    Ends live d (fun _ => True) (Eval.assign name v) (Eval.assign name v) :=
  fun m => assignIn _ name hv m

theorem readVariable (id : Nat) (name : Token) :
    Ends live d (Value.Tame live) (Eval.readVariable id name) (Eval.readVariable id name) := by
  refine same fun m hm hd => ?_
  cases h : m.lookup? id name.lexeme with
  | some v =>
    rw [readVariable_of_some h]
    exact ⟨hm.lookup? h, hm, hd⟩
  | none =>
    rw [readVariable_of_none h]
    nofun

theorem writeVariable (id : Nat) (name : Token) {v : Value} (hv : v.Tame live) :
    Ends live d (fun _ => True) (Eval.writeVariable id name v) (Eval.writeVariable id name v) :=
  fun m => assignIn _ name hv m

theorem newFunction {closure : Closure} (h : closure.declaration.LoopFree)
    (hf : live.frame closure.frame) :
    Ends live d (Value.Tame live) (Eval.newFunction closure) (Eval.newFunction closure) :=
  toHeap (fun _ => rfl) (fun _ hm => hm.heap.newIdentity) fun _ _ => .function h hf

theorem newClass {c : Class} (h : ∀ id, (Value.cls id c).Tame live) :
    Ends live d (Value.Tame live) (Eval.newClass c) (Eval.newClass c) :=
  toHeap (fun _ => rfl) (fun _ hm => hm.heap.newIdentity) fun _ _ => h _

theorem newObject : Ends live d live.object Eval.newObject Eval.newObject :=
  toHeap (fun _ => rfl) (fun _ hm => hm.heap.newObject)
    fun _ hm => hm.heap.objects _ (Nat.le_refl _)

theorem setField (object : Nat) (name : String) {v : Value} (hv : v.Tame live) :
    Ends live d (fun _ => True) (Eval.setField object name v) (Eval.setField object name v) :=
  toHeap (fun _ => rfl) (fun _ hm => hm.heap.setField object name hv) fun _ _ => trivial

theorem readClock : Ends live d (Value.Tame live) Eval.readClock Eval.readClock :=
  same fun _ hm hd => ⟨⟨nofun, nofun⟩, ⟨hm.heap, hm.frame⟩, hd⟩

theorem print (text : String) :
    Ends live d (fun _ => True) (Eval.print text) (Eval.print text) := by
  refine same fun m hm hd => ?_
  cases hw : (m.sink.write text).1 with
  | true =>
    rw [print_of_true hw]
    exact ⟨trivial, ⟨hm.heap, hm.frame⟩, hd⟩
  | false =>
    rw [print_of_false hw]
    nofun

theorem flush : Ends live d (fun _ => True) Eval.flush Eval.flush := by
  refine same fun m hm hd => ?_
  rw [Eval.flush]
  cases m.sink.flushFails with
  | true =>
    intro hfuel
    cases hfuel
  | false => exact ⟨trivial, ⟨hm.heap, hm.frame⟩, hd⟩

/-! ### Methods, properties and classes -/

section

variable {method : Closure} {object : Nat} {c : Class}

theorem boundClosure (h : method.declaration.LoopFree ∧ live.frame method.frame)
    (ho : (Value.object object c).Tame live) :
    Ends live d (fun k => k.declaration.LoopFree ∧ live.frame k.frame)
      (Eval.bind method object c) (Eval.bind method object c) :=
  .bind (.newFrame h.2) fun _ hf => .bind (.defineIn _ _ ho) fun _ _ => .pure ⟨h.1, hf⟩

theorem boundMethod (h : method.declaration.LoopFree ∧ live.frame method.frame)
    (ho : (Value.object object c).Tame live) :
    Ends live d (Value.Tame live) (Eval.boundMethod method object c)
      (Eval.boundMethod method object c) :=
  .bind (.boundClosure h ho) fun _ hk => .newFunction hk.1 hk.2

end

theorem getProperty {v : Value} (hv : v.Tame live) (name : Token) :
    Ends live d (Value.Tame live) (Eval.getProperty v name) (Eval.getProperty v name) := by
  refine same fun m hm hd => ?_
  cases v with
  | object id c =>
    cases hf : (m.heap.fields id).find? name.lexeme with
    | some w =>
      rw [getProperty_of_field hf]
      exact ⟨hm.heap.fields id _ w (hv.object id c rfl) hf, hm, hd⟩
    | none =>
      cases hc : c.findMethod? name.lexeme with
      | some method =>
        rw [getProperty_of_method hf hc]
        exact (boundMethod (hv.offers method ⟨_, hc⟩) hv m hm hd).2
      | none =>
        rw [getProperty_of_none hf hc]
        nofun
  | _ => nofun

theorem superMethod (id : Nat) (keyword method : Token) :
    Ends live d (Value.Tame live) (Eval.superMethod id keyword method)
      (Eval.superMethod id keyword method) := by
  refine same fun m hm hd => ?_
  cases hs : m.super? id with
  | none =>
    rw [superMethod_of_none hs]
    nofun
  | some found =>
    obtain ⟨superclass, object, c⟩ := found
    obtain ⟨distance, i, -, hsuper, hself⟩ := Machine.super?_eq_some hs
    have hsuperclass := hm.heap.getAt? hm.frame hsuper
    have hobject := hm.heap.getAt? hm.frame hself
    cases hc : superclass.findMethod? method.lexeme with
    | some found =>
      rw [superMethod_of_method hs hc]
      exact (boundMethod (hsuperclass.method hc) hobject m hm hd).2
    | none =>
      rw [superMethod_of_no_method hs hc]
      nofun

theorem asSuperclass (line : Nat) {v : Value} (hv : v.Tame live) :
    Ends live d (fun found => (Value.cls found.1 found.2).Tame live) (Eval.asSuperclass line v)
      (Eval.asSuperclass line v) := by
  cases v with
  | cls id c => exact .pure hv
  | _ => exact .fail _ _

theorem declareClass (name : Token) {methods : List Function}
    (hmethods : Function.AllLoopFree methods) {superclass : Option (Nat × Class)}
    (hsuper : ∀ found ∈ superclass, (Value.cls found.1 found.2).Tame live) :
    Ends live d (fun _ => True) (Eval.declareClass name methods superclass)
      (Eval.declareClass name methods superclass) := by
  cases superclass with
  | none =>
    exact .bind .currentFrame fun _ hf =>
      .bind (.newClass fun _ => .ofDeclaration hmethods hf nofun) fun _ hc => .assign name hc
  | some found =>
    refine .bind .currentFrame fun _ hf => .bind (.newFrame hf) fun _ hg =>
      .bind (.defineIn _ _ (hsuper found rfl)) fun _ _ =>
        .bind (.newClass fun _ => .ofDeclaration hmethods hg ?_) fun _ hc => .assign name hc
    rintro _ ⟨⟩
    exact ⟨_, hsuper found rfl⟩

theorem boundObject {closure : Closure} (hf : live.frame closure.frame) :
    Ends live d (Value.Tame live) (Eval.boundObject closure) (Eval.boundObject closure) := by
  refine same fun m hm hd => ⟨?_, hm, hd⟩
  cases hv : m.heap.getAt? closure.frame 0 selfName with
  | none => exact ⟨nofun, nofun⟩
  | some v => exact hm.heap.getAt? hf hv

/-! ### Calls -/

section Bodies

variable {body body' : List Stmt → Eval Flow}

theorem defineParameters (f : FrameId) (parameters : List Token) {arguments : List Value}
    (ha : ∀ v ∈ arguments, v.Tame live) :
    Ends live d (fun _ => True) (Eval.defineParameters f parameters arguments)
      (Eval.defineParameters f parameters arguments) := by
  refine toHeap (fun _ => rfl) (fun _ hm => hm.heap.defineAll f fun v hv => ?_) fun _ _ => trivial
  obtain ⟨⟨n, w⟩, hmem, rfl⟩ := List.mem_map.1 hv
  exact ha w (List.of_mem_zip hmem).2

theorem callFunction (hb : BodiesEnd live d body body')
    {closure : Closure} (h : closure.declaration.LoopFree ∧ live.frame closure.frame)
    {arguments : List Value} (ha : ∀ v ∈ arguments, v.Tame live) :
    Ends live d (Value.Tame live) (Eval.callFunction body closure arguments)
      (Eval.callFunction body' closure arguments) :=
  .bind (.newFrame h.2) fun f hf => .bind (.defineParameters f _ ha) fun _ _ =>
    .bind (.inFrame hf (hb _ h.1.body)) fun _ hflow => .ite (.boundObject h.2) (.pure hflow.value)

theorem construct (hb : BodiesEnd live d body body')
    {id : Nat} {c : Class} (hc : (Value.cls id c).Tame live) {arguments : List Value}
    (ha : ∀ v ∈ arguments, v.Tame live) :
    Ends live d (Value.Tame live) (Eval.construct body c arguments)
      (Eval.construct body' c arguments) := by
  refine .bind .newObject fun object ho => ?_
  split
  · rename_i method hm
    exact .bind (.boundClosure (hc.method hm) (hc.toObject ho)) fun _ hk =>
      .bind (callFunction hb hk ha) fun _ _ => .pure (hc.toObject ho)
  · exact .pure (hc.toObject ho)

theorem invoke (hb : BodiesEnd live d body body')
    {callee : Value} (hc : callee.Tame live) {arguments : List Value}
    (ha : ∀ v ∈ arguments, v.Tame live) :
    Ends live d (Value.Tame live) (Eval.invoke body callee arguments)
      (Eval.invoke body' callee arguments) := by
  cases callee with
  | function _ closure => exact callFunction hb (hc.offers closure rfl) ha
  | cls _ c => exact construct hb hc ha
  | clock => exact .readClock
  | _ => exact .pure ⟨nofun, nofun⟩

/-- A call fails in its checks, or there is room for one more. -/
theorem call (hb : d < maxCallDepth → BodiesEnd live (d + 1) body body')
    (paren : Token) {callee : Value} (hc : callee.Tame live) {arguments : List Value}
    (ha : ∀ v ∈ arguments, v.Tame live) :
    Ends live d (Value.Tame live) (Eval.call body paren callee arguments)
      (Eval.call body' paren callee arguments) := by
  intro m hm hd
  cases harity : callee.arity? with
  | none =>
    rw [call_of_not_callable harity, call_of_not_callable harity]
    exact ⟨rfl, nofun⟩
  | some arity =>
    by_cases hl : arguments.length = arity
    · subst hl
      rcases Nat.lt_or_ge m.depth maxCallDepth with hlt | hge
      · rw [call_of_checked harity hlt, call_of_checked harity hlt]
        exact oneDeeper (invoke (hb (hd ▸ hlt)) hc ha) m hm hd
      · rw [call_of_too_deep harity hge, call_of_too_deep harity hge]
        exact ⟨rfl, nofun⟩
    · rw [call_of_arity_ne harity hl, call_of_arity_ne harity hl]
      exact ⟨rfl, nofun⟩

end Bodies

end Ends
end Eval

/-! ## Trees -/

section Trees

variable {live : Live} {d : Nat} {body body' : List Stmt → Eval Flow}

mutual

theorem Expr.ends_eval (hb : d < maxCallDepth → BodiesEnd live (d + 1) body body') :
    (e : Expr) → Ends live d (Value.Tame live) (e.eval body) (e.eval body')
  | .number _ | .string _ | .boolean _ | .nil => .pure ⟨nofun, nofun⟩
  | .group inner => Expr.ends_eval hb inner
  | .unary _ operand => .bind (Expr.ends_eval hb operand) fun _ _ =>
    .ofExcept _ fun _ h => (Value.atomic_of_unary h).tame
  | .binary left _ right => .bind (Expr.ends_eval hb left) fun _ _ =>
    .bind (Expr.ends_eval hb right) fun _ _ =>
      .ofExcept _ fun _ h => (Value.atomic_of_binary h).tame
  | .logical left _ right => .bind (Expr.ends_eval hb left) fun _ hv =>
    .ite (.pure hv) (Expr.ends_eval hb right)
  | .choice condition thenCase elseCase => .bind (Expr.ends_eval hb condition) fun _ _ =>
    .ite (Expr.ends_eval hb thenCase) (Expr.ends_eval hb elseCase)
  | .comma items => Expr.ends_evalLast hb items .nil ⟨nofun, nofun⟩
  | .var id name => .readVariable id name
  | .assign id name value => .bind (Expr.ends_eval hb value) fun _ hv =>
    .bind (.writeVariable id name hv) fun _ _ => .pure hv
  | .call callee paren arguments => .bind (Expr.ends_eval hb callee) fun _ hc =>
    .bind (Expr.ends_evalAll hb arguments) fun _ ha => .call hb paren hc ha
  | .get object name => .bind (Expr.ends_eval hb object) fun _ ho => .getProperty ho name
  | .set object _ value => by
    refine .bind (Expr.ends_eval hb object) fun o _ => ?_
    cases o with
    | object id c =>
      exact .bind (Expr.ends_eval hb value) fun _ hv =>
        .bind (.setField _ _ hv) fun _ _ => .pure hv
    | _ => exact .fail _ _
  | .self id keyword => .readVariable id keyword
  | .super id keyword method => .superMethod id keyword method

theorem Expr.ends_evalLast (hb : d < maxCallDepth → BodiesEnd live (d + 1) body body') :
    (es : List Expr) → (last : Value) → last.Tame live →
      Ends live d (Value.Tame live) (Expr.evalLast body last es) (Expr.evalLast body' last es)
  | [], _, hv => .pure hv
  | e :: es, _, _ => .bind (Expr.ends_eval hb e) fun v hv => Expr.ends_evalLast hb es v hv

theorem Expr.ends_evalAll (hb : d < maxCallDepth → BodiesEnd live (d + 1) body body') :
    (es : List Expr) → Ends live d (fun vs => ∀ v ∈ vs, v.Tame live) (Expr.evalAll body es)
      (Expr.evalAll body' es)
  | [] => .pure nofun
  | e :: es => .bind (Expr.ends_eval hb e) fun _ hv =>
    .bind (Expr.ends_evalAll hb es) fun _ hvs => .pure (List.forall_mem_cons.2 ⟨hv, hvs⟩)

end

variable {rounds rounds' : Nat}

mutual

theorem Stmt.ends_exec (hb : d < maxCallDepth → BodiesEnd live (d + 1) body body') :
    (s : Stmt) → s.LoopFree → Ends live d (Flow.Tame live) (s.exec body rounds)
      (s.exec body' rounds')
  | .expression e, _ => .bind (e.ends_eval hb) fun _ _ => .pure trivial
  | .print e, _ => .bind (e.ends_eval hb) fun _ _ => .bind (.print _) fun _ _ => .pure trivial
  | .varDecl name none, _ =>
    .bind (.define _ ⟨nofun, nofun⟩) fun _ _ => .pure trivial
  | .varDecl name (some initial), _ => .bind (initial.ends_eval hb) fun _ hv =>
    .bind (.define _ hv) fun _ _ => .pure trivial
  | .block statements, h => .bind .currentFrame fun _ hf => .bind (.newFrame hf) fun _ hg =>
    .inFrame hg (Stmt.ends_execAll hb statements h)
  | .branch condition thenCase none, h => .bind (condition.ends_eval hb) fun _ _ =>
    .ite (Stmt.ends_exec hb thenCase h) (.pure trivial)
  | .branch condition thenCase (some elseCase), h => .bind (condition.ends_eval hb) fun _ _ =>
    .ite (Stmt.ends_exec hb thenCase h.1) (Stmt.ends_exec hb elseCase h.2)
  | .loop _ _, h => h.elim
  | .function _, h => .bind .currentFrame fun _ hf => .bind (.newFunction h hf) fun _ hv =>
    .bind (.define _ hv) fun _ _ => .pure trivial
  | .yield _ none, _ => .pure ⟨nofun, nofun⟩
  | .yield _ (some value), _ => .bind (value.ends_eval hb) fun _ hv => .pure hv
  | .classDecl name none methods, h => .bind (.define _ ⟨nofun, nofun⟩) fun _ _ =>
    .bind (.declareClass name h nofun) fun _ _ => .pure trivial
  | .classDecl name (some superclass) methods, h =>
    .bind (.define _ ⟨nofun, nofun⟩) fun _ _ => .bind (superclass.ends_eval hb) fun _ hv =>
      .bind (.asSuperclass _ hv) fun _ hc =>
        .bind (.declareClass name h (by rintro _ ⟨⟩; exact hc)) fun _ _ => .pure trivial

theorem Stmt.ends_execAll (hb : d < maxCallDepth → BodiesEnd live (d + 1) body body') :
    (ss : List Stmt) → Stmt.AllLoopFree ss →
      Ends live d (Flow.Tame live) (Stmt.execAll body rounds ss) (Stmt.execAll body' rounds' ss)
  | [], _ => .pure trivial
  | s :: rest, h => by
    refine .bind (Stmt.ends_exec hb s h.1) fun flow hflow => ?_
    cases flow with
    | normal => exact Stmt.ends_execAll hb rest h.2
    | returned v => exact .pure hflow

end

end Trees

/-- The bodies of calls end, since there are levels for all calls that may still be nested. -/
theorem bodiesEnd_runBody (live : Live) (rounds rounds' : Nat) {levels d : Nat}
    (hlevels : maxCallDepth < levels + d) (hd : d ≤ maxCallDepth) :
    BodiesEnd live d (runBody rounds levels) (runBody rounds' levels) := by
  induction levels generalizing d with
  | zero => omega
  | succ levels ih =>
    intro ss h
    exact Stmt.ends_execAll (fun hlt => ih (by omega) hlt) ss h

/-- The bodies of the calls that a whole evaluation enters. -/
theorem bodiesEnd_callLevels (live : Live) (rounds rounds' : Nat) {d : Nat}
    (hlt : d < maxCallDepth) :
    BodiesEnd live (d + 1) (runBody rounds callLevels) (runBody rounds' callLevels) := by
  have hlevels : callLevels = maxCallDepth + 1 := rfl
  exact bodiesEnd_runBody live rounds rounds' (by omega) hlt

/-- `Settled run m r`: begun with the machine, the step comes to this end, which is a
result or an error, however many rounds loops are allowed. -/
def Settled {α : Type} (run : Nat → Eval α) (m : Machine)
    (r : EStateM.Result (Halt RuntimeError) Machine α) : Prop :=
  (∀ rounds, run rounds m = r) ∧ ∀ m', r ≠ .error .outOfFuel m'

/-- Steps that come to the same conclusion with any two numbers of rounds are settled. -/
theorem exists_settled {α : Type} {live : Live} {P : α → Prop} {run : Nat → Eval α} {m : Machine}
    (hm : m.Tame live)
    (h : ∀ rounds rounds', Ends live m.depth P (run rounds) (run rounds')) :
    ∃ r, Settled run m r := by
  refine ⟨run 0 m, fun rounds => (h rounds 0 m hm rfl).1, fun m' he => ?_⟩
  have hconcluded := (h 0 0 m hm rfl).2
  rw [he] at hconcluded
  exact hconcluded rfl

/-- On a loop-free machine every expression, every loop-free statement and every loop-free
program comes to an end. On the way calls are nested at most `maxCallDepth` deep, and one
that would be nested more deeply fails, and with it all that it is a part of. -/
theorem loopFree_ends {m : Machine} (hm : m.LoopFree) (hd : m.depth ≤ maxCallDepth) :
    (∀ e, ∃ r, Settled (evaluate · e) m r) ∧
    (∀ s : Stmt, s.LoopFree → ∃ r, Settled (execute · s) m r) ∧
    (∀ program, Stmt.AllLoopFree program → ∃ r, Settled (interpret · program) m r) ∧
    ∀ rounds t n t' m', Reaches rounds t m n t' m' →
      m'.depth = m.depth + n ∧ m'.depth ≤ maxCallDepth ∧
      ∀ paren callee arguments, t' = .call paren callee arguments →
        callee.arity? = some arguments.length → m'.depth = maxCallDepth →
        Fails rounds t m (.program paren.line .stackOverflow) := by
  -- `live` is what the machine holds, or has not made yet
  obtain ⟨live, htame⟩ := hm.tame
  refine ⟨fun e => ?_, fun s hs => ?_, fun program hprogram => ?_, fun rounds t n t' m' h => ?_⟩
  · exact exists_settled htame fun rounds rounds' =>
      e.ends_eval (bodiesEnd_callLevels live rounds rounds')
  · exact exists_settled htame fun rounds rounds' =>
      s.ends_exec (bodiesEnd_callLevels live rounds rounds') hs
  · exact exists_settled htame fun rounds rounds' =>
      .bind (Stmt.ends_execAll (bodiesEnd_callLevels live rounds rounds') program hprogram)
        fun _ _ => .flush
  · refine ⟨h.depth_eq, h.depth_le hd, ?_⟩
    rintro paren callee arguments rfl harity hdepth
    exact .of_reaches h hd (Raises.overflow harity hdepth.ge).fails

/-- A function that does nothing but call itself. -/
theorem loopFree_ends_recursion :
    let name : Token := ⟨.identifier, "f", 1⟩
    let call := Expr.call (.var 0 name) ⟨.rightParen, ")", 1⟩ []
    let declaration : Function := .mk name [] [.expression call]
    let m := (execute 0 (.function declaration)).after (.start .unlimited (.ticking 0))
    m.LoopFree ∧ m.depth ≤ maxCallDepth ∧ ∃ r, Settled (evaluate · call) m r := by
  intro name call declaration m
  let v := Value.function 0 ⟨declaration, 0, false⟩
  have hheap : m.heap = ⟨#[⟨[("clock", .clock), ("f", v)], none⟩], #[], 1⟩ := rfl
  have hfields : ∀ object, m.heap.fields object = [] := fun object => by
    rw [hheap, Heap.fields]
    rfl
  -- the machine holds its only frame, and the two values that this frame binds
  have hholds : ∀ thing, m.Holds thing →
      thing = .frame 0 ∨ thing = .value .clock ∨ thing = .value v := by
    intro thing h
    induction h with
    | globals | current => exact .inl rfl
    | outward _ he ih =>
      obtain ih | ih | ih := ih <;> cases ih
      rw [hheap] at he
      cases he
    | bound _ hw ih =>
      obtain ih | ih | ih := ih <;> cases ih
      rw [hheap] at hw
      simp only [Heap.bindings, List.getElem?_toArray, List.getElem?_cons_zero,
        Bindings.find?_cons, Bindings.find?_nil] at hw
      split at hw
      · exact .inr (.inl (congrArg _ (Option.some.inj hw).symm))
      · split at hw
        · exact .inr (.inr (congrArg _ (Option.some.inj hw).symm))
        · cases hw
    | field _ hw =>
      rw [hfields] at hw
      cases hw
    | closure _ hk ih =>
      obtain ih | ih | ih := ih <;> cases ih
      · exact hk.elim
      · obtain rfl := hk
        exact .inl rfl
  have hfree : m.LoopFree := by
    intro w k hw hk
    obtain h | h | h := hholds _ hw <;> cases h
    · exact hk.elim
    · obtain rfl := hk
      exact ⟨trivial, trivial⟩
  have hd : m.depth ≤ maxCallDepth := Nat.zero_le _
  exact ⟨hfree, hd, (loopFree_ends hfree hd).1 call⟩

end Lox
