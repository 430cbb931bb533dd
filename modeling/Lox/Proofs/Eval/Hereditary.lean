import Lox.Proofs.Eval.Run

/-
  Hereditary properties — what goes from steps to all that is built of them

  Evaluations are built from few kinds of steps: results, halts, changes of the heap,
  and printing, in sequence, in other frames and one level deeper. Where a step
  chooses, it looks at the machine and never at the sink. A property that respects all
  this holds of every evaluation (`Hereditary.execAll`, `Hereditary.runBody`).
-/

namespace Lox
namespace Eval

/-- A property of steps that goes from steps to what is built of them. -/
structure Hereditary (P : {α : Type} → Eval α → Prop) : Prop where
  pure : ∀ {α : Type} (a : α), P (Pure.pure a : Eval α)
  throw : ∀ {α : Type} (e : Halt RuntimeError), P (MonadExcept.throw e : Eval α)
  bind : ∀ {α β : Type} {x : Eval α} {f : α → Eval β}, P x → (∀ a, P (f a)) → P (x >>= f)
  inFrame : ∀ {α : Type} (f : FrameId) {x : Eval α}, P x → P (Eval.inFrame f x)
  oneDeeper : ∀ {α : Type} {x : Eval α}, P x → P (Eval.oneDeeper x)
  /-- A step with a given result, which puts a heap in place of the other. -/
  put : ∀ {α : Type} (a : α) (heap : Heap) (readings : Nat),
    P (fun m => .ok a { m with heap, readings } : Eval α)
  /-- A step that on each machine is one of those that have the property, whatever the
  sink is. -/
  choose : ∀ {α : Type} {x : Eval α},
    (∀ m : Machine, ∃ y : Eval α, P y ∧ ∀ sink, x { m with sink } = y { m with sink }) → P x
  print : ∀ text, P (Eval.print text)

namespace Hereditary

variable {P : {α : Type} → Eval α → Prop} (hP : Hereditary P) {α β : Type}

include hP

theorem fail (line : Nat) (problem : RuntimeProblem) : P (Eval.fail line problem : Eval α) :=
  hP.throw _

theorem ofExcept (line : Nat) (r : Except RuntimeProblem α) : P (Eval.ofExcept line r) := by
  cases r with
  | ok a => exact hP.pure a
  | error problem => exact hP.fail line problem

omit hP in
theorem ite {c : Prop} [Decidable c] {x y : Eval α} (hx : P x) (hy : P y) :
    P (if c then x else y) := by
  split
  · exact hx
  · exact hy

/-! ### Elementary steps -/

/-- A step that only looks at the heap and the clock, and changes them. -/
theorem step {x : Eval α} (h : ∀ m : Machine, ∃ a heap readings, ∀ sink,
    x { m with sink } = .ok a { m with sink, heap, readings }) : P x := by
  refine hP.choose fun m => ?_
  obtain ⟨a, heap, readings, hx⟩ := h m
  exact ⟨_, hP.put a heap readings, hx⟩

theorem newFrame (enclosing : FrameId) : P (Eval.newFrame enclosing) :=
  hP.step fun m => ⟨m.heap.frames.size, (m.heap.newFrame (some enclosing)).2, m.readings, fun _ => rfl⟩

theorem currentFrame : P Eval.currentFrame :=
  hP.step fun m => ⟨m.frame, m.heap, m.readings, fun _ => rfl⟩

theorem defineIn (f : FrameId) (name : String) (v : Value) : P (Eval.defineIn f name v) :=
  hP.step fun m => ⟨(), m.heap.define f name v, m.readings, fun _ => rfl⟩

theorem define (name : String) (v : Value) : P (Eval.define name v) :=
  hP.step fun m => ⟨(), m.heap.define m.frame name v, m.readings, fun _ => rfl⟩

theorem assignIn (f? : Option FrameId) (name : Token) (v : Value) : P (Eval.assignIn f? name v) := by
  cases f? with
  | none => exact hP.fail _ _
  | some f => exact hP.defineIn _ _ _

theorem assign (name : Token) (v : Value) : P (Eval.assign name v) :=
  hP.choose fun m => ⟨_, hP.assignIn (m.heap.holder? m.frame name.lexeme) name v, fun _ => rfl⟩

theorem readVariable (id : Nat) (name : Token) : P (Eval.readVariable id name) := by
  refine hP.choose fun m => ?_
  cases h : m.lookup? id name.lexeme with
  | some v => exact ⟨_, hP.pure v, fun _ => readVariable_of_some h⟩
  | none => exact ⟨_, hP.fail _ _, fun _ => readVariable_of_none h⟩

theorem writeVariable (id : Nat) (name : Token) (v : Value) : P (Eval.writeVariable id name v) :=
  hP.choose fun m => ⟨_, hP.assignIn (m.holder? id name.lexeme) name v, fun _ => rfl⟩

theorem newFunction (closure : Closure) : P (Eval.newFunction closure) :=
  hP.step fun m =>
    ⟨.function m.heap.nextIdentity closure, m.heap.newIdentity.2, m.readings, fun _ => rfl⟩

theorem newClass (c : Class) : P (Eval.newClass c) :=
  hP.step fun m => ⟨.cls m.heap.nextIdentity c, m.heap.newIdentity.2, m.readings, fun _ => rfl⟩

theorem newObject : P Eval.newObject :=
  hP.step fun m => ⟨m.heap.objects.size, m.heap.newObject.2, m.readings, fun _ => rfl⟩

theorem setField (object : Nat) (name : String) (v : Value) : P (Eval.setField object name v) :=
  hP.step fun m => ⟨(), m.heap.setField object name v, m.readings, fun _ => rfl⟩

theorem readClock : P Eval.readClock :=
  hP.step fun m => ⟨.number (m.clock m.readings), m.heap, m.readings + 1, fun _ => rfl⟩

theorem defineParameters (f : FrameId) (parameters : List Token) (arguments : List Value) :
    P (Eval.defineParameters f parameters arguments) :=
  hP.step fun m => ⟨(), m.heap.defineAll f ((parameters.map Token.lexeme).zip arguments),
    m.readings, fun _ => rfl⟩

theorem boundObject (closure : Closure) : P (Eval.boundObject closure) :=
  hP.step fun m => ⟨(m.heap.getAt? closure.frame 0 selfName).getD .nil, m.heap, m.readings,
    fun _ => rfl⟩

/-! ### Methods, properties and classes -/

theorem boundClosure (method : Closure) (object : Nat) (c : Class) :
    P (Eval.bind method object c) :=
  hP.bind (hP.newFrame _) fun _ => hP.bind (hP.defineIn _ _ _) fun _ => hP.pure _

theorem boundMethod (method : Closure) (object : Nat) (c : Class) :
    P (Eval.boundMethod method object c) :=
  hP.bind (hP.boundClosure _ _ _) fun _ => hP.newFunction _

theorem getProperty (object : Value) (name : Token) : P (Eval.getProperty object name) := by
  refine hP.choose fun m => ?_
  cases object with
  | object id c =>
    cases hf : (m.heap.fields id).find? name.lexeme with
    | some v => exact ⟨_, hP.pure v, fun _ => getProperty_of_field hf⟩
    | none =>
      cases hc : c.findMethod? name.lexeme with
      | some method =>
        exact ⟨_, hP.boundMethod method id c, fun _ => getProperty_of_method hf hc⟩
      | none => exact ⟨_, hP.fail _ _, fun _ => getProperty_of_none hf hc⟩
  | _ => exact ⟨_, hP.fail name.line .noProperties, fun _ => rfl⟩

theorem superMethod (id : Nat) (keyword method : Token) :
    P (Eval.superMethod id keyword method) := by
  refine hP.choose fun m => ?_
  cases h : m.super? id with
  | none => exact ⟨_, hP.fail _ _, fun _ => superMethod_of_none h⟩
  | some found =>
    obtain ⟨superclass, object, c⟩ := found
    cases hc : superclass.findMethod? method.lexeme with
    | some found =>
      exact ⟨_, hP.boundMethod found object c, fun _ => superMethod_of_method h hc⟩
    | none => exact ⟨_, hP.fail _ _, fun _ => superMethod_of_no_method h hc⟩

theorem declareClass (name : Token) (methods : List Function) (c : Option (Nat × Class)) :
    P (Eval.declareClass name methods c) := by
  cases c with
  | none => exact hP.bind hP.currentFrame fun _ => hP.bind (hP.newClass _) fun _ => hP.assign _ _
  | some c =>
    exact hP.bind hP.currentFrame fun _ => hP.bind (hP.newFrame _) fun _ =>
      hP.bind (hP.defineIn _ _ _) fun _ => hP.bind (hP.newClass _) fun _ => hP.assign _ _

theorem asSuperclass (line : Nat) (v : Value) : P (Eval.asSuperclass line v) := by
  cases v with
  | cls id c => exact hP.pure _
  | _ => exact hP.fail _ _

/-! ### Calls -/

section Bodies

variable {body : List Stmt → Eval Flow} (hb : ∀ ss, P (body ss))
include hb

theorem callFunction (closure : Closure) (arguments : List Value) :
    P (Eval.callFunction body closure arguments) :=
  hP.bind (hP.newFrame _) fun _ => hP.bind (hP.defineParameters _ _ _) fun _ =>
    hP.bind (hP.inFrame _ (hb _)) fun _ => ite (hP.boundObject _) (hP.pure _)

theorem construct (c : Class) (arguments : List Value) : P (Eval.construct body c arguments) := by
  refine hP.bind hP.newObject fun _ => ?_
  split
  · exact hP.bind (hP.boundClosure _ _ _) fun _ => hP.bind (hP.callFunction hb _ _) fun _ =>
      hP.pure _
  · exact hP.pure _

theorem invoke (callee : Value) (arguments : List Value) :
    P (Eval.invoke body callee arguments) := by
  cases callee with
  | function _ closure => exact hP.callFunction hb closure arguments
  | cls _ c => exact hP.construct hb c arguments
  | clock => exact hP.readClock
  | _ => exact hP.pure _

theorem call (paren : Token) (callee : Value) (arguments : List Value) :
    P (Eval.call body paren callee arguments) := by
  refine hP.choose fun m => ?_
  cases ha : callee.arity? with
  | none => exact ⟨_, hP.fail _ _, fun _ => call_of_not_callable ha⟩
  | some arity =>
    by_cases hn : arguments.length = arity
    · subst hn
      by_cases hd : m.depth < maxCallDepth
      · exact ⟨_, hP.oneDeeper (hP.invoke hb callee arguments), fun _ => call_of_checked ha hd⟩
      · exact ⟨_, hP.fail _ _, fun _ => call_of_too_deep ha (Nat.le_of_not_lt hd)⟩
    · exact ⟨_, hP.fail _ _, fun _ => call_of_arity_ne ha hn⟩

end Bodies

theorem «repeat» {condition : Eval Value} {body : Eval Flow} (hc : P condition) (hb : P body)
    (rounds : Nat) : P (Eval.repeat condition body rounds) := by
  induction rounds with
  | zero => exact hP.throw _
  | succ rounds ih =>
    refine hP.bind hc fun _ => ite (hP.bind hb fun flow => ?_) (hP.pure _)
    cases flow with
    | normal => exact ih
    | returned v => exact hP.pure _

/-! ### Trees -/

section Trees

variable {body : List Stmt → Eval Flow}

mutual

theorem eval (hb : ∀ ss, P (body ss)) : (e : Expr) → P (e.eval body)
  | .number _ | .string _ | .boolean _ | .nil => hP.pure _
  | .group inner => eval hb inner
  | .unary _ operand => hP.bind (eval hb operand) fun _ => hP.ofExcept _ _
  | .binary left _ right =>
    hP.bind (eval hb left) fun _ => hP.bind (eval hb right) fun _ => hP.ofExcept _ _
  | .logical left _ right =>
    hP.bind (eval hb left) fun _ => ite (hP.pure _) (eval hb right)
  | .choice condition thenCase elseCase =>
    hP.bind (eval hb condition) fun _ => ite (eval hb thenCase) (eval hb elseCase)
  | .comma items => evalLast hb items .nil
  | .var id name => hP.readVariable id name
  | .assign id name value =>
    hP.bind (eval hb value) fun _ => hP.bind (hP.writeVariable id name _) fun _ => hP.pure _
  | .call callee paren arguments =>
    hP.bind (eval hb callee) fun _ => hP.bind (evalAll hb arguments) fun _ => hP.call hb paren _ _
  | .get object name => hP.bind (eval hb object) fun _ => hP.getProperty _ name
  | .set object name value => by
    refine hP.bind (eval hb object) fun o => ?_
    cases o with
    | object id c =>
      exact hP.bind (eval hb value) fun _ => hP.bind (hP.setField _ _ _) fun _ => hP.pure _
    | _ => exact hP.fail _ _
  | .self id keyword => hP.readVariable id keyword
  | .super id keyword method => hP.superMethod id keyword method

theorem evalLast (hb : ∀ ss, P (body ss)) : (es : List Expr) → (last : Value) →
    P (Expr.evalLast body last es)
  | [], _ => hP.pure _
  | e :: es, _ => hP.bind (eval hb e) fun v => evalLast hb es v

theorem evalAll (hb : ∀ ss, P (body ss)) : (es : List Expr) → P (Expr.evalAll body es)
  | [] => hP.pure _
  | e :: es => hP.bind (eval hb e) fun _ => hP.bind (evalAll hb es) fun _ => hP.pure _

end

variable {rounds : Nat}

mutual

theorem exec (hb : ∀ ss, P (body ss)) : (s : Stmt) → P (s.exec body rounds)
  | .expression e => hP.bind (hP.eval hb e) fun _ => hP.pure _
  | .print e => hP.bind (hP.eval hb e) fun _ => hP.bind (hP.print _) fun _ => hP.pure _
  | .varDecl _ none => hP.bind (hP.define _ _) fun _ => hP.pure _
  | .varDecl _ (some initial) =>
    hP.bind (hP.eval hb initial) fun _ => hP.bind (hP.define _ _) fun _ => hP.pure _
  | .block statements =>
    hP.bind hP.currentFrame fun _ => hP.bind (hP.newFrame _) fun _ =>
      hP.inFrame _ (execAll hb statements)
  | .branch condition thenCase none =>
    hP.bind (hP.eval hb condition) fun _ => ite (exec hb thenCase) (hP.pure _)
  | .branch condition thenCase (some elseCase) =>
    hP.bind (hP.eval hb condition) fun _ => ite (exec hb thenCase) (exec hb elseCase)
  | .loop condition inner => hP.repeat (hP.eval hb condition) (exec hb inner) rounds
  | .function _ =>
    hP.bind hP.currentFrame fun _ => hP.bind (hP.newFunction _) fun _ =>
      hP.bind (hP.define _ _) fun _ => hP.pure _
  | .yield _ none => hP.pure _
  | .yield _ (some value) => hP.bind (hP.eval hb value) fun _ => hP.pure _
  | .classDecl _ none _ =>
    hP.bind (hP.define _ _) fun _ => hP.bind (hP.declareClass _ _ _) fun _ => hP.pure _
  | .classDecl _ (some superclass) _ =>
    hP.bind (hP.define _ _) fun _ => hP.bind (hP.eval hb superclass) fun _ =>
      hP.bind (hP.asSuperclass _ _) fun _ => hP.bind (hP.declareClass _ _ _) fun _ => hP.pure _

theorem execAll (hb : ∀ ss, P (body ss)) : (ss : List Stmt) → P (Stmt.execAll body rounds ss)
  | [] => hP.pure _
  | s :: rest => by
    refine hP.bind (exec hb s) fun flow => ?_
    cases flow with
    | normal => exact execAll hb rest
    | returned v => exact hP.pure _

end

end Trees

/-- The bodies of calls have the property at every level. -/
theorem runBody (rounds levels : Nat) (ss : List Stmt) : P (Lox.runBody rounds levels ss) := by
  induction levels generalizing ss with
  | zero => exact hP.throw _
  | succ levels ih => exact hP.execAll ih ss

end Hereditary
end Eval
end Lox
