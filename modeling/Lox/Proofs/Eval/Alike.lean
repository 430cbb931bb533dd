import Lox.Proofs.Heap.Alike

/-
  Evaluations that are alike

  Two steps are alike if machines that are alike lead them to the same end: both
  yield results that stand for each other, or both halt for the same reason, and
  the machines after them are alike again. Trees that are alike are evaluated
  alike. So an evaluation depends neither on the lines of its tokens nor on the
  ids of its nodes, as long as these have the same distances.
-/

namespace Lox

variable {L : Likeness}

/-- Halts for the same reason, at lines that stand for each other. -/
inductive Halt.Alike (L : Likeness) : Halt RuntimeError → Halt RuntimeError → Prop
  | program {l l' : Nat} (problem : RuntimeProblem) : L.lines l l' →
      Halt.Alike L (.error (.program l problem)) (.error (.program l' problem))
  | host (problem : HostProblem) : Halt.Alike L (.error (.host problem)) (.error (.host problem))
  | outOfFuel : Halt.Alike L .outOfFuel .outOfFuel

inductive Flow.Alike (L : Likeness) : Flow → Flow → Prop
  | normal : Flow.Alike L .normal .normal
  | returned {v v' : Value} : v.Alike L v' → Flow.Alike L (.returned v) (.returned v')

theorem Flow.Alike.value {f f' : Flow} (h : f.Alike L f') : f.value.Alike L f'.value := by
  cases h with
  | normal => exact .nil
  | returned hv => exact hv

/-- Ends of two steps whose results stand for each other. -/
inductive EndAlike (L : Likeness) {α β : Type} (Q : α → β → Prop) :
    EStateM.Result (Halt RuntimeError) Machine α → EStateM.Result (Halt RuntimeError) Machine β → Prop
  | ok {a : α} {b : β} {m m' : Machine} : Q a b → m.Alike L m' → EndAlike L Q (.ok a m) (.ok b m')
  | error {e e' : Halt RuntimeError} {m m' : Machine} : e.Alike L e' → m.Alike L m' →
      EndAlike L Q (.error e m) (.error e' m')

namespace Eval

/-- Steps that machines that are alike lead to the same end. -/
def Alike (L : Likeness) {α β : Type} (Q : α → β → Prop) (x : Eval α) (y : Eval β) : Prop :=
  ∀ m m', m.Alike L m' → EndAlike L Q (x m) (y m')

/-- Both run the bodies of calls alike. -/
def BodiesAlike (L : Likeness) (body body' : List Stmt → Eval Flow) : Prop :=
  ∀ ss ss', Stmt.AllAlike L ss ss' → Alike L (Flow.Alike L) (body ss) (body' ss')

namespace Alike

variable {α β α' β' : Type} {Q : α → β → Prop} {Q' : α' → β' → Prop}

theorem pure {a : α} {b : β} (h : Q a b) :
    Alike L Q (Pure.pure a : Eval α) (Pure.pure b : Eval β) :=
  fun _ _ hm => .ok h hm

theorem throw {e e' : Halt RuntimeError} (h : e.Alike L e') :
    Alike L Q (MonadExcept.throw e : Eval α) (MonadExcept.throw e' : Eval β) :=
  fun _ _ hm => .error h hm

theorem fail {l l' : Nat} (h : L.lines l l') (problem : RuntimeProblem) :
    Alike L Q (Eval.fail l problem : Eval α) (Eval.fail l' problem : Eval β) :=
  .throw (.program problem h)

/-- Computations with the same outcome, whose value means the same in both. -/
theorem ofExcept {l l' : Nat} (h : L.lines l l') {r : Except RuntimeProblem Value}
    (hr : ∀ v, r = .ok v → v.Atomic) :
    Alike L (Value.Alike L) (Eval.ofExcept l r) (Eval.ofExcept l' r) := by
  cases r with
  | ok v => exact .pure (hr v rfl).alike
  | error problem => exact .fail h problem

theorem bind {x : Eval α} {y : Eval β} {f : α → Eval α'} {g : β → Eval β'} (hx : Alike L Q x y)
    (hf : ∀ a b, Q a b → Alike L Q' (f a) (g b)) : Alike L Q' (x >>= f) (y >>= g) := by
  intro m m' hm
  have h := hx m m' hm
  show EndAlike L Q' (EStateM.bind x f m) (EStateM.bind y g m')
  unfold EStateM.bind
  generalize x m = r at h
  generalize y m' = r' at h
  cases h with
  | ok ha hn => exact hf _ _ ha _ _ hn
  | error he hn => exact .error he hn

/-- What the second step comes to if the first one succeeds. -/
theorem of_ok {x : Eval α} {y : Eval β} (h : Alike L Q x y) {m m' n : Machine}
    (hm : m.Alike L m') {a : α} (hx : x m = .ok a n) :
    ∃ b n', y m' = .ok b n' ∧ Q a b ∧ n.Alike L n' := by
  have hends := h m m' hm
  rw [hx] at hends
  generalize y m' = end' at hends
  cases hends with
  | ok hq hn => exact ⟨_, _, rfl, hq, hn⟩

/-- A decision that falls the same way in both. -/
theorem ite {c c' : Bool} (h : c' = c) {x y : Eval α} {x' y' : Eval β}
    (hx : Alike L Q x x') (hy : Alike L Q y y') :
    Alike L Q (if c = true then x else y) (if c' = true then x' else y') := by
  subst h
  cases c' with
  | true => exact hx
  | false => exact hy

theorem inFrame (f : FrameId) {x : Eval α} {y : Eval β} (h : Alike L Q x y) :
    Alike L Q (Eval.inFrame f x) (Eval.inFrame f y) := by
  intro m m' hm
  have hin := h { m with frame := f } { m' with frame := f } { hm with frame := rfl }
  unfold Eval.inFrame
  dsimp only
  generalize x { m with frame := f } = r at hin
  generalize y { m' with frame := f } = r' at hin
  cases hin with
  | ok ha hn => exact .ok ha { hn with frame := hm.frame }
  | error he hn => exact .error he { hn with frame := hm.frame }

theorem oneDeeper {x : Eval α} {y : Eval β} (h : Alike L Q x y) :
    Alike L Q (Eval.oneDeeper x) (Eval.oneDeeper y) := by
  intro m m' hm
  have hin := h { m with depth := m.depth + 1 } { m' with depth := m'.depth + 1 }
    { hm with depth := congrArg (· + 1) hm.depth }
  unfold Eval.oneDeeper
  generalize x { m with depth := m.depth + 1 } = r at hin
  generalize y { m' with depth := m'.depth + 1 } = r' at hin
  cases hin with
  | ok ha hn => exact .ok ha { hn with depth := congrArg (· - 1) hn.depth }
  | error he hn => exact .error he { hn with depth := congrArg (· - 1) hn.depth }

/-! ### Elementary steps -/

theorem newFrame (enclosing : FrameId) :
    Alike L Eq (Eval.newFrame enclosing) (Eval.newFrame enclosing) :=
  fun _ _ hm => .ok hm.heap.size.symm { hm with heap := hm.heap.newFrame _ }

theorem currentFrame : Alike L Eq Eval.currentFrame Eval.currentFrame :=
  fun _ _ hm => .ok hm.frame.symm hm

theorem defineIn (f : FrameId) (name : String) {v v' : Value} (hv : v.Alike L v') :
    Alike L Eq (Eval.defineIn f name v) (Eval.defineIn f name v') :=
  fun _ _ hm => .ok rfl { hm with heap := hm.heap.define f name hv }

theorem define (name : String) {v v' : Value} (hv : v.Alike L v') :
    Alike L Eq (Eval.define name v) (Eval.define name v') := fun m m' hm => by
  have h := Alike.defineIn m.frame name hv m m' hm
  rw [← hm.frame] at h
  nth_rewrite 1 [hm.frame] at h
  exact h

theorem defineParameters (f : FrameId) {ps ps' : List Token} {vs vs' : List Value}
    (hp : List.Forall₂ (Token.Matches L) ps ps') (hv : List.Forall₂ (Value.Alike L) vs vs') :
    Alike L Eq (Eval.defineParameters f ps vs) (Eval.defineParameters f ps' vs') := by
  have hzip : List.Forall₂ (fun p p' => p'.1 = p.1 ∧ Value.Alike L p.2 p'.2)
      ((ps.map Token.lexeme).zip vs) ((ps'.map Token.lexeme).zip vs') := by
    rw [lexemes_eq hp]
    generalize ps.map Token.lexeme = names
    induction hv generalizing names with
    | nil => simp
    | cons hv _ ih =>
      cases names with
      | nil => exact .nil
      | cons name names => exact .cons ⟨rfl, hv⟩ (ih names)
  intro m m' hm
  exact .ok rfl { hm with heap := hm.heap.defineAll f hzip }

theorem assignIn (f? : Option FrameId) {name name' : Token} (hn : name.Matches L name')
    {v v' : Value} (hv : v.Alike L v') :
    Alike L Eq (Eval.assignIn f? name v) (Eval.assignIn f? name' v') := by
  cases f? with
  | none =>
    rw [Eval.assignIn, Eval.assignIn, hn.lexeme]
    exact .fail hn.line _
  | some f =>
    rw [Eval.assignIn, Eval.assignIn, hn.lexeme]
    exact .defineIn f name.lexeme hv

theorem assign {name name' : Token} (hn : name.Matches L name') {v v' : Value} (hv : v.Alike L v') :
    Alike L Eq (Eval.assign name v) (Eval.assign name' v') := fun m m' hm => by
  have h := Alike.assignIn (m.heap.holder? m.frame name.lexeme) hn hv m m' hm
  rw [Eval.assign, Eval.assign, hm.frame, hm.heap.holder?_eq, hn.lexeme]
  exact h

theorem readVariable {i i' : Nat} (hi : L.ids i i') {name name' : Token} (hn : name.Matches L name') :
    Alike L (Value.Alike L) (Eval.readVariable i name) (Eval.readVariable i' name') := by
  intro m m' hm
  have h := hm.lookup? hi name.lexeme
  rw [readVariable_eq, readVariable_eq, hn.lexeme]
  generalize m.lookup? i name.lexeme = v at h
  generalize m'.lookup? i' name.lexeme = v' at h
  cases h with
  | none => exact Alike.fail hn.line _ m m' hm
  | some hv => exact .ok hv hm

theorem writeVariable {i i' : Nat} (hi : L.ids i i') {name name' : Token}
    (hn : name.Matches L name') {v v' : Value} (hv : v.Alike L v') :
    Alike L Eq (Eval.writeVariable i name v) (Eval.writeVariable i' name' v') := by
  intro m m' hm
  have h := Alike.assignIn (m.holder? i name.lexeme) hn hv m m' hm
  have hw : ∀ (j : Nat) (t : Token) (w : Value) (n : Machine),
    Eval.writeVariable j t w n = Eval.assignIn (n.holder? j t.lexeme) t w n := fun _ _ _ _ => rfl
  rw [hw, hw, hn.lexeme, hm.holder?_eq hi]
  exact h

theorem newFunction {c c' : Closure} (hc : c.Alike L c') :
    Alike L (Value.Alike L) (Eval.newFunction c) (Eval.newFunction c') := fun m m' hm => by
  have hv : (Value.function m.heap.nextIdentity c).Alike L (.function m'.heap.nextIdentity c') :=
    hm.heap.identity ▸ .function hc
  exact .ok hv { hm with heap := hm.heap.newIdentity }

theorem newClass {c c' : Class} (hc : c.Alike L c') :
    Alike L (Value.Alike L) (Eval.newClass c) (Eval.newClass c') := fun m m' hm => by
  have hv : (Value.cls m.heap.nextIdentity c).Alike L (.cls m'.heap.nextIdentity c') :=
    hm.heap.identity ▸ .cls hc
  exact .ok hv { hm with heap := hm.heap.newIdentity }

theorem newObject : Alike L Eq Eval.newObject Eval.newObject :=
  fun _ _ hm => .ok hm.heap.objects.symm { hm with heap := hm.heap.newObject }

theorem setField (object : Nat) (name : String) {v v' : Value} (hv : v.Alike L v') :
    Alike L Eq (Eval.setField object name v) (Eval.setField object name v') :=
  fun _ _ hm => .ok rfl { hm with heap := hm.heap.setField object name hv }

theorem readClock : Alike L (Value.Alike L) Eval.readClock Eval.readClock := fun m m' hm => by
  have hv : (Value.number (m.clock m.readings)).Alike L (.number (m'.clock m'.readings)) := by
    rw [hm.clock, hm.readings]
    exact .number _
  exact .ok hv { hm with readings := congrArg (· + 1) hm.readings }

theorem print (text : String) : Alike L Eq (Eval.print text) (Eval.print text) := by
  intro m m' hm
  unfold Eval.print
  rw [hm.sink]
  dsimp only
  cases (m.sink.write text).1 with
  | true => exact .ok rfl { hm with sink := rfl }
  | false => exact .error (.host _) { hm with sink := rfl }

theorem flush : Alike L Eq Eval.flush Eval.flush := by
  intro m m' hm
  have hf : m'.sink.flushFails = m.sink.flushFails := by rw [hm.sink]
  rw [Eval.flush, Eval.flush, hf]
  cases m.sink.flushFails with
  | true => exact .error (.host _) { hm with sink := hm.sink }
  | false => exact .ok rfl { hm with sink := hm.sink }

/-! ### Methods, properties and classes -/

theorem boundClosure {method method' : Closure} (hm : method.Alike L method') (object : Nat)
    {c c' : Class} (hc : c.Alike L c') :
    Alike L (Closure.Alike L) (Eval.bind method object c) (Eval.bind method' object c') := by
  rw [Eval.bind, Eval.bind, hm.frame]
  refine .bind (.newFrame _) fun f f' hf => ?_
  subst hf
  exact .bind (.defineIn f selfName (.object hc)) fun _ _ _ =>
    .pure ⟨hm.declaration, rfl, hm.initializer⟩

theorem boundMethod {method method' : Closure} (hm : method.Alike L method') (object : Nat)
    {c c' : Class} (hc : c.Alike L c') :
    Alike L (Value.Alike L) (Eval.boundMethod method object c) (Eval.boundMethod method' object c') :=
  .bind (.boundClosure hm object hc) fun _ _ h => .newFunction h

theorem boundObject {c c' : Closure} (hc : c.Alike L c') :
    Alike L (Value.Alike L) (Eval.boundObject c) (Eval.boundObject c') := by
  intro m m' hm
  have h := hm.heap.getAt? c.frame 0 selfName
  rw [Eval.boundObject, Eval.boundObject, hc.frame]
  generalize m.heap.getAt? c.frame 0 selfName = v at h
  generalize m'.heap.getAt? c.frame 0 selfName = v' at h
  cases h with
  | none => exact .ok .nil hm
  | some hv => exact .ok hv hm

theorem getProperty {v v' : Value} (hv : v.Alike L v') {name name' : Token}
    (hn : name.Matches L name') :
    Alike L (Value.Alike L) (Eval.getProperty v name) (Eval.getProperty v' name') := by
  intro m m' hm
  cases hv with
  | @object object c c' hc =>
    obtain ⟨hf, hf'⟩ | ⟨w, w', hf, hf', hw⟩ :=
      absent_or_present (hm.heap.fields object name.lexeme)
    · obtain ⟨hc, hc'⟩ | ⟨method, method', hc₁, hc₁', hmethod⟩ :=
        absent_or_present (hc.methods name.lexeme)
      · rw [getProperty_of_none hf hc, getProperty_of_none (hn.lexeme ▸ hf') (hn.lexeme ▸ hc'),
          hn.lexeme]
        exact .error (.program _ hn.line) hm
      · rw [getProperty_of_method hf hc₁,
          getProperty_of_method (hn.lexeme ▸ hf') (hn.lexeme ▸ hc₁')]
        exact Alike.boundMethod hmethod object hc m m' hm
    · rw [getProperty_of_field hf, getProperty_of_field (hn.lexeme ▸ hf')]
      exact .ok hw hm
  | _ => exact .error (.program _ hn.line) hm

/-- What a `super` looks up is alike, if it finds it at all. -/
theorem super? {m m' : Machine} (hm : m.Alike L m') {i i' : Nat} (hi : L.ids i i') :
    Option.Rel (fun p p' => Class.Alike L p.1 p'.1 ∧ p'.2.1 = p.2.1 ∧ Class.Alike L p.2.2 p'.2.2)
      (m.super? i) (m'.super? i') := by
  rw [Machine.super?, Machine.super?, hm.distances i i' hi, hm.frame]
  cases m.distances[i]? with
  | none => exact .none
  | some distance =>
    cases distance with
    | zero => exact .none
    | succ distance =>
      have hsuper := hm.heap.getAt? m.frame (distance + 1) superName
      have hself := hm.heap.getAt? m.frame distance selfName
      dsimp only
      generalize m.heap.getAt? m.frame (distance + 1) superName = s at hsuper
      generalize m'.heap.getAt? m.frame (distance + 1) superName = s' at hsuper
      generalize m.heap.getAt? m.frame distance selfName = o at hself
      generalize m'.heap.getAt? m.frame distance selfName = o' at hself
      cases hsuper with
      | none => exact .none
      | some hs =>
        cases hs with
        | cls hc =>
          cases hself with
          | none => exact .none
          | some ho =>
            cases ho with
            | object hd => exact .some ⟨hc, rfl, hd⟩
            | _ => exact .none
        | _ => exact .none

theorem superMethod {i i' : Nat} (hi : L.ids i i') {keyword keyword' method method' : Token}
    (hk : keyword.Matches L keyword') (hm : method.Matches L method') :
    Alike L (Value.Alike L) (Eval.superMethod i keyword method)
      (Eval.superMethod i' keyword' method') := by
  intro m m' hmm
  obtain ⟨h, h'⟩ | ⟨⟨c, o, d⟩, ⟨c', o', d'⟩, h, h', hc, ho, hd⟩ := absent_or_present (super? hmm hi)
  · rw [superMethod_of_none h, superMethod_of_none h']
    exact .error (.program _ hk.line) hmm
  · obtain rfl : o' = o := ho
    obtain ⟨hf, hf'⟩ | ⟨found, found', hf, hf', hfound⟩ := absent_or_present (hc.methods method.lexeme)
    · rw [superMethod_of_no_method h hf, superMethod_of_no_method h' (hm.lexeme ▸ hf'), hm.lexeme]
      exact .error (.program _ hm.line) hmm
    · rw [superMethod_of_method h hf, superMethod_of_method h' (hm.lexeme ▸ hf')]
      exact Alike.boundMethod hfound o' hd m m' hmm

/-- Superclasses that are alike, each with its identity. -/
abbrev SuperAlike (L : Likeness) (p p' : Nat × Class) : Prop := p'.1 = p.1 ∧ Class.Alike L p.2 p'.2

theorem asSuperclass {l l' : Nat} (h : L.lines l l') {v v' : Value} (hv : v.Alike L v') :
    Alike L (SuperAlike L) (Eval.asSuperclass l v) (Eval.asSuperclass l' v') := by
  cases hv with
  | cls hc => exact .pure ⟨rfl, hc⟩
  | _ => exact .fail h _

theorem declareClass {name name' : Token} (hn : name.Matches L name') {fs fs' : List Function}
    (hfs : Function.AllAlike L fs fs') {c c' : Option (Nat × Class)}
    (hc : Option.Rel (SuperAlike L) c c') :
    Alike L Eq (Eval.declareClass name fs c) (Eval.declareClass name' fs' c') := by
  cases hc with
  | none =>
    rw [Eval.declareClass, Eval.declareClass, hn.lexeme]
    refine .bind .currentFrame fun f f' hf => ?_
    subst hf
    exact .bind (.newClass (.mk' .none (methodTable_alike hfs f))) fun _ _ hv => .assign hn hv
  | @some p p' h =>
    obtain ⟨id, superclass⟩ := p
    obtain ⟨id', superclass'⟩ := p'
    obtain ⟨rfl, hs⟩ : id' = id ∧ superclass.Alike L superclass' := h
    rw [Eval.declareClass, Eval.declareClass, hn.lexeme]
    refine .bind .currentFrame fun e e' he => ?_
    subst he
    refine .bind (.newFrame e) fun f f' hf => ?_
    subst hf
    exact .bind (.defineIn f superName (.cls hs)) fun _ _ _ =>
      .bind (.newClass (.mk' (.some hs) (methodTable_alike hfs f))) fun _ _ hv => .assign hn hv

/-! ### Calls -/

section Bodies

variable {body body' : List Stmt → Eval Flow} (hb : BodiesAlike L body body')
include hb

theorem callFunction {c c' : Closure} (hc : c.Alike L c') {vs vs' : List Value}
    (hv : List.Forall₂ (Value.Alike L) vs vs') :
    Alike L (Value.Alike L) (Eval.callFunction body c vs) (Eval.callFunction body' c' vs') := by
  rw [Eval.callFunction, Eval.callFunction, hc.frame]
  refine .bind (.newFrame _) fun f f' hf => ?_
  subst hf
  exact .bind (.defineParameters f hc.declaration.parameters hv) fun _ _ _ =>
    .bind (.inFrame f (hb _ _ hc.declaration.body)) fun _ _ hflow =>
      .ite hc.initializer (.boundObject hc) (.pure hflow.value)

theorem construct {c c' : Class} (hc : c.Alike L c') {vs vs' : List Value}
    (hv : List.Forall₂ (Value.Alike L) vs vs') :
    Alike L (Value.Alike L) (Eval.construct body c vs) (Eval.construct body' c' vs') := by
  rw [Eval.construct, Eval.construct]
  refine .bind .newObject fun o o' ho => ?_
  subst ho
  obtain ⟨h, h'⟩ | ⟨method, method', h, h', hm⟩ :=
    absent_or_present (hc.methods Class.initializerName)
  · rw [h, h']
    exact .pure (.object hc)
  · rw [h, h']
    exact .bind (.boundClosure hm o hc) fun _ _ hbound =>
      .bind (callFunction hb hbound hv) fun _ _ _ => .pure (.object hc)

theorem invoke {v v' : Value} (hv : v.Alike L v') {vs vs' : List Value}
    (hvs : List.Forall₂ (Value.Alike L) vs vs') :
    Alike L (Value.Alike L) (Eval.invoke body v vs) (Eval.invoke body' v' vs') := by
  cases hv with
  | function hc => exact callFunction hb hc hvs
  | cls hc => exact construct hb hc hvs
  | clock => exact .readClock
  | _ => exact .pure .nil

theorem call {paren paren' : Token} (hp : paren.Matches L paren') {v v' : Value}
    (hv : v.Alike L v') {vs vs' : List Value} (hvs : List.Forall₂ (Value.Alike L) vs vs') :
    Alike L (Value.Alike L) (Eval.call body paren v vs) (Eval.call body' paren' v' vs') := by
  intro m m' hm
  have ha := hv.similar.arity?_eq
  have hlength := hvs.length_eq
  cases h : v.arity? with
  | none =>
    rw [call_of_not_callable h, call_of_not_callable (ha.trans h)]
    exact .error (.program _ hp.line) hm
  | some arity =>
    by_cases hl : vs.length = arity
    · subst hl
      have h' : v'.arity? = some vs'.length := (ha.trans h).trans (congrArg some hlength)
      rcases Nat.lt_or_ge m.depth maxCallDepth with hd | hd
      · rw [call_of_checked h hd, call_of_checked h' (hm.depth.symm ▸ hd)]
        exact Alike.oneDeeper (invoke hb hv hvs) m m' hm
      · rw [call_of_too_deep h hd, call_of_too_deep h' (hm.depth.symm ▸ hd)]
        exact .error (.program _ hp.line) hm
    · rw [call_of_arity_ne h hl, call_of_arity_ne (ha.trans h) (hlength ▸ hl), ← hlength]
      exact .error (.program _ hp.line) hm

end Bodies

theorem «repeat» {condition condition' : Eval Value} {body body' : Eval Flow}
    (hc : Alike L (Value.Alike L) condition condition') (hb : Alike L (Flow.Alike L) body body')
    (rounds : Nat) :
    Alike L (Flow.Alike L) (Eval.repeat condition body rounds)
      (Eval.repeat condition' body' rounds) := by
  induction rounds with
  | zero => exact .throw .outOfFuel
  | succ rounds ih =>
    refine .bind hc fun v v' hv => .ite hv.similar.truthy_eq (.bind hb fun f f' hf => ?_) (.pure .normal)
    cases hf with
    | normal => exact ih
    | returned hv => exact .pure (.returned hv)

end Alike
end Eval

open Eval

/-! ## Trees -/

section Trees

variable {body body' : List Stmt → Eval Flow}

mutual

theorem Expr.Alike.eval (hbody : BodiesAlike L body body') : {e e' : Expr} → e.Alike L e' →
    Eval.Alike L (Value.Alike L) (e.eval body) (e'.eval body')
  | _, _, .number x => .pure (.number x)
  | _, _, .string text => .pure (.string text)
  | _, _, .boolean b => .pure (.boolean b)
  | _, _, .nil => .pure .nil
  | _, _, .group h => h.eval hbody
  | _, _, .unary ho h => .bind (h.eval hbody) fun v v' hv => by
    rw [hv.similar.unary_eq ho.kind ho.lexeme]
    exact .ofExcept ho.line fun _ => Value.atomic_of_unary
  | _, _, .binary ha ho hb =>
    .bind (ha.eval hbody) fun a a' hva => .bind (hb.eval hbody) fun b b' hvb => by
      rw [hva.similar.binary_eq ho.kind ho.lexeme hvb.similar]
      exact .ofExcept ho.line fun _ => Value.atomic_of_binary
  | _, _, .logical ha ho hb => .bind (ha.eval hbody) fun _ _ hv =>
    .ite (hv.similar.decidesLogical_eq ho.kind) (.pure hv) (hb.eval hbody)
  | _, _, .choice hc ha hb => .bind (hc.eval hbody) fun _ _ hv =>
    .ite hv.similar.truthy_eq (ha.eval hbody) (hb.eval hbody)
  | _, _, .comma h => h.evalLast hbody .nil
  | _, _, .var hi hn => .readVariable hi hn
  | _, _, .assign hi hn h => .bind (h.eval hbody) fun _ _ hv =>
    .bind (.writeVariable hi hn hv) fun _ _ _ => .pure hv
  | _, _, .call h hp hs => .bind (h.eval hbody) fun _ _ hv =>
    .bind (hs.evalAll hbody) fun _ _ hvs => .call hbody hp hv hvs
  | _, _, .get h hn => .bind (h.eval hbody) fun _ _ hv => .getProperty hv hn
  | _, _, .set h hn hv => by
    refine .bind (h.eval hbody) fun o o' ho => ?_
    cases ho with
    | object _ =>
      refine .bind (hv.eval hbody) fun w w' hw => ?_
      rw [hn.lexeme]
      exact .bind (.setField _ _ hw) fun _ _ _ => .pure hw
    | _ => exact .fail hn.line _
  | _, _, .self hi hk => .readVariable hi hk
  | _, _, .super hi hk hm => .superMethod hi hk hm

theorem Expr.AllAlike.evalLast (hbody : BodiesAlike L body body') : {es es' : List Expr} →
    Expr.AllAlike L es es' → {v v' : Value} → v.Alike L v' →
    Eval.Alike L (Value.Alike L) (Expr.evalLast body v es) (Expr.evalLast body' v' es')
  | _, _, .nil, _, _, hv => .pure hv
  | _, _, .cons h hs, _, _, _ => .bind (h.eval hbody) fun _ _ hv => hs.evalLast hbody hv

theorem Expr.AllAlike.evalAll (hbody : BodiesAlike L body body') : {es es' : List Expr} →
    Expr.AllAlike L es es' →
    Eval.Alike L (List.Forall₂ (Value.Alike L)) (Expr.evalAll body es) (Expr.evalAll body' es')
  | _, _, .nil => .pure .nil
  | _, _, .cons h hs => .bind (h.eval hbody) fun _ _ hv =>
    .bind (hs.evalAll hbody) fun _ _ hvs => .pure (.cons hv hvs)

end

variable {rounds : Nat}

mutual

theorem Stmt.Alike.exec (hbody : BodiesAlike L body body') : {s s' : Stmt} → s.Alike L s' →
    Eval.Alike L (Flow.Alike L) (s.exec body rounds) (s'.exec body' rounds)
  | _, _, .expression h => .bind (h.eval hbody) fun _ _ _ => .pure .normal
  | _, _, .print h => .bind (h.eval hbody) fun v v' hv => by
    rw [hv.similar.display_eq]
    exact .bind (.print _) fun _ _ _ => .pure .normal
  | _, _, .varDecl hn .none => by
    rw [Stmt.exec, Stmt.exec, hn.lexeme]
    exact .bind (.define _ .nil) fun _ _ _ => .pure .normal
  | _, _, .varDecl hn (.some h) => by
    rw [Stmt.exec, Stmt.exec, hn.lexeme]
    exact .bind (h.eval hbody) fun _ _ hv => .bind (.define _ hv) fun _ _ _ => .pure .normal
  | _, _, .block hs => .bind .currentFrame fun e e' he => by
    subst he
    refine .bind (.newFrame e) fun f f' hf => ?_
    subst hf
    exact .inFrame f (hs.execAll hbody)
  | _, _, .ifThen hc h => .bind (hc.eval hbody) fun _ _ hv =>
    .ite hv.similar.truthy_eq (h.exec hbody) (.pure .normal)
  | _, _, .ifElse hc ha hb => .bind (hc.eval hbody) fun _ _ hv =>
    .ite hv.similar.truthy_eq (ha.exec hbody) (hb.exec hbody)
  | _, _, .loop hc h => .repeat (hc.eval hbody) (h.exec hbody) rounds
  | _, _, .function hf => .bind .currentFrame fun e e' he => by
    subst he
    refine .bind (.newFunction ⟨hf, rfl, rfl⟩) fun v v' hv => ?_
    rw [hf.name.lexeme]
    exact .bind (.define _ hv) fun _ _ _ => .pure .normal
  | _, _, .yield _ .none => .pure (.returned .nil)
  | _, _, .yield _ (.some h) => .bind (h.eval hbody) fun _ _ hv => .pure (.returned hv)
  | _, _, .classDecl hn .none hfs => by
    rw [Stmt.exec, Stmt.exec, hn.lexeme]
    exact .bind (.define _ .nil) fun _ _ _ => .bind (.declareClass hn hfs .none) fun _ _ _ =>
      .pure .normal
  | _, _, .classDecl hn (.some h) hfs => by
    rw [Stmt.exec, Stmt.exec, hn.lexeme]
    exact .bind (.define _ .nil) fun _ _ _ => .bind (h.eval hbody) fun _ _ hv =>
      .bind (.asSuperclass (h.line?.getD hn.line) hv) fun _ _ hc =>
        .bind (.declareClass hn hfs (.some hc)) fun _ _ _ => .pure .normal

theorem Stmt.AllAlike.execAll (hbody : BodiesAlike L body body') : {ss ss' : List Stmt} →
    Stmt.AllAlike L ss ss' →
    Eval.Alike L (Flow.Alike L) (Stmt.execAll body rounds ss) (Stmt.execAll body' rounds ss')
  | _, _, .nil => .pure .normal
  | _, _, .cons h hs => .bind (h.exec hbody) fun f f' hf => by
    cases hf with
    | normal => exact hs.execAll hbody
    | returned hv => exact .pure (.returned hv)

end

end Trees

/-- Bodies are run alike at every level. -/
theorem bodiesAlike_runBody (rounds levels : Nat) :
    BodiesAlike L (runBody rounds levels) (runBody rounds levels) := by
  induction levels with
  | zero => exact fun _ _ _ => .throw .outOfFuel
  | succ levels ih => exact fun _ _ h => h.execAll ih

theorem Expr.Alike.evaluate (rounds : Nat) {e e' : Expr} (h : e.Alike L e') :
    Eval.Alike L (Value.Alike L) (Lox.evaluate rounds e) (Lox.evaluate rounds e') :=
  h.eval (bodiesAlike_runBody rounds callLevels)

/-- Programs that are alike are run alike. -/
theorem Stmt.AllAlike.interpret (rounds : Nat) {ss ss' : List Stmt} (h : Stmt.AllAlike L ss ss') :
    Eval.Alike L Eq (Lox.interpret rounds ss) (Lox.interpret rounds ss') :=
  .bind (h.execAll (bodiesAlike_runBody rounds callLevels)) fun _ _ _ => .flush

end Lox
