import Lox.Proofs.Eval.Methods
import Lox.Proofs.Heap.Renamed

/-
  Evaluations of renamed trees

  Two steps are renamings of each other if machines before and after the renaming lead
  them to the same end: both yield results that stand for each other, or both halt for the
  same reason, where an undefined variable is reported under its own name. The machines
  after them are again such machines, with more frames known.

  Renamed trees are evaluated so. Every variable is looked up at its distance or in the
  global frame, and there the new name stands for the old one exactly where a variable at
  this distance is renamed.
-/

namespace Lox

open Renaming (Inside)

variable {R : Renaming} {W V : Marks} {away inner : Option Nat}

/-- Halts for the same reason, up to the name of an undefined variable. -/
inductive Halt.Renamed (R : Renaming) : Halt RuntimeError → Halt RuntimeError → Prop
  | same (e : Halt RuntimeError) : Halt.Renamed R e e
  | undefined (line : Nat) :
      Halt.Renamed R (.error (.program line (.undefinedVariable R.old)))
        (.error (.program line (.undefinedVariable R.new)))

inductive Flow.Renamed (R : Renaming) (W : Marks) : Flow → Flow → Prop
  | normal : Flow.Renamed R W .normal .normal
  | returned {v v' : Value} : v.Renamed R W v' → Flow.Renamed R W (.returned v) (.returned v')

theorem Flow.Renamed.value {f f' : Flow} (h : f.Renamed R W f') : f.value.Renamed R W f'.value := by
  cases h with
  | normal => exact .nil
  | returned hv => exact hv

/-- Ends of two steps at one place, whose results stand for each other. -/
inductive EndRenamed (R : Renaming) (W : Marks) (away : Option Nat) {α β : Type}
    (Q : Marks → α → β → Prop) : EStateM.Result (Halt RuntimeError) Machine α →
    EStateM.Result (Halt RuntimeError) Machine β → Prop
  | ok {V : Marks} {a : α} {b : β} {m m' : Machine} : W.Le V → Q V a b →
      m.Renamed R V away m' → EndRenamed R W away Q (.ok a m) (.ok b m')
  | error {V : Marks} {e e' : Halt RuntimeError} {m m' : Machine} : W.Le V → e.Renamed R e' →
      m.Renamed R V away m' → EndRenamed R W away Q (.error e m) (.error e' m')

/-- What is known at first is known at the end. -/
theorem EndRenamed.of_le {α β : Type} {Q : Marks → α → β → Prop}
    {r : EStateM.Result (Halt RuntimeError) Machine α}
    {r' : EStateM.Result (Halt RuntimeError) Machine β} (h : EndRenamed R V away Q r r')
    (hle : W.Le V) : EndRenamed R W away Q r r' := by
  cases h with
  | ok hle' hq hm => exact .ok (hle.trans hle') hq hm
  | error hle' he hm => exact .error (hle.trans hle') he hm

namespace Eval

/-- Steps that machines before and after a renaming lead to the same end. -/
def Renamed (R : Renaming) (W : Marks) (away : Option Nat) {α β : Type}
    (Q : Marks → α → β → Prop) (x : Eval α) (y : Eval β) : Prop :=
  ∀ m m', m.Renamed R W away m' → EndRenamed R W away Q (x m) (y m')

/-- Both run the bodies of calls so, at every place. -/
def BodiesRenamed (R : Renaming) (body body' : List Stmt → Eval Flow) : Prop :=
  ∀ W away ss ss', Stmt.AllRenamed R away ss ss' →
    Renamed R W away (Flow.Renamed R) (body ss) (body' ss')

/-- Steps that yield nothing of interest. -/
abbrev Any {α β : Type} : Marks → α → β → Prop := fun _ _ _ => True

namespace Renamed

variable {α β α' β' : Type} {Q : Marks → α → β → Prop} {Q' : Marks → α' → β' → Prop}

theorem pure {a : α} {b : β} (h : Q W a b) :
    Renamed R W away Q (Pure.pure a : Eval α) (Pure.pure b : Eval β) :=
  fun _ _ hm => .ok (.refl W) h hm

theorem throw (e : Halt RuntimeError) :
    Renamed R W away Q (MonadExcept.throw e : Eval α) (MonadExcept.throw e : Eval β) :=
  fun _ _ hm => .error (.refl W) (.same e) hm

theorem fail (line : Nat) (problem : RuntimeProblem) :
    Renamed R W away Q (Eval.fail line problem : Eval α) (Eval.fail line problem : Eval β) :=
  .throw _

/-- Computations with the same outcome, whose value means the same in both. -/
theorem ofExcept (line : Nat) {r : Except RuntimeProblem Value}
    (hr : ∀ v, r = .ok v → v.Atomic) :
    Renamed R W away (Value.Renamed R) (Eval.ofExcept line r) (Eval.ofExcept line r) := by
  cases r with
  | ok v => exact .pure (hr v rfl).renamed
  | error problem => exact .fail line problem

/-- What follows steps with this end. -/
theorem andThen {x : Eval α} {y : Eval β} {f : α → Eval α'} {g : β → Eval β'} {m m' : Machine}
    (h : EndRenamed R W away Q (x m) (y m'))
    (hf : ∀ V, W.Le V → ∀ a b, Q V a b → Renamed R V away Q' (f a) (g b)) :
    EndRenamed R W away Q' ((x >>= f) m) ((y >>= g) m') := by
  show EndRenamed R W away Q' (EStateM.bind x f m) (EStateM.bind y g m')
  unfold EStateM.bind
  generalize x m = r at h
  generalize y m' = r' at h
  cases h with
  | ok hle ha hn => exact (hf _ hle _ _ ha _ _ hn).of_le hle
  | error hle he hn => exact .error hle he hn

theorem bind {x : Eval α} {y : Eval β} {f : α → Eval α'} {g : β → Eval β'}
    (hx : Renamed R W away Q x y)
    (hf : ∀ V, W.Le V → ∀ a b, Q V a b → Renamed R V away Q' (f a) (g b)) :
    Renamed R W away Q' (x >>= f) (y >>= g) :=
  fun m m' hm => andThen (hx m m' hm) hf

/-- A statement goes through after its last step. -/
theorem goOn {x : Eval α} {y : Eval β} {m m' : Machine}
    (h : EndRenamed R W away Q (x m) (y m')) :
    EndRenamed R W away (Flow.Renamed R) ((do let _ ← x; Pure.pure Flow.normal : Eval Flow) m)
      ((do let _ ← y; Pure.pure Flow.normal : Eval Flow) m') :=
  andThen h fun _ _ _ _ _ => .pure .normal

/-- A decision that falls the same way in both. -/
theorem ite {c c' : Bool} (h : c' = c) {x y : Eval α} {x' y' : Eval β}
    (hx : Renamed R W away Q x x') (hy : Renamed R W away Q y y') :
    Renamed R W away Q (if c = true then x else y) (if c' = true then x' else y') := by
  subst h
  cases c' with
  | true => exact hx
  | false => exact hy

theorem inFrame {f : FrameId} (hf : W f = some inner) {x : Eval α} {y : Eval β}
    (h : Renamed R W inner Q x y) :
    Renamed R W away Q (Eval.inFrame f x) (Eval.inFrame f y) := by
  intro m m' hm
  have hin := h _ _ (hm.enter hf)
  have hframe := hm.frame
  unfold Eval.inFrame
  dsimp only
  generalize x { m with frame := f } = r at hin
  generalize y { m' with frame := f } = r' at hin
  cases hin with
  | ok hle ha hn => exact .ok hle ha { hn with place := hle _ _ hm.place, frame := hframe }
  | error hle he hn => exact .error hle he { hn with place := hle _ _ hm.place, frame := hframe }

theorem oneDeeper {x : Eval α} {y : Eval β} (h : Renamed R W away Q x y) :
    Renamed R W away Q (Eval.oneDeeper x) (Eval.oneDeeper y) := by
  intro m m' hm
  have hin := h { m with depth := m.depth + 1 } { m' with depth := m'.depth + 1 }
    { hm with depth := congrArg (· + 1) hm.depth }
  unfold Eval.oneDeeper
  generalize x { m with depth := m.depth + 1 } = r at hin
  generalize y { m' with depth := m'.depth + 1 } = r' at hin
  cases hin with
  | ok hle ha hn => exact .ok hle ha { hn with depth := congrArg (· - 1) hn.depth }
  | error hle he hn => exact .error hle he { hn with depth := congrArg (· - 1) hn.depth }

/-! ### Elementary steps -/

/-- A new frame is known as that of the scope it is made for. -/
theorem newFrame {e : FrameId} (he : W e = some away) (hinside : Inside away inner)
    {here : Option Nat} :
    Renamed R W here (fun V f f' => f' = f ∧ V f = some inner) (Eval.newFrame e)
      (Eval.newFrame e) := fun _ _ hm => by
  obtain ⟨V, hle, hnew, hheap⟩ := hm.heap.newFrame he hinside
  exact .ok hle ⟨hm.heap.size, hnew⟩ { hm with heap := hheap, place := hle _ _ hm.place }

theorem currentFrame :
    Renamed R W away (fun V f f' => f' = f ∧ V f = some away) Eval.currentFrame
      Eval.currentFrame :=
  fun _ _ hm => .ok (.refl W) ⟨hm.frame, hm.place⟩ hm

theorem defineIn {f : FrameId} (hf : W f = some inner) (name : String) {v v' : Value}
    (hv : v.Renamed R W v') :
    Renamed R W away Any (Eval.defineIn f name v)
      (Eval.defineIn f (R.name inner (some 0) name) v') :=
  fun _ _ hm => .ok (.refl W) trivial { hm with heap := hm.heap.define hf name hv }

/-- A name that a program cannot choose is bound as such. -/
theorem defineReserved {f : FrameId} (hf : W f = some inner) {name : String}
    (hname : Heap.Reserved name) {v v' : Value} (hv : v.Renamed R W v') :
    Renamed R W away Any (Eval.defineIn f name v) (Eval.defineIn f name v') := by
  have h : Renamed R W away Any (Eval.defineIn f name v)
      (Eval.defineIn f (R.name inner (some 0) name) v') := .defineIn hf name hv
  rwa [R.name_reserved hname] at h

theorem define (name : String) {v v' : Value} (hv : v.Renamed R W v') :
    Renamed R W away Any (Eval.define name v) (Eval.define (R.name away (some 0) name) v') :=
  fun m m' hm => by
    show EndRenamed R W away Any (Eval.defineIn m.frame name v m)
      (Eval.defineIn m'.frame (R.name away (some 0) name) v' m')
    rw [hm.frame]
    exact defineIn hm.place name hv m m' hm

theorem defineParameters {f : FrameId} (hf : W f = some inner) {ps : List Token}
    (hp : ∀ p ∈ ps, inner ≠ none → p.lexeme ≠ R.new) {vs vs' : List Value}
    (hv : List.Forall₂ (Value.Renamed R W) vs vs') :
    Renamed R W away Any (Eval.defineParameters f ps vs)
      (Eval.defineParameters f (ps.map (R.declare inner)) vs') := by
  have hzip : List.Forall₂
      (fun p p' => p'.1 = R.name inner (some 0) p.1 ∧ Value.Renamed R W p.2 p'.2)
      ((ps.map Token.lexeme).zip vs) (((ps.map (R.declare inner)).map Token.lexeme).zip vs') := by
    induction hv generalizing ps with
    | nil => simp
    | cons hv _ ih =>
      cases ps with
      | nil => exact .nil
      | cons p ps =>
        exact .cons ⟨R.lexeme_declare (hp p (.head _)), hv⟩ (ih fun q hq => hp q (.tail _ hq))
  intro m m' hm
  exact .ok (.refl W) trivial { hm with heap := hm.heap.defineAll hf hzip }

/-- An undefined variable is reported under its own name. -/
theorem undefined (id : Nat) (name : Token) :
    Renamed R W away Q
      (Eval.fail name.line (.undefinedVariable name.lexeme) : Eval α)
      (Eval.fail (R.use away id name).line (.undefinedVariable (R.use away id name).lexeme)) := by
  rw [Renaming.use]
  split
  · rename_i h
    rw [h.2.2]
    exact fun _ _ hm => .error (.refl W) (.undefined name.line) hm
  · exact .fail _ _

theorem readVariable (id : Nat) {name : Token} (hn : away ≠ none → name.lexeme ≠ R.new) :
    Renamed R W away (Value.Renamed R) (Eval.readVariable id name)
      (Eval.readVariable id (R.use away id name)) := by
  intro m m' hm
  have h := hm.lookup? id name.lexeme
  rw [← R.lexeme_use id hn] at h
  rw [readVariable_eq, readVariable_eq]
  generalize m.lookup? id name.lexeme = v at h
  generalize m'.lookup? id (R.use away id name).lexeme = v' at h
  cases h with
  | none => exact undefined id name m m' hm
  | some hv => exact .ok (.refl W) hv hm

/-- `this` is never renamed. -/
theorem readSelf (id : Nat) {keyword : Token}
    (hk : away ≠ none → keyword.lexeme ≠ R.old ∧ keyword.lexeme ≠ R.new) :
    Renamed R W away (Value.Renamed R) (Eval.readVariable id keyword)
      (Eval.readVariable id keyword) := by
  have h := readVariable (R := R) (W := W) id fun haway => (hk haway).2
  by_cases haway : away = none
  · subst haway
    rwa [R.use_none] at h
  · rwa [R.use_of_ne away id (hk haway).1] at h

theorem writeVariable (id : Nat) {name : Token} (hn : away ≠ none → name.lexeme ≠ R.new)
    {v v' : Value} (hv : v.Renamed R W v') :
    Renamed R W away Any (Eval.writeVariable id name v)
      (Eval.writeVariable id (R.use away id name) v') := by
  intro m m' hm
  have hholder := hm.holder?_eq id name.lexeme
  rw [← R.lexeme_use id hn] at hholder
  cases hf : m.holder? id name.lexeme with
  | none =>
    rw [writeVariable_of_none hf, writeVariable_of_none (hholder.trans hf)]
    exact undefined id name m m' hm
  | some f =>
    obtain ⟨mark, hmark, hname⟩ := hm.name_holder hf
    rw [writeVariable_of_some hf, writeVariable_of_some (hholder.trans hf), R.lexeme_use id hn,
      ← hname]
    exact .ok (.refl W) trivial { hm with heap := hm.heap.define hmark name.lexeme hv }

theorem newFunction {c c' : Closure} (hc : c.RenamedFunction R W c') :
    Renamed R W away (Value.Renamed R) (Eval.newFunction c) (Eval.newFunction c') :=
  fun m m' hm => by
    have hv : (Value.function m.heap.nextIdentity c).Renamed R W
        (.function m'.heap.nextIdentity c') := hm.heap.identity ▸ .function hc
    exact .ok (.refl W) hv { hm with heap := hm.heap.newIdentity }

theorem newObject : Renamed R W away (fun _ o o' => o' = o) Eval.newObject Eval.newObject :=
  fun _ _ hm => .ok (.refl W) hm.heap.objects { hm with heap := hm.heap.newObject }

theorem setField (object : Nat) (name : String) {v v' : Value} (hv : v.Renamed R W v') :
    Renamed R W away Any (Eval.setField object name v) (Eval.setField object name v') :=
  fun _ _ hm => .ok (.refl W) trivial { hm with heap := hm.heap.setField object name hv }

theorem readClock : Renamed R W away (Value.Renamed R) Eval.readClock Eval.readClock :=
  fun m m' hm => by
    have hv : (Value.number (m.clock m.readings)).Renamed R W
        (.number (m'.clock m'.readings)) := by
      rw [hm.clock, hm.readings]
      exact .number _
    exact .ok (.refl W) hv { hm with readings := congrArg (· + 1) hm.readings }

theorem print (text : String) : Renamed R W away Any (Eval.print text) (Eval.print text) := by
  intro m m' hm
  unfold Eval.print
  rw [hm.sink]
  dsimp only
  cases (m.sink.write text).1 with
  | true => exact .ok (.refl W) trivial { hm with sink := rfl }
  | false => exact .error (.refl W) (.same _) { hm with sink := rfl }

theorem flush : Renamed R W away Any Eval.flush Eval.flush := by
  intro m m' hm
  have hf : m'.sink.flushFails = m.sink.flushFails := by rw [hm.sink]
  rw [Eval.flush, Eval.flush, hf]
  cases m.sink.flushFails with
  | true => exact .error (.refl W) (.same _) { hm with sink := hm.sink }
  | false => exact .ok (.refl W) trivial { hm with sink := hm.sink }

/-! ### Methods and properties -/

theorem boundClosure {method method' : Closure} (hm : method.RenamedMethod R W method')
    (object : Nat) {c c' : Class} (hc : c.Renamed R W c') :
    Renamed R W away (Closure.RenamedFunction R) (Eval.bind method object c)
      (Eval.bind method' object c') := by
  obtain ⟨mark, hmark, hmethod⟩ := hm
  rw [Eval.bind, Eval.bind, hmethod.frame]
  refine .bind (.newFrame hmark (.deeper mark)) fun V hle f f' ⟨hf, hknown⟩ => ?_
  subst hf
  refine .bind (.defineReserved hknown (.inl rfl) (.object (hc.mono hle))) fun U hle' _ _ _ => ?_
  exact .pure ⟨_, hle' _ _ hknown, rfl, hmethod.initializer, hmethod.declaration⟩

theorem boundMethod {method method' : Closure} (hm : method.RenamedMethod R W method')
    (object : Nat) {c c' : Class} (hc : c.Renamed R W c') :
    Renamed R W away (Value.Renamed R) (Eval.boundMethod method object c)
      (Eval.boundMethod method' object c') :=
  .bind (.boundClosure hm object hc) fun _ _ _ _ h => .newFunction h

theorem boundObject {c c' : Closure} (hc : c.RenamedFunction R W c') :
    Renamed R W away (Value.Renamed R) (Eval.boundObject c) (Eval.boundObject c') := by
  obtain ⟨mark, hmark, hc⟩ := hc
  intro m m' hm
  have h := hm.heap.getAt? hmark 0 selfName
  rw [R.name_reserved (.inl rfl)] at h
  rw [Eval.boundObject, Eval.boundObject, hc.frame]
  generalize m.heap.getAt? c.frame 0 selfName = v at h
  generalize m'.heap.getAt? c.frame 0 selfName = v' at h
  cases h with
  | none => exact .ok (.refl W) .nil hm
  | some hv => exact .ok (.refl W) hv hm

theorem getProperty {v v' : Value} (hv : v.Renamed R W v') (name : Token) :
    Renamed R W away (Value.Renamed R) (Eval.getProperty v name) (Eval.getProperty v' name) := by
  intro m m' hm
  cases hv with
  | @object object c c' hc =>
    obtain ⟨hf, hf'⟩ | ⟨w, w', hf, hf', hw⟩ :=
      absent_or_present (hm.heap.fields object name.lexeme)
    · obtain ⟨hn, hn'⟩ | ⟨method, method', hc₁, hc₁', hmethod⟩ :=
        absent_or_present (hc.methods name.lexeme)
      · rw [getProperty_of_none hf hn, getProperty_of_none hf' hn']
        exact .error (.refl W) (.same _) hm
      · rw [getProperty_of_method hf hc₁, getProperty_of_method hf' hc₁']
        exact Renamed.boundMethod hmethod object hc m m' hm
    · rw [getProperty_of_field hf, getProperty_of_field hf']
      exact .ok (.refl W) hw hm
  | _ => exact .error (.refl W) (.same _) hm

/-- What a `super` looks up is there in both or in neither. -/
theorem super? {m m' : Machine} (hm : m.Renamed R W away m') (id : Nat) :
    Option.Rel (fun p p' => Class.Renamed R W p.1 p'.1 ∧ p'.2.1 = p.2.1 ∧
      Class.Renamed R W p.2.2 p'.2.2) (m.super? id) (m'.super? id) := by
  rw [Machine.super?, Machine.super?, hm.distances, hm.frame]
  cases m.distances[id]? with
  | none => exact .none
  | some distance =>
    cases distance with
    | zero => exact .none
    | succ distance =>
      have hsuper := hm.heap.getAt? hm.place (distance + 1) superName
      have hself := hm.heap.getAt? hm.place distance selfName
      rw [R.name_reserved (.inr rfl)] at hsuper
      rw [R.name_reserved (.inl rfl)] at hself
      dsimp only
      generalize m.heap.getAt? m.frame (distance + 1) superName = s at hsuper
      generalize m'.heap.getAt? m.frame (distance + 1) superName = s' at hsuper
      generalize m.heap.getAt? m.frame distance selfName = o at hself
      generalize m'.heap.getAt? m.frame distance selfName = o' at hself
      cases hsuper with
      | none => exact .none
      | some hs =>
        cases hs with
        | cls hc =>
          cases hself with
          | none => exact .none
          | some ho =>
            cases ho with
            | object hd => exact .some ⟨hc, rfl, hd⟩
            | _ => exact .none
        | _ => exact .none

theorem superMethod (id : Nat) (keyword method : Token) :
    Renamed R W away (Value.Renamed R) (Eval.superMethod id keyword method)
      (Eval.superMethod id keyword method) := by
  intro m m' hm
  obtain ⟨h, h'⟩ | ⟨⟨c, o, d⟩, ⟨c', o', d'⟩, h, h', hc, ho, hd⟩ := absent_or_present (super? hm id)
  · rw [superMethod_of_none h, superMethod_of_none h']
    exact .error (.refl W) (.same _) hm
  · obtain rfl : o' = o := ho
    obtain ⟨hf, hf'⟩ | ⟨found, found', hf, hf', hfound⟩ :=
      absent_or_present (hc.methods method.lexeme)
    · rw [superMethod_of_no_method h hf, superMethod_of_no_method h' hf']
      exact .error (.refl W) (.same _) hm
    · rw [superMethod_of_method h hf, superMethod_of_method h' hf']
      exact Renamed.boundMethod hfound o' hd m m' hm

/-! ### Calls -/

section Bodies

variable {body body' : List Stmt → Eval Flow} (hb : BodiesRenamed R body body')
include hb

theorem callFunction {c c' : Closure} (hc : c.RenamedFunction R W c') {vs vs' : List Value}
    (hv : List.Forall₂ (Value.Renamed R W) vs vs') :
    Renamed R W away (Value.Renamed R) (Eval.callFunction body c vs)
      (Eval.callFunction body' c' vs') := by
  have ⟨mark, hmark, hframe, hinitializer, inner, hinside, hdeclaration⟩ := hc
  rw [Eval.callFunction, Eval.callFunction, hframe]
  refine .bind (.newFrame hmark hinside) fun V hle f f' ⟨hf, hknown⟩ => ?_
  subst hf
  obtain ⟨declaration, frame, initializer⟩ := c
  obtain ⟨declaration', frame', initializer'⟩ := c'
  cases hdeclaration with
  | mk hp hss =>
    refine .bind (.defineParameters hknown hp (hv.imp fun _ _ hv => hv.mono hle))
      fun U hle' _ _ _ => ?_
    refine .bind (.inFrame (hle' _ _ hknown) (hb _ _ _ _ hss)) fun T hle'' _ _ hflow => ?_
    refine .ite hinitializer (.boundObject ⟨mark, ?_, ?_⟩) (.pure hflow.value)
    · exact hle'' _ _ (hle' _ _ (hle _ _ hmark))
    · exact ⟨hframe, hinitializer, inner, hinside, .mk hp hss⟩

theorem construct {c c' : Class} (hc : c.Renamed R W c') {vs vs' : List Value}
    (hv : List.Forall₂ (Value.Renamed R W) vs vs') :
    Renamed R W away (Value.Renamed R) (Eval.construct body c vs)
      (Eval.construct body' c' vs') := by
  rw [Eval.construct, Eval.construct]
  refine .bind .newObject fun V hle o o' ho => ?_
  subst ho
  obtain ⟨h, h'⟩ | ⟨method, method', h, h', hm⟩ :=
    absent_or_present ((hc.mono hle).methods Class.initializerName)
  · rw [h, h']
    exact .pure (.object (hc.mono hle))
  · rw [h, h']
    refine .bind (.boundClosure hm o' (hc.mono hle)) fun U hle' _ _ hbound => ?_
    have hle' := hle.trans hle'
    exact .bind (callFunction hb hbound (hv.imp fun _ _ hv => hv.mono hle'))
      fun T hle'' _ _ _ => .pure (.object (hc.mono (hle'.trans hle'')))

theorem invoke {v v' : Value} (hv : v.Renamed R W v') {vs vs' : List Value}
    (hvs : List.Forall₂ (Value.Renamed R W) vs vs') :
    Renamed R W away (Value.Renamed R) (Eval.invoke body v vs) (Eval.invoke body' v' vs') := by
  cases hv with
  | function hc => exact callFunction hb hc hvs
  | cls hc => exact construct hb hc hvs
  | clock => exact .readClock
  | _ => exact .pure .nil

theorem call (paren : Token) {v v' : Value} (hv : v.Renamed R W v') {vs vs' : List Value}
    (hvs : List.Forall₂ (Value.Renamed R W) vs vs') :
    Renamed R W away (Value.Renamed R) (Eval.call body paren v vs)
      (Eval.call body' paren v' vs') := by
  intro m m' hm
  have ha := hv.similar.arity?_eq
  have hlength := hvs.length_eq
  cases h : v.arity? with
  | none =>
    rw [call_of_not_callable h, call_of_not_callable (ha.trans h)]
    exact .error (.refl W) (.same _) hm
  | some arity =>
    by_cases hl : vs.length = arity
    · subst hl
      have h' : v'.arity? = some vs'.length := (ha.trans h).trans (congrArg some hlength)
      rcases Nat.lt_or_ge m.depth maxCallDepth with hd | hd
      · rw [call_of_checked h hd, call_of_checked h' (hm.depth.symm ▸ hd)]
        exact Renamed.oneDeeper (invoke hb hv hvs) m m' hm
      · rw [call_of_too_deep h hd, call_of_too_deep h' (hm.depth.symm ▸ hd)]
        exact .error (.refl W) (.same _) hm
    · rw [call_of_arity_ne h hl, call_of_arity_ne (ha.trans h) (hlength ▸ hl), ← hlength]
      exact .error (.refl W) (.same _) hm

end Bodies

theorem «repeat» {condition condition' : Eval Value} {body body' : Eval Flow}
    (hc : ∀ W, Renamed R W away (Value.Renamed R) condition condition')
    (hb : ∀ W, Renamed R W away (Flow.Renamed R) body body') (rounds : Nat) :
    Renamed R W away (Flow.Renamed R) (Eval.repeat condition body rounds)
      (Eval.repeat condition' body' rounds) := by
  induction rounds generalizing W with
  | zero => exact .throw .outOfFuel
  | succ rounds ih =>
    refine .bind (hc W) fun V _ v v' hv =>
      .ite hv.similar.truthy_eq (.bind (hb V) fun U _ f f' hf => ?_) (.pure .normal)
    cases hf with
    | normal => exact ih
    | returned hv => exact .pure (.returned hv)

/-! ### Classes -/

/-- A class is bound in the current frame, which binds its name already. -/
theorem bindClass {name : Token} (hk : R.Keeps away name) {m m' : Machine}
    (hm : m.Renamed R W away m') (hb : m.heap.Binds m.frame name.lexeme) {c c' : Class}
    (hc : c.Renamed R W c') :
    EndRenamed R W away Any ((do Eval.assign name (← newClass c) : Eval Unit) m)
      ((do Eval.assign name (← newClass c') : Eval Unit) m') := by
  have hbound := hm.heap.bindings m.frame away name.lexeme hm.place
  rw [hk.name_eq] at hbound
  have hb' : m'.heap.Binds m'.frame name.lexeme := by
    rw [Heap.Binds, hm.frame, isSome_eq_of_rel hbound]
    exact hb
  rw [bindClass_of_binds hb, bindClass_of_binds hb', hm.frame, hm.heap.identity]
  have hv : (Value.cls m.heap.nextIdentity c).Renamed R W (.cls m.heap.nextIdentity c') := .cls hc
  have hheap := hm.heap.newIdentity.define hm.place name.lexeme hv
  rw [hk.name_eq] at hheap
  exact .ok (.refl W) trivial { hm with heap := hheap, frame := rfl }

theorem declareBase {name : Token} (hk : R.Keeps away name) {m m' : Machine}
    (hm : m.Renamed R W away m') (hb : m.heap.Binds m.frame name.lexeme) {fs fs' : List Function}
    (hfs : Function.AllRenamed R (away.map (· + 1)) fs fs') :
    EndRenamed R W away Any (Eval.declareClass name fs none m)
      (Eval.declareClass name fs' none m') := by
  have hc : Class.Renamed R W ⟨name.lexeme, none, methodTable fs m.frame⟩
      ⟨name.lexeme, none, methodTable fs' m.frame⟩ :=
    .mk' .none (methodTable_renamed hfs hm.place)
  have h := bindClass hk hm hb hc
  rw [← hm.frame] at h
  nth_rewrite 1 [hm.frame] at h
  exact h

/-- The methods of a class with a superclass are made in a new frame, which binds it. -/
theorem declareDerived {name : Token} (hk : R.Keeps away name) {m m' : Machine}
    (hm : m.Renamed R W away m') (hb : m.heap.Binds m.frame name.lexeme) {fs fs' : List Function}
    (hfs : Function.AllRenamed R (away.map (· + 2)) fs fs') (id : Nat) {c c' : Class}
    (hc : c.Renamed R W c') :
    EndRenamed R W away Any (Eval.declareClass name fs (some (id, c)) m)
      (Eval.declareClass name fs' (some (id, c')) m') := by
  obtain ⟨V, hle, hnew, hframe⟩ := hm.heap.newFrame hm.place (.deeper away)
  have hv : (Value.cls id c).Renamed R V (.cls id c') := .cls (hc.mono hle)
  have hsuper := hframe.define hnew superName hv
  rw [R.name_reserved (.inr rfl)] at hsuper
  have hm₁ : ({ m with heap := m.withSuper id c } : Machine).Renamed R V away
      { m' with heap := m'.withSuper id c' } := by
    refine { hm with heap := ?_, place := hle _ _ hm.place }
    rw [Machine.withSuper, Machine.withSuper, hm.frame, hm.heap.size]
    exact hsuper
  rw [map_deeper away 1] at hfs
  have hclass : Class.Renamed R V ⟨name.lexeme, some c, methodTable fs m.heap.frames.size⟩
      ⟨name.lexeme, some c', methodTable fs' m.heap.frames.size⟩ :=
    .mk' (.some (hc.mono hle)) (methodTable_renamed hfs hnew)
  have hb₁ := (m.extends_withSuper id c).binds _ (Heap.lt_size_of_binds hb) _ hb
  have h := bindClass hk hm₁ hb₁ hclass
  rw [← hm.heap.size] at h
  nth_rewrite 1 [hm.heap.size] at h
  exact h.of_le hle

end Renamed
end Eval

open Eval

/-! ## Trees -/

section Trees

variable {body body' : List Stmt → Eval Flow}

mutual

theorem Expr.renamed_eval (hbody : BodiesRenamed R body body') : (e : Expr) → e.Clear R away →
    {W : Marks} → Eval.Renamed R W away (Value.Renamed R) (e.eval body)
      ((e.rename R away).eval body')
  | .number x, _, _ => .pure (.number x)
  | .string text, _, _ => .pure (.string text)
  | .boolean b, _, _ => .pure (.boolean b)
  | .nil, _, _ => .pure .nil
  | .group inner, hc, _ => inner.renamed_eval hbody hc
  | .unary operator operand, hc, _ =>
    .bind (operand.renamed_eval hbody hc) fun _ _ _ _ hv => by
      rw [hv.similar.unary_eq rfl rfl]
      exact .ofExcept _ fun _ => Value.atomic_of_unary
  | .binary left operator right, hc, _ =>
    .bind (left.renamed_eval hbody hc.1) fun _ _ _ _ ha =>
      .bind (right.renamed_eval hbody hc.2) fun _ _ _ _ hb => by
        rw [ha.similar.binary_eq rfl rfl hb.similar]
        exact .ofExcept _ fun _ => Value.atomic_of_binary
  | .logical left operator right, hc, _ =>
    .bind (left.renamed_eval hbody hc.1) fun _ _ _ _ hv =>
      .ite (hv.similar.decidesLogical_eq rfl) (.pure hv) (right.renamed_eval hbody hc.2)
  | .choice condition thenCase elseCase, hc, _ =>
    .bind (condition.renamed_eval hbody hc.1) fun _ _ _ _ hv =>
      .ite hv.similar.truthy_eq (thenCase.renamed_eval hbody hc.2.1)
        (elseCase.renamed_eval hbody hc.2.2)
  | .comma items, hc, _ => Expr.renamed_evalLast hbody items hc .nil
  | .var id _, hc, _ => .readVariable id hc
  | .assign id _ value, hc, _ => .bind (value.renamed_eval hbody hc.2) fun _ _ _ _ hv =>
    .bind (.writeVariable id hc.1 hv) fun _ hle _ _ _ => .pure (hv.mono hle)
  | .call callee paren arguments, hc, _ =>
    .bind (callee.renamed_eval hbody hc.1) fun _ _ _ _ hv =>
      .bind (Expr.renamed_evalAll hbody arguments hc.2) fun _ hle _ _ hvs =>
        .call hbody paren (hv.mono hle) hvs
  | .get object name, hc, _ => .bind (object.renamed_eval hbody hc) fun _ _ _ _ hv =>
    .getProperty hv name
  | .set object name value, hc, _ => by
    refine .bind (object.renamed_eval hbody hc.1) fun _ _ _ _ ho => ?_
    cases ho with
    | object _ =>
      exact .bind (value.renamed_eval hbody hc.2) fun _ _ _ _ hw =>
        .bind (.setField _ _ hw) fun _ hle _ _ _ => .pure (hw.mono hle)
    | _ => exact .fail _ _
  | .self id _, hc, _ => .readSelf id hc
  | .super id keyword method, _, _ => .superMethod id keyword method

theorem Expr.renamed_evalLast (hbody : BodiesRenamed R body body') : (es : List Expr) →
    Expr.AllClear R away es → {W : Marks} → {v v' : Value} → v.Renamed R W v' →
    Eval.Renamed R W away (Value.Renamed R) (Expr.evalLast body v es)
      (Expr.evalLast body' v' (Expr.renameAll R away es))
  | [], _, _, _, _, hv => .pure hv
  | e :: es, hc, _, _, _, _ => .bind (e.renamed_eval hbody hc.1) fun _ _ _ _ hv =>
    Expr.renamed_evalLast hbody es hc.2 hv

theorem Expr.renamed_evalAll (hbody : BodiesRenamed R body body') : (es : List Expr) →
    Expr.AllClear R away es → {W : Marks} →
    Eval.Renamed R W away (fun V => List.Forall₂ (Value.Renamed R V)) (Expr.evalAll body es)
      (Expr.evalAll body' (Expr.renameAll R away es))
  | [], _, _ => .pure .nil
  | e :: es, hc, _ => .bind (e.renamed_eval hbody hc.1) fun _ _ _ _ hv =>
    .bind (Expr.renamed_evalAll hbody es hc.2) fun _ hle _ _ hvs =>
      .pure (.cons (hv.mono hle) hvs)

end

variable {rounds : Nat}

/-- A class is declared: its name is bound at once, and stays so. -/
theorem Machine.Renamed.bindName {m m' : Machine} (hm : m.Renamed R W away m') {name : Token}
    (hk : R.Keeps away name) :
    ({ m with heap := m.heap.define m.frame name.lexeme .nil } : Machine).Renamed R W away
        { m' with heap := m'.heap.define m'.frame name.lexeme .nil } ∧
      (m.heap.define m.frame name.lexeme .nil).Binds m.frame name.lexeme := by
  have hheap := hm.heap.define hm.place name.lexeme .nil
  rw [hk.name_eq] at hheap
  refine ⟨{ hm with heap := ?_ }, Heap.binds_define (hm.heap.known _ _ hm.place) _ _⟩
  rw [hm.frame]
  exact hheap

theorem Stmt.renamed_base {name : Token} {fs fs' : List Function} (hk : R.Keeps away name)
    (hfs : Function.AllRenamed R (away.map (· + 1)) fs fs') :
    Eval.Renamed R W away (Flow.Renamed R) ((Stmt.classDecl name none fs).exec body rounds)
      ((Stmt.classDecl name none fs').exec body' rounds) := by
  intro m m' hm
  obtain ⟨hm₁, hb⟩ := hm.bindName hk
  have h := Renamed.goOn (Renamed.declareBase hk hm₁ hb hfs)
  exact h

/-- The superclass is a variable, so reading it leaves the machine as it is. -/
theorem Stmt.renamed_derived {name word : Token} {id : Nat} {fs fs' : List Function}
    (hk : R.Keeps away name) (hn : away ≠ none → word.lexeme ≠ R.new)
    (hfs : Function.AllRenamed R (away.map (· + 2)) fs fs') :
    Eval.Renamed R W away (Flow.Renamed R)
      ((Stmt.classDecl name (some (.var id word)) fs).exec body rounds)
      ((Stmt.classDecl name (some (.var id (R.use away id word))) fs').exec body' rounds) := by
  intro m m' hm
  obtain ⟨hm₁, hb⟩ := hm.bindName hk
  have hsuper := hm₁.lookup? id word.lexeme
  rw [← R.lexeme_use id hn] at hsuper
  obtain ⟨h, h'⟩ | ⟨v, v', h, h', hv⟩ := absent_or_present hsuper
  · have hrun : (Stmt.classDecl name (some (.var id word)) fs).exec body rounds m = _ :=
      (bind_of_ok rfl).trans (bind_of_error (readVariable_of_none h))
    have hrun' : (Stmt.classDecl name (some (.var id (R.use away id word))) fs').exec body' rounds
        m' = _ := (bind_of_ok rfl).trans (bind_of_error (readVariable_of_none h'))
    rw [hrun, hrun']
    exact Renamed.undefined (Q := Flow.Renamed R) id word _ _ hm₁
  · have hrun : (Stmt.classDecl name (some (.var id word)) fs).exec body rounds m = _ :=
      (bind_of_ok rfl).trans (bind_of_ok (readVariable_of_some h))
    have hrun' : (Stmt.classDecl name (some (.var id (R.use away id word))) fs').exec body' rounds
        m' = _ := (bind_of_ok rfl).trans (bind_of_ok (readVariable_of_some h'))
    rw [hrun, hrun', show (Expr.var id (R.use away id word)).line? = some word.line from
      congrArg some (R.line_use away id word)]
    cases hv with
    | @cls identity _ _ hc =>
      have h := Renamed.goOn (Renamed.declareDerived hk hm₁ hb hfs identity hc)
      exact h
    | _ => exact .error (.refl W) (.same _) hm₁

mutual

theorem Stmt.Renamed.exec (hbody : BodiesRenamed R body body') : {s s' : Stmt} →
    {away : Option Nat} → {W : Marks} → s.Renamed R away s' →
    Eval.Renamed R W away (Flow.Renamed R) (s.exec body rounds) (s'.exec body' rounds)
  | _, _, _, _, .expression (e := e) hc => .bind (e.renamed_eval hbody hc) fun _ _ _ _ _ =>
    .pure .normal
  | _, _, _, _, .print (e := e) hc => .bind (e.renamed_eval hbody hc) fun _ _ _ _ hv => by
    rw [hv.similar.display_eq]
    exact .bind (.print _) fun _ _ _ _ _ => .pure .normal
  | _, _, _, _, .declare hn => by
    rw [Stmt.exec, Stmt.exec, R.lexeme_declare hn]
    exact .bind (.define _ .nil) fun _ _ _ _ _ => .pure .normal
  | _, _, _, _, .initialized (e := e) hn hc => by
    rw [Stmt.exec, Stmt.exec, R.lexeme_declare hn]
    exact .bind (e.renamed_eval hbody hc) fun _ _ _ _ hv =>
      .bind (.define _ hv) fun _ _ _ _ _ => .pure .normal
  | _, _, _, _, .block hinside hs => .bind .currentFrame fun _ _ e e' ⟨he, hplace⟩ => by
    subst he
    refine .bind (.newFrame hplace hinside) fun _ _ f f' ⟨hf, hknown⟩ => ?_
    subst hf
    exact .inFrame hknown (hs.execAll hbody)
  | _, _, _, _, .ifThen (c := c) hc h => .bind (c.renamed_eval hbody hc) fun _ _ _ _ hv =>
    .ite hv.similar.truthy_eq (h.exec hbody) (.pure .normal)
  | _, _, _, _, .ifElse (c := c) hc ha hb => .bind (c.renamed_eval hbody hc) fun _ _ _ _ hv =>
    .ite hv.similar.truthy_eq (ha.exec hbody) (hb.exec hbody)
  | _, _, _, _, .loop (c := c) hc h =>
    .repeat (fun _ => c.renamed_eval hbody hc) (fun _ => h.exec hbody) rounds
  | _, _, _, _, .function hk hinside hd => .bind .currentFrame fun _ _ e e' ⟨he, hplace⟩ => by
    subst he
    have hname := hk.name_eq
    refine .bind (.newFunction ⟨_, hplace, rfl, rfl, _, hinside, hd⟩) fun _ _ _ _ hv => ?_
    rw [hd.name_eq]
    nth_rewrite 2 [← hname]
    exact .bind (.define _ hv) fun _ _ _ _ _ => .pure .normal
  | _, _, _, _, .leave => .pure (.returned .nil)
  | _, _, _, _, .yield (e := e) hc => .bind (e.renamed_eval hbody hc) fun _ _ _ _ hv =>
    .pure (.returned hv)
  | _, _, _, _, .base hk hfs => Stmt.renamed_base hk hfs
  | _, _, _, _, .derived hk hn hfs => Stmt.renamed_derived hk hn hfs

theorem Stmt.AllRenamed.execAll (hbody : BodiesRenamed R body body') : {ss ss' : List Stmt} →
    {away : Option Nat} → {W : Marks} → Stmt.AllRenamed R away ss ss' →
    Eval.Renamed R W away (Flow.Renamed R) (Stmt.execAll body rounds ss)
      (Stmt.execAll body' rounds ss')
  | _, _, _, _, .nil => .pure .normal
  | _, _, _, _, .cons h hs => .bind (h.exec hbody) fun _ _ _ _ hf => by
    cases hf with
    | normal => exact hs.execAll hbody
    | returned hv => exact .pure (.returned hv)

end

end Trees

/-- Bodies are run so at every level. -/
theorem bodiesRenamed_runBody (rounds levels : Nat) :
    BodiesRenamed R (runBody rounds levels) (runBody rounds levels) := by
  induction levels with
  | zero => exact fun _ _ _ _ _ => .throw .outOfFuel
  | succ levels ih => exact fun _ _ _ _ h => h.execAll ih

/-- A renamed program is run like the program. -/
theorem Stmt.AllRenamed.interpret (rounds : Nat) {ss ss' : List Stmt}
    (h : Stmt.AllRenamed R away ss ss') :
    Eval.Renamed R W away Any (Lox.interpret rounds ss) (Lox.interpret rounds ss') :=
  .bind (h.execAll (bodiesRenamed_runBody rounds callLevels)) fun _ _ _ _ _ => .flush

end Lox
