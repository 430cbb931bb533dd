import Lox.Proofs.Eval.Methods
import Lox.Proofs.Heap.All
import Lox.Proofs.Heap.LoopFree

/-
  Traits — what code passes on to all that it makes

  A trait of code is handed from a tree to whatever is evaluated in its course, and by
  declarations to the functions and methods that they make. So if all code that is ever
  begun has it, all code that is ever called has it (`Bearing.enters`).

  With it goes what every value is known for: an object is one that was made, and a
  bound initializer lies in a frame that was made for `this`.
-/

namespace Lox

open Eval
open Bool (eq_false_or_eq_true)

/-- A property of code. That of a function or method may depend on whether it yields
its object. -/
structure Trait where
  code : Task → Prop
  routine : Bool → Function → Prop
  entered : ∀ {rounds : Nat} {t t' : Task} {m m' : Machine}, Enters rounds t m t' m' →
    t.Code → t'.Code → code t → code t'
  body : ∀ {initializer : Bool} {d : Function}, routine initializer d → code (.stmts d.body)
  function : ∀ {d : Function}, code (.stmt (.function d)) → routine false d
  method : ∀ {name : Token} {superclass : Option Expr} {methods : List Function} {d : Function},
    code (.stmt (.classDecl name superclass methods)) → d ∈ methods →
    routine (d.name.lexeme == Class.initializerName) d

/-- The trait that all code has. -/
def Trait.any : Trait where
  code _ := True
  routine _ _ := True
  entered _ _ _ _ := trivial
  body _ := trivial
  function _ := trivial
  method _ _ := trivial

section

variable (T : Trait) (made : FrameId → Opener → Prop)

/-- A value among `n` objects: what it offers has the trait. -/
structure Value.Bears (n : Nat) (v : Value) : Prop where
  offers : ∀ k, v.Offers k → T.routine k.initializer k.declaration
  bound : ∀ id k, v = .function id k → k.initializer = true → made k.frame .self
  object : ∀ id c, v = .object id c → id < n

def Value.AllBear (n : Nat) (vs : List Value) : Prop := ∀ v ∈ vs, v.Bears T made n

def Heap.Bears (h : Heap) : Prop := h.All (Value.Bears T made h.objects.size)

/-- The values that a task begins with. -/
def Task.values : Task → List Value
  | items last _ => [last]
  | call _ callee arguments | invoke callee arguments => callee :: arguments
  | function closure arguments => .function 0 closure :: arguments
  | _ => []

/-- A task and a heap that have the trait. -/
structure Bearing (t : Task) (m : Machine) : Prop where
  heap : m.heap.Bears T made
  code : t.Code → T.code t
  values : Value.AllBear T made m.heap.objects.size t.values

def Flow.values : Flow → List Value
  | normal => []
  | returned v => [v]

/-- The values that a task ends with. -/
def Task.results : (t : Task) → t.Result → List Value
  | expr _, v | items _ _, v | call _ _ _, v | invoke _ _, v | function _ _, v => [v]
  | operands _, vs => vs
  | stmt _, flow | stmts _, flow | loop _ _ _, flow => Flow.values flow

/-- However the step ends, there are as many objects as before, or more, and the heap has the
trait; its result is as promised. -/
def Eval.Upholds {α : Type} (x : Eval α) (m : Machine) (Q : Nat → α → Prop) : Prop :=
  match x m with
  | .ok a m' => m.heap.objects.size ≤ m'.heap.objects.size ∧ m'.heap.Bears T made ∧
    Q m'.heap.objects.size a
  | .error _ m' => m.heap.objects.size ≤ m'.heap.objects.size ∧ m'.heap.Bears T made

end

variable {T : Trait} {made : FrameId → Opener → Prop} {rounds : Nat}

/-! ## Values and heaps -/

namespace Value

variable {n n' id object : Nat} {v : Value} {c : Class} {k : Closure}

theorem Bears.mono (hv : v.Bears T made n) (hn : n ≤ n') : v.Bears T made n' :=
  ⟨hv.offers, hv.bound, fun id c h => Nat.lt_of_lt_of_le (hv.object id c h) hn⟩

theorem AllBear.mono {vs : List Value} (hvs : AllBear T made n vs) (hn : n ≤ n') :
    AllBear T made n' vs := fun v hm => (hvs v hm).mono hn

/-- Values that are not functions, classes or objects. -/
def Inert : Value → Prop
  | .function _ _ | .cls _ _ | .object _ _ => False
  | _ => True

theorem Inert.bears (hv : v.Inert) : v.Bears T made n := by
  cases v with
  | function _ _ | cls _ _ | object _ _ => exact hv.elim
  | _ =>
    refine ⟨fun _ hk => hk.elim, ?_, ?_⟩
    · rintro _ _ ⟨⟩
    · rintro _ _ ⟨⟩

theorem bears_nil : Value.nil.Bears T made n := Inert.bears trivial

theorem Atomic.bears (hv : v.Atomic) : v.Bears T made n := by
  cases v with
  | boolean _ | number _ | string _ => exact Inert.bears trivial
  | _ => exact hv.elim

theorem bears_function (hk : T.routine k.initializer k.declaration)
    (hbound : k.initializer = true → made k.frame .self) :
    (Value.function id k).Bears T made n := by
  refine ⟨?_, ?_, ?_⟩
  · rintro _ rfl
    exact hk
  · rintro _ _ ⟨⟩
    exact hbound
  · rintro _ _ ⟨⟩

theorem Bears.toObject (hc : (Value.cls id c).Bears T made n) (ho : object < n) :
    (Value.object object c).Bears T made n := by
  refine ⟨hc.offers, ?_, ?_⟩
  · rintro _ _ ⟨⟩
  · rintro _ _ ⟨⟩
    exact ho

theorem Bears.method (hc : (Value.cls id c).Bears T made n) {name : String}
    (hm : c.findMethod? name = some k) : T.routine k.initializer k.declaration :=
  hc.offers k ⟨name, hm⟩

/-- A class has the trait if its declaration has, and the class that it extends. -/
theorem bears_declared {name : Token} {superclass : Option Expr} {methods : List Function}
    {extended : Option Class} {f : FrameId}
    (hcode : T.code (.stmt (.classDecl name superclass methods)))
    (hextended : ∀ c ∈ extended, ∃ i, (Value.cls i c).Bears T made n) :
    (Value.cls id ⟨name.lexeme, extended, methodTable methods f⟩).Bears T made n := by
  have hown : ∀ x k, (methodTable methods f).lookup x = some k →
      T.routine k.initializer k.declaration := by
    intro x k hk
    obtain ⟨before, d, after, rfl, -, rfl, -⟩ := Class.lookup_methodTable_of_some hk
    exact T.method hcode (List.mem_append_right _ (.head _))
  refine ⟨?_, ?_, ?_⟩
  · rintro k ⟨x, hk⟩
    cases extended with
    | none => exact hown x k hk
    | some c =>
      obtain ⟨i, hc⟩ := hextended c rfl
      rw [Class.findMethod?] at hk
      split at hk
      · rename_i own hl
        cases hk
        exact hown x _ hl
      · exact hc.method hk
  · rintro _ _ ⟨⟩
  · rintro _ _ ⟨⟩

end Value

namespace Heap

variable {h : Heap}

theorem objects_defineAll (h : Heap) (f : FrameId) (values : List (String × Value)) :
    (h.defineAll f values).objects = h.objects := by
  induction values generalizing h with
  | nil => rfl
  | cons entry rest ih => exact ih (h.define f entry.1 entry.2)

theorem size_objects_setField (h : Heap) (object : Nat) (name : String) (v : Value) :
    (h.setField object name v).objects.size = h.objects.size := by
  simp [setField]

theorem size_objects_newObject (h : Heap) : h.newObject.2.objects.size = h.objects.size + 1 := by
  simp [newObject]

namespace Bears

theorem define (hh : h.Bears T made) (f : FrameId) (name : String) {v : Value}
    (hv : v.Bears T made h.objects.size) : (h.define f name v).Bears T made :=
  All.define hh f name hv

theorem defineAll (hh : h.Bears T made) (f : FrameId) {values : List (String × Value)}
    (hv : Value.AllBear T made h.objects.size (values.map Prod.snd)) :
    (h.defineAll f values).Bears T made := by
  rw [Heap.Bears, objects_defineAll]
  exact All.defineAll hh f hv

theorem newFrame (hh : h.Bears T made) (e : Option FrameId) : (h.newFrame e).2.Bears T made :=
  All.newFrame hh e

theorem setField (hh : h.Bears T made) (object : Nat) (name : String) {v : Value}
    (hv : v.Bears T made h.objects.size) : (h.setField object name v).Bears T made := by
  rw [Heap.Bears, size_objects_setField]
  exact All.setField hh object name hv

theorem newObject (hh : h.Bears T made) : h.newObject.2.Bears T made := by
  rw [Heap.Bears, size_objects_newObject]
  exact (All.newObject hh).mono fun v hv => hv.mono (Nat.le_succ _)

theorem newIdentity (hh : h.Bears T made) : h.newIdentity.2.Bears T made := All.newIdentity hh

theorem lookup? {m : Machine} (hh : m.heap.Bears T made) {id : Nat} {name : String} {v : Value}
    (hv : m.lookup? id name = some v) : v.Bears T made m.heap.objects.size := by
  rw [Machine.lookup?] at hv
  split at hv
  · exact hh.getAt? hv
  · exact hh.get? hv

end Bears
end Heap

/-! ## Steps that uphold a trait -/

namespace Eval.Upholds

variable {α β : Type} {x : Eval α} {m m' n : Machine} {Q : Nat → α → Prop}

theorem of_ok (h : Upholds T made x m Q) {a : α} (hx : x m = .ok a m') :
    m.heap.objects.size ≤ m'.heap.objects.size ∧ m'.heap.Bears T made ∧
      Q m'.heap.objects.size a := by
  rwa [Upholds, hx] at h

theorem of_error (h : Upholds T made x m Q) {e : Halt RuntimeError} (hx : x m = .error e m') :
    m.heap.objects.size ≤ m'.heap.objects.size ∧ m'.heap.Bears T made := by
  rwa [Upholds, hx] at h

theorem after (h : Upholds T made x m Q) :
    m.heap.objects.size ≤ (x.after m).heap.objects.size ∧ (x.after m).heap.Bears T made := by
  cases hx : x m with
  | ok a m₁ =>
    rw [after_of_ok hx]
    obtain ⟨hsize, hh, -⟩ := h.of_ok hx
    exact ⟨hsize, hh⟩
  | error e m₁ =>
    rw [after_of_error hx]
    exact h.of_error hx

theorem intro_ok {a : α} (hx : x m = .ok a n)
    (hsize : m.heap.objects.size ≤ n.heap.objects.size) (hh : n.heap.Bears T made)
    (hq : Q n.heap.objects.size a) : Upholds T made x m Q := by
  rw [Upholds, hx]
  exact ⟨hsize, hh, hq⟩

theorem intro_error {e : Halt RuntimeError} (hx : x m = .error e n)
    (hsize : m.heap.objects.size ≤ n.heap.objects.size) (hh : n.heap.Bears T made) :
    Upholds T made x m Q := by
  rw [Upholds, hx]
  exact ⟨hsize, hh⟩

theorem pure {a : α} (hh : m.heap.Bears T made) (hq : Q m.heap.objects.size a) :
    Upholds T made (Pure.pure a : Eval α) m Q := intro_ok rfl (Nat.le_refl _) hh hq

theorem throw {e : Halt RuntimeError} (hh : m.heap.Bears T made) :
    Upholds T made (MonadExcept.throw e : Eval α) m Q := intro_error rfl (Nat.le_refl _) hh

/-- A step that goes on as another one does, when there are more objects. -/
theorem of_le {y : Eval α} (hxy : x m = y n)
    (hsize : m.heap.objects.size ≤ n.heap.objects.size) (h : Upholds T made y n Q) :
    Upholds T made x m Q := by
  cases hy : y n with
  | ok a m₁ =>
    obtain ⟨hsize₁, hh, hq⟩ := h.of_ok hy
    exact intro_ok (hxy.trans hy) (Nat.le_trans hsize hsize₁) hh hq
  | error e m₁ =>
    obtain ⟨hsize₁, hh⟩ := h.of_error hy
    exact intro_error (hxy.trans hy) (Nat.le_trans hsize hsize₁) hh

theorem congr {y : Eval α} (hxy : x m = y m) (h : Upholds T made y m Q) : Upholds T made x m Q :=
  of_le hxy (Nat.le_refl _) h

theorem mono {P : Nat → α → Prop} (h : Upholds T made x m P)
    (hpq : ∀ n a, m.heap.objects.size ≤ n → P n a → Q n a) : Upholds T made x m Q := by
  cases hx : x m with
  | ok a m₁ =>
    obtain ⟨hsize, hh, hp⟩ := h.of_ok hx
    exact intro_ok hx hsize hh (hpq _ a hsize hp)
  | error e m₁ =>
    obtain ⟨hsize, hh⟩ := h.of_error hx
    exact intro_error hx hsize hh

theorem bind {f : α → Eval β} {R : Nat → β → Prop} (hx : Upholds T made x m Q)
    (hf : ∀ a m₁, x m = .ok a m₁ → m.heap.objects.size ≤ m₁.heap.objects.size →
      m₁.heap.Bears T made → Q m₁.heap.objects.size a → Upholds T made (f a) m₁ R) :
    Upholds T made (x >>= f) m R := by
  cases h : x m with
  | ok a m₁ =>
    obtain ⟨hsize, hh, hq⟩ := hx.of_ok h
    exact of_le (bind_of_ok h) hsize (hf a m₁ h hsize hh hq)
  | error e m₁ =>
    obtain ⟨hsize, hh⟩ := hx.of_error h
    exact intro_error (bind_of_error h) hsize hh

theorem ofExcept {line : Nat} {r : Except RuntimeProblem α} (hh : m.heap.Bears T made)
    (hq : ∀ a, r = .ok a → Q m.heap.objects.size a) :
    Upholds T made (Eval.ofExcept line r) m Q := by
  cases r with
  | ok a => exact pure hh (hq a rfl)
  | error problem => exact throw hh

theorem oneDeeper (h : Upholds T made x { m with depth := m.depth + 1 } Q) :
    Upholds T made (Eval.oneDeeper x) m Q := by
  cases hx : x { m with depth := m.depth + 1 } with
  | ok a m₁ =>
    obtain ⟨hsize, hh, hq⟩ := h.of_ok hx
    exact intro_ok (oneDeeper_of_ok hx) hsize hh hq
  | error e m₁ =>
    obtain ⟨hsize, hh⟩ := h.of_error hx
    exact intro_error (oneDeeper_of_error hx) hsize hh

/-! ### Elementary steps -/

theorem readVariable (hh : m.heap.Bears T made) (id : Nat) (name : Token) :
    Upholds T made (Eval.readVariable id name) m fun n v => v.Bears T made n := by
  cases hv : m.lookup? id name.lexeme with
  | some v => exact intro_ok (readVariable_of_some hv) (Nat.le_refl _) hh (hh.lookup? hv)
  | none => exact intro_error (readVariable_of_none hv) (Nat.le_refl _) hh

theorem writeVariable (hh : m.heap.Bears T made) (id : Nat) (name : Token) {v : Value}
    (hv : v.Bears T made m.heap.objects.size) :
    Upholds T made (Eval.writeVariable id name v) m fun _ _ => True := by
  cases hf : m.holder? id name.lexeme with
  | some f => exact intro_ok (writeVariable_of_some hf) (Nat.le_refl _) (hh.define f _ hv) trivial
  | none => exact intro_error (writeVariable_of_none hf) (Nat.le_refl _) hh

theorem assign (hh : m.heap.Bears T made) (name : Token) {v : Value}
    (hv : v.Bears T made m.heap.objects.size) :
    Upholds T made (Eval.assign name v) m fun _ _ => True := by
  refine congr (y := assignIn (m.heap.holder? m.frame name.lexeme) name v) rfl ?_
  cases m.heap.holder? m.frame name.lexeme with
  | some f => exact intro_ok rfl (Nat.le_refl _) (hh.define f _ hv) trivial
  | none => exact throw hh

theorem setField (hh : m.heap.Bears T made) (object : Nat) (name : String) {v : Value}
    (hv : v.Bears T made m.heap.objects.size) :
    Upholds T made (Eval.setField object name v) m fun _ _ => True :=
  intro_ok rfl (Nat.le_of_eq (Heap.size_objects_setField ..).symm) (hh.setField object name hv)
    trivial

theorem print (hh : m.heap.Bears T made) (text : String) :
    Upholds T made (Eval.print text) m fun _ _ => True := by
  cases hw : (m.sink.write text).1 with
  | true => exact intro_ok (print_of_true hw) (Nat.le_refl _) hh trivial
  | false => exact intro_error (print_of_false hw) (Nat.le_refl _) hh

/-- A method that is bound lies in the frame that is made for its object. -/
theorem boundMethod (hh : m.heap.Bears T made) {method : Closure} {object : Nat} {c : Class}
    (hmethod : T.routine method.initializer method.declaration)
    (ho : (Value.object object c).Bears T made m.heap.objects.size)
    (hmade : made m.heap.frames.size .self) :
    Upholds T made (Eval.boundMethod method object c) m fun n v => v.Bears T made n :=
  intro_ok rfl (Nat.le_refl _) (((hh.newFrame _).define _ _ ho).newIdentity)
    (Value.bears_function hmethod fun _ => hmade)

theorem getProperty (hh : m.heap.Bears T made) {v : Value}
    (hv : v.Bears T made m.heap.objects.size) (name : Token)
    (hmade : ∀ id c method, v = .object id c → (m.heap.fields id).find? name.lexeme = none →
      c.findMethod? name.lexeme = some method → made m.heap.frames.size .self) :
    Upholds T made (Eval.getProperty v name) m fun n v => v.Bears T made n := by
  cases v with
  | object id c =>
    cases hf : (m.heap.fields id).find? name.lexeme with
    | some w =>
      exact intro_ok (getProperty_of_field hf) (Nat.le_refl _) hh (hh.fields id _ w hf)
    | none =>
      cases hc : c.findMethod? name.lexeme with
      | some method =>
        refine congr (getProperty_of_method hf hc) (boundMethod hh ?_ hv ?_)
        · exact hv.offers method ⟨_, hc⟩
        · exact hmade id c method rfl hf hc
      | none => exact intro_error (getProperty_of_none hf hc) (Nat.le_refl _) hh
  | _ => exact throw hh

theorem superMethod (hh : m.heap.Bears T made) (id : Nat) (keyword method : Token)
    (hmade : ∀ superclass object c found, m.super? id = some (superclass, object, c) →
      superclass.findMethod? method.lexeme = some found → made m.heap.frames.size .self) :
    Upholds T made (Eval.superMethod id keyword method) m fun n v => v.Bears T made n := by
  cases hs : m.super? id with
  | none => exact intro_error (superMethod_of_none hs) (Nat.le_refl _) hh
  | some found =>
    obtain ⟨superclass, object, c⟩ := found
    obtain ⟨distance, i, -, hsuper, hself⟩ := Machine.super?_eq_some hs
    have hsuperclass := hh.getAt? hsuper
    have hobject := hh.getAt? hself
    cases hc : superclass.findMethod? method.lexeme with
    | some found =>
      refine congr (superMethod_of_method hs hc) (boundMethod hh ?_ hobject ?_)
      · exact hsuperclass.method hc
      · exact hmade superclass object c found hs hc
    | none => exact intro_error (superMethod_of_no_method hs hc) (Nat.le_refl _) hh

/-- A class is made and bound to its name. -/
theorem bindClass (hh : m.heap.Bears T made) (name : Token) {c : Class}
    (hc : ∀ id, (Value.cls id c).Bears T made m.heap.objects.size) :
    Upholds T made (do Eval.assign name (← Eval.newClass c)) m fun _ _ => True :=
  .bind (Q := fun n v => v.Bears T made n)
    (intro_ok rfl (Nat.le_refl _) hh.newIdentity (hc _)) fun _ _ _ _ hh hv => .assign hh name hv

theorem declareClass (hh : m.heap.Bears T made) {name : Token} {superclass : Option Expr}
    {methods : List Function} (hcode : T.code (.stmt (.classDecl name superclass methods)))
    {extended : Option (Nat × Class)}
    (hextended : ∀ found ∈ extended,
      (Value.cls found.1 found.2).Bears T made m.heap.objects.size) :
    Upholds T made (Eval.declareClass name methods extended) m fun _ _ => True := by
  cases extended with
  | none =>
    refine .of_le (bind_of_ok rfl) (Nat.le_refl _)
      (.bindClass hh name fun _ => Value.bears_declared hcode ?_)
    rintro _ ⟨⟩
  | some found =>
    obtain ⟨id, c⟩ := found
    have hc := hextended _ rfl
    refine .of_le ((bind_of_ok rfl).trans ((bind_of_ok rfl).trans (bind_of_ok rfl)))
      (Nat.le_refl _) (.bindClass (m := { m with heap := m.withSuper id c }) ?_ name fun _ => ?_)
    · exact (hh.newFrame _).define _ _ hc
    · refine Value.bears_declared hcode ?_
      rintro _ ⟨⟩
      exact ⟨id, hc⟩

end Eval.Upholds

end Lox
