import Lox.Proofs.Eval.Failure
import Lox.Proofs.Scope.Fine
import Lox.Proofs.Scope.Fit

/-
  Safe steps — heaps that go on fitting

  A step is safe if, however it ends, the heap has grown and fits, and its result
  is what was promised. Safe steps can be put one after another, and everything
  that the evaluator does by itself is safe, provided that the frames it makes
  are known to be made for their constructs (`Creates`).
-/

namespace Lox

open Eval

/-- `Creates rounds t m f o`: the task `t`, begun with `m`, by itself makes the frame `f`
for the construct `o`. -/
inductive Creates (rounds : Nat) : Task → Machine → FrameId → Opener → Prop
  | block {body : List Stmt} {m : Machine} :
      Creates rounds (.stmt (.block body)) m m.heap.frames.size (.block body)
  | function {closure : Closure} {arguments : List Value} {m : Machine} :
      Creates rounds (.function closure arguments) m m.heap.frames.size
        (.function closure.declaration)
  /-- a method that is got from an object is bound to it -/
  | property {object : Expr} {name : Token} {m m₁ : Machine} {id : Nat} {c : Class}
      {method : Closure} :
      evaluate rounds object m = .ok (.object id c) m₁ →
      (m₁.heap.fields id).find? name.lexeme = none → c.findMethod? name.lexeme = some method →
      Creates rounds (.expr (.get object name)) m m₁.heap.frames.size .self
  | superMethod {id object : Nat} {keyword method : Token} {m : Machine} {superclass c : Class}
      {found : Closure} :
      m.super? id = some (superclass, object, c) →
      superclass.findMethod? method.lexeme = some found →
      Creates rounds (.expr (.super id keyword method)) m m.heap.frames.size .self
  | initializer {id : Nat} {c : Class} {method : Closure} {arguments : List Value} {m : Machine} :
      c.findMethod? Class.initializerName = some method →
      Creates rounds (.invoke (.cls id c) arguments) m m.heap.frames.size .self
  | superclass {name : Token} {superclass : Expr} {methods : List Function} {m m₁ : Machine}
      {id : Nat} {c : Class} :
      evaluate rounds superclass { m with heap := m.heap.define m.frame name.lexeme .nil } =
        .ok (.cls id c) m₁ →
      Creates rounds (.stmt (.classDecl name (some superclass) methods)) m m₁.heap.frames.size
        .super

namespace Eval

variable (ok : Site → Prop) (made : FrameId → Opener → Prop)

/-- However the step ends, the heap has grown and fits; its result is as promised. -/
def Safe {α : Type} (x : Eval α) (m : Machine) (Q : α → Heap → Prop) : Prop :=
  match x m with
  | .ok a m' => m.heap.Extends m'.heap ∧ m'.heap.Fitted ok made ∧ Q a m'.heap
  | .error _ m' => m.heap.Extends m'.heap ∧ m'.heap.Fitted ok made

namespace Safe

variable {ok made} {α β : Type} {x : Eval α} {m m' : Machine} {Q : α → Heap → Prop}

theorem of_ok (h : Safe ok made x m Q) {a : α} (hx : x m = .ok a m') :
    m.heap.Extends m'.heap ∧ m'.heap.Fitted ok made ∧ Q a m'.heap := by
  rwa [Safe, hx] at h

theorem of_error (h : Safe ok made x m Q) {e : Halt RuntimeError} (hx : x m = .error e m') :
    m.heap.Extends m'.heap ∧ m'.heap.Fitted ok made := by
  rwa [Safe, hx] at h

/-- However a safe step ends, the heap fits. -/
theorem after_fitted (h : Safe ok made x m Q) : (x.after m).heap.Fitted ok made := by
  cases hx : x m with
  | ok a m₁ => exact after_of_ok hx ▸ (h.of_ok hx).2.1
  | error e m₁ => exact after_of_error hx ▸ (h.of_error hx).2

theorem extends_after (h : Safe ok made x m Q) : m.heap.Extends (x.after m).heap := by
  cases hx : x m with
  | ok a m₁ => exact after_of_ok hx ▸ (h.of_ok hx).1
  | error e m₁ => exact after_of_error hx ▸ (h.of_error hx).1

theorem intro_ok {a : α} {n : Machine} (hx : x m = .ok a n) (hext : m.heap.Extends n.heap)
    (hfit : n.heap.Fitted ok made) (hq : Q a n.heap) : Safe ok made x m Q := by
  rw [Safe, hx]
  exact ⟨hext, hfit, hq⟩

theorem intro_error {e : Halt RuntimeError} (hx : x m = .error e m')
    (hext : m.heap.Extends m'.heap) (hfit : m'.heap.Fitted ok made) : Safe ok made x m Q := by
  rw [Safe, hx]
  exact ⟨hext, hfit⟩

theorem congr {y : Eval α} (hxy : x m = y m) (h : Safe ok made y m Q) : Safe ok made x m Q := by
  rwa [Safe, hxy]

theorem pure {a : α} (hfit : m.heap.Fitted ok made) (hq : Q a m.heap) :
    Safe ok made (Pure.pure a : Eval α) m Q := intro_ok rfl (.refl _) hfit hq

theorem throw {e : Halt RuntimeError} (hfit : m.heap.Fitted ok made) :
    Safe ok made (MonadExcept.throw e : Eval α) m Q := intro_error rfl (.refl _) hfit

theorem fail {line : Nat} {problem : RuntimeProblem} (hfit : m.heap.Fitted ok made) :
    Safe ok made (Eval.fail line problem : Eval α) m Q := intro_error rfl (.refl _) hfit

theorem bind {f : α → Eval β} {P : α → Heap → Prop} {R : β → Heap → Prop}
    (hx : Safe ok made x m P)
    (hf : ∀ a m₁, x m = .ok a m₁ → m.heap.Extends m₁.heap → m₁.heap.Fitted ok made → P a m₁.heap →
      Safe ok made (f a) m₁ R) : Safe ok made (x >>= f) m R := by
  cases h : x m with
  | error e m₁ =>
    obtain ⟨hext, hfit⟩ := hx.of_error h
    exact intro_error (bind_of_error h) hext hfit
  | ok a m₁ =>
    obtain ⟨hext, hfit, hp⟩ := hx.of_ok h
    have hr := hf a m₁ h hext hfit hp
    rw [Safe, bind_of_ok h]
    cases hfa : f a m₁ with
    | ok b m₂ =>
      obtain ⟨hext', hfit', hq⟩ := hr.of_ok hfa
      exact ⟨hext.trans hext', hfit', hq⟩
    | error e m₂ =>
      obtain ⟨hext', hfit'⟩ := hr.of_error hfa
      exact ⟨hext.trans hext', hfit'⟩

theorem mono {P : α → Heap → Prop} (hx : Safe ok made x m P)
    (hpq : ∀ a h, m.heap.Extends h → P a h → Q a h) : Safe ok made x m Q := by
  cases h : x m with
  | error e m₁ =>
    obtain ⟨hext, hfit⟩ := hx.of_error h
    exact intro_error h hext hfit
  | ok a m₁ =>
    obtain ⟨hext, hfit, hp⟩ := hx.of_ok h
    exact intro_ok h hext hfit (hpq a _ hext hp)

/-- A step that goes on as another one does, after the heap has grown. -/
theorem of_extends {y : Eval α} {n : Machine} (hxy : x m = y n) (hext : m.heap.Extends n.heap)
    (h : Safe ok made y n Q) : Safe ok made x m Q := by
  cases hy : y n with
  | ok a m₁ =>
    obtain ⟨hext₁, hfit, hq⟩ := h.of_ok hy
    exact intro_ok (hxy.trans hy) (hext.trans hext₁) hfit hq
  | error e m₁ =>
    obtain ⟨hext₁, hfit⟩ := h.of_error hy
    exact intro_error (hxy.trans hy) (hext.trans hext₁) hfit

theorem ofExcept {line : Nat} {r : Except RuntimeProblem α} (hfit : m.heap.Fitted ok made)
    (hq : ∀ a, r = .ok a → Q a m.heap) : Safe ok made (Eval.ofExcept line r) m Q := by
  cases r with
  | ok a => exact pure hfit (hq a rfl)
  | error problem => exact fail hfit

theorem oneDeeper (h : Safe ok made x { m with depth := m.depth + 1 } Q) :
    Safe ok made (Eval.oneDeeper x) m Q := by
  cases hx : x { m with depth := m.depth + 1 } with
  | ok a m₁ =>
    obtain ⟨hext, hfit, hq⟩ := h.of_ok hx
    exact intro_ok (oneDeeper_of_ok hx) hext hfit hq
  | error e m₁ =>
    obtain ⟨hext, hfit⟩ := h.of_error hx
    exact intro_error (oneDeeper_of_error hx) hext hfit

/-! ### Variables -/

theorem readVariable (hfit : m.heap.Fitted ok made) (id : Nat) (name : Token) :
    Safe ok made (Eval.readVariable id name) m (fun v h => v.Fitted ok made h) := by
  cases hv : m.lookup? id name.lexeme with
  | some v => exact intro_ok (readVariable_of_some hv) (.refl _) hfit (hfit.lookup? hv)
  | none => exact intro_error (readVariable_of_none hv) (.refl _) hfit

theorem define (hfit : m.heap.Fitted ok made) (f : FrameId) {name : Token} (hname : name.Plain)
    {v : Value} (hv : v.Fitted ok made m.heap) :
    m.heap.Extends (m.heap.define f name.lexeme v) ∧
      (m.heap.define f name.lexeme v).Fitted ok made := by
  have hext := Heap.Extends.define m.heap f (Heap.not_reserved hname) v
  exact ⟨hext, hfit.define hext (hv.mono hext)⟩

theorem writeVariable (hfit : m.heap.Fitted ok made) (id : Nat) {name : Token}
    (hname : name.Plain) {v : Value} (hv : v.Fitted ok made m.heap) :
    Safe ok made (Eval.writeVariable id name v) m (fun _ _ => True) := by
  cases hf : m.holder? id name.lexeme with
  | some f =>
    obtain ⟨hext, hfit'⟩ := define hfit f hname hv
    exact intro_ok (writeVariable_of_some hf) hext hfit' trivial
  | none => exact intro_error (writeVariable_of_none hf) (.refl _) hfit

theorem assign (hfit : m.heap.Fitted ok made) {name : Token} (hname : name.Plain) {v : Value}
    (hv : v.Fitted ok made m.heap) :
    Safe ok made (Eval.assign name v) m (fun _ _ => True) := by
  have ha : Eval.assign name v m = assignIn (m.heap.holder? m.frame name.lexeme) name v m := rfl
  refine congr (y := assignIn (m.heap.holder? m.frame name.lexeme) name v) ha ?_
  cases m.heap.holder? m.frame name.lexeme with
  | none => exact fail hfit
  | some f =>
    obtain ⟨hext, hfit'⟩ := define hfit f hname hv
    exact intro_ok rfl hext hfit' trivial

/-! ### Objects and methods -/

/-- Binding a method makes the frame of `this`. -/
theorem bindMethod (hfit : m.heap.Fitted ok made) {method : Closure} {object : Nat} {c : Class}
    (hmethod : method.FittedMethod ok made m.heap) (hc : c.Fitted ok made m.heap)
    (hmade : made m.heap.frames.size .self) :
    Safe ok made (Eval.bind method object c) m (fun closure h =>
      closure.Fitted ok made h ∧ closure.declaration = method.declaration) := by
  obtain ⟨hp, os, r, kind, scopes, hr, hfits, hsites⟩ := hmethod
  obtain ⟨hext, hfit', hfits'⟩ := Fits.binding selfName (.object object c) hfits
    hfit hc hmade (fun _ => ⟨object, c, rfl⟩) (fun h => absurd h (by decide))
  refine intro_ok rfl hext hfit' ⟨⟨hp, .self :: os, r, kind, ?_, hsites⟩, rfl⟩
  rwa [hr]

theorem boundMethod (hfit : m.heap.Fitted ok made) {method : Closure} {object : Nat} {c : Class}
    (hmethod : method.FittedMethod ok made m.heap) (hc : c.Fitted ok made m.heap)
    (hmade : made m.heap.frames.size .self) :
    Safe ok made (Eval.boundMethod method object c) m (fun v h => v.Fitted ok made h) := by
  refine bind (bindMethod hfit hmethod hc hmade) fun closure m₁ _ _ hfit₁ hclosure => ?_
  have hext : m₁.heap.Extends m₁.heap.newIdentity.2 := .of_frames rfl
  exact intro_ok (n := { m₁ with heap := m₁.heap.newIdentity.2 }) rfl hext hfit₁.newIdentity
    (hclosure.1.mono hext : Closure.Fitted _ _ _ closure)

theorem getProperty (hfit : m.heap.Fitted ok made) {v : Value} (hv : v.Fitted ok made m.heap)
    (name : Token)
    (hmade : ∀ id c method, v = .object id c → (m.heap.fields id).find? name.lexeme = none →
      c.findMethod? name.lexeme = some method → made m.heap.frames.size .self) :
    Safe ok made (Eval.getProperty v name) m (fun v h => v.Fitted ok made h) := by
  cases v with
  | object id c =>
    have hobject : c.Fitted ok made m.heap := hv
    cases hf : (m.heap.fields id).find? name.lexeme with
    | some w =>
      exact intro_ok (getProperty_of_field hf) (.refl _) hfit (hfit.fields id _ w hf)
    | none =>
      cases hm : c.findMethod? name.lexeme with
      | some method =>
        exact congr (getProperty_of_method hf hm)
          (boundMethod hfit (hobject.methods _ _ hm) hobject (hmade id c method rfl hf hm))
      | none => exact intro_error (getProperty_of_none hf hm) (.refl _) hfit
  | _ => exact fail hfit

/-- The superclass and the object that a `super` looks up fit. -/
theorem superMethod (hfit : m.heap.Fitted ok made) (id : Nat) (keyword method : Token)
    (hmade : ∀ superclass object c found, m.super? id = some (superclass, object, c) →
      superclass.findMethod? method.lexeme = some found → made m.heap.frames.size .self) :
    Safe ok made (Eval.superMethod id keyword method) m (fun v h => v.Fitted ok made h) := by
  cases hs : m.super? id with
  | none => exact intro_error (superMethod_of_none hs) (.refl _) hfit
  | some found =>
    obtain ⟨superclass, object, c⟩ := found
    obtain ⟨d, i, hd, hsuper, hself⟩ := Machine.super?_eq_some hs
    have hsuperclass : superclass.Fitted ok made m.heap := hfit.getAt? (v := .cls i _) hsuper
    have hobject : c.Fitted ok made m.heap := hfit.getAt? (v := .object object _) hself
    cases hm : superclass.findMethod? method.lexeme with
    | none => exact intro_error (superMethod_of_no_method hs hm) (.refl _) hfit
    | some found =>
      exact congr (superMethod_of_method hs hm)
        (boundMethod hfit (hsuperclass.methods _ _ hm) hobject (hmade superclass object c found hs hm))

theorem boundObject (hfit : m.heap.Fitted ok made) (closure : Closure) :
    Safe ok made (Eval.boundObject closure) m (fun v h => v.Fitted ok made h) := by
  refine intro_ok rfl (.refl _) hfit ?_
  cases hv : m.heap.getAt? closure.frame 0 selfName with
  | none => trivial
  | some v => exact hfit.getAt? hv

theorem setField (hfit : m.heap.Fitted ok made) (object : Nat) (name : String) {v : Value}
    (hv : v.Fitted ok made m.heap) :
    Safe ok made (Eval.setField object name v) m (fun _ _ => True) :=
  intro_ok rfl (.of_frames rfl) (hfit.setField object name hv) trivial

theorem print (hfit : m.heap.Fitted ok made) (text : String) :
    Safe ok made (Eval.print text) m (fun _ _ => True) := by
  cases hw : (m.sink.write text).1 with
  | true => exact intro_ok (print_of_true hw) (.refl _) hfit trivial
  | false => exact intro_error (print_of_false hw) (.refl _) hfit

/-! ### Classes -/

theorem newClass (hfit : m.heap.Fitted ok made) {c : Class} (hc : c.Fitted ok made m.heap) :
    Safe ok made (Eval.newClass c) m (fun v h => v.Fitted ok made h) := by
  have hext : m.heap.Extends m.heap.newIdentity.2 := .of_frames rfl
  exact intro_ok (n := { m with heap := m.heap.newIdentity.2 }) rfl hext hfit.newIdentity
    (hc.mono hext : Class.Fitted _ _ _ c)

end Safe
end Eval

/-! ## Classes that fit -/

section Classes

variable {ok : Site → Prop} {made : FrameId → Opener → Prop} {h : Heap}

/-- The sites of methods one by one. -/
theorem sites_of_methods {os : List Opener} {methods : List Function} {r : Resolution}
    (hsites : ∀ site ∈ Function.sitesMethods os methods r, ok site) {d : Function}
    (hd : d ∈ methods) :
    ∃ r', r'.scopes = r.scopes ∧ ∀ site ∈ d.sites os d.methodBody r', ok site := by
  induction methods generalizing r with
  | nil => cases hd
  | cons first rest ih =>
    obtain ⟨hfirst, hrest⟩ := List.forall_mem_append.1 hsites
    obtain rfl | hd := List.mem_cons.1 hd
    · exact ⟨r, rfl, hfirst⟩
    · obtain ⟨r', hr', hs⟩ := ih hrest hd
      exact ⟨r', hr'.trans (first.onward _ r).scopes, hs⟩

theorem Function.AllProper.of_mem {methods : List Function} (hp : Function.AllProper methods)
    {d : Function} (hd : d ∈ methods) : d.Proper := by
  induction methods with
  | nil => cases hd
  | cons first rest ih =>
    obtain rfl | hd := List.mem_cons.1 hd
    · exact hp.1
    · exact ih hp.2 hd

/-- A class fits if its own methods do, and the class that it extends. -/
theorem Class.fitted_methodTable {name : String} {superclass : Option Class} {methods : List Function}
    {f : FrameId} {os : List Opener} {r : Resolution} {scopes : List Scope}
    (hp : Function.AllProper methods) (hsuperclass : ∀ c ∈ superclass, c.Fitted ok made h)
    (hr : r.scopes = [(selfName, true)] :: scopes) (hfits : Fits made h f os scopes)
    (hsites : ∀ site ∈ Function.sitesMethods (.self :: os) methods r, ok site) :
    Class.Fitted ok made h ⟨name, superclass, methodTable methods f⟩ := by
  have hown : ∀ n method, (methodTable methods f).lookup n = some method →
      method.FittedMethod ok made h := fun n method hm => by
    obtain ⟨before, d, after, rfl, -, rfl, -⟩ := Class.lookup_methodTable_of_some hm
    have hd : d ∈ before ++ d :: after := List.mem_append_right _ (.head _)
    obtain ⟨r', hr', hs⟩ := sites_of_methods hsites hd
    exact ⟨hp.of_mem hd, os, r', _, scopes, hr'.trans hr, hfits, hs⟩
  cases superclass with
  | none => exact ⟨.base, hown⟩
  | some c =>
    obtain ⟨hdeclared, hinherited⟩ := hsuperclass c rfl
    refine ⟨.derived hdeclared, fun n method hm => ?_⟩
    rw [Class.findMethod?] at hm
    split at hm
    · rename_i own hl
      cases hm
      exact hown n _ hl
    · exact hinherited n method hm

end Classes

end Lox
