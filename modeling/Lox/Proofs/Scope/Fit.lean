import Lox.Proofs.Heap.Growth
import Lox.Proofs.Scope.Site
import Lox.Proofs.Value.Lookup

/-
  Frames that fit scopes

  `Fits made h f os scopes`: going outward from the frame `f`, there is one frame
  for each scope, made for the same construct, and then the global one. Each
  frame binds what is ready in its scope; where the scope is that of `this` it
  binds an object, where it is that of `super` a class, and neither name elsewhere.

  A closure fits if its frame fits the scopes that its declaration was resolved
  in. Every value of a heap that fits is made of closures that fit. All of this
  is kept when a heap grows.
-/

namespace Lox

open Resolution (distance?)

section

variable (ok : Site → Prop) (made : FrameId → Opener → Prop)

inductive Fits (h : Heap) : FrameId → List Opener → List Scope → Prop
  | global : Fits h Heap.globals [] []
  | inner {f e : FrameId} {o : Opener} {os : List Opener} {scope : Scope} {outer : List Scope} :
      f < h.frames.size → h.enclosing? f = some e → e < f → made f o →
      (∀ name, scope.lookup name = some true → h.Binds f name) →
      (scope.lookup selfName = some true →
        ∃ object c, (h.bindings f).find? selfName = some (.object object c)) →
      (scope.lookup superName = some true →
        ∃ id c, (h.bindings f).find? superName = some (.cls id c)) →
      (∀ name, Heap.Reserved name → scope.lookup name = none → ¬h.Binds f name) →
      Fits h e os outer → Fits h f (o :: os) (scope :: outer)

/-- A function, or a bound method, whose declaration was resolved in the scopes of
its frame. -/
def Closure.Fitted (h : Heap) (c : Closure) : Prop :=
  c.declaration.Proper ∧ ∃ os r kind, Fits made h c.frame os r.scopes ∧
    ∀ site ∈ c.declaration.sites os kind r, ok site

/-- A method that is not bound yet: between its frame and its declaration there will
be the frame of `this`. -/
def Closure.FittedMethod (h : Heap) (c : Closure) : Prop :=
  c.declaration.Proper ∧ ∃ os r kind scopes, r.scopes = [(selfName, true)] :: scopes ∧
    Fits made h c.frame os scopes ∧ ∀ site ∈ c.declaration.sites (.self :: os) kind r, ok site

structure Class.Fitted (h : Heap) (c : Class) : Prop where
  declared : c.Declared
  methods : ∀ name method, c.findMethod? name = some method → method.FittedMethod ok made h

def Value.Fitted (h : Heap) : Value → Prop
  | .function _ closure => closure.Fitted ok made h
  | .cls _ c | .object _ c => c.Fitted ok made h
  | .nil | .boolean _ | .number _ | .string _ | .clock => True

/-- A heap whose values fit it. -/
structure Heap.Fitted (h : Heap) : Prop where
  global : 0 < h.frames.size
  outermost : h.enclosing? Heap.globals = none
  bindings : ∀ f name v, (h.bindings f).find? name = some v → v.Fitted ok made h
  fields : ∀ object name v, (h.fields object).find? name = some v → v.Fitted ok made h

end

variable {ok : Site → Prop} {made : FrameId → Opener → Prop} {h h' : Heap}

/-! ## What fits goes on fitting -/

namespace Fits

variable {f : FrameId} {os : List Opener} {scopes : List Scope}

theorem lt_size (hfits : Fits made h f os scopes) (hglobal : 0 < h.frames.size) :
    f < h.frames.size := by
  cases hfits with
  | global => exact hglobal
  | inner hf => exact hf

theorem mono (hfits : Fits made h f os scopes) (hext : h.Extends h') : Fits made h' f os scopes := by
  induction hfits with
  | global => exact .global
  | inner hf he hlt hmade hbinds hself hsuper hneither _ ih =>
    refine .inner (Nat.lt_of_lt_of_le hf hext.size) ((hext.enclosing _ hf).trans he) hlt hmade
      (fun name hn => hext.binds _ hf _ (hbinds name hn)) (fun hn => ?_) (fun hn => ?_)
      (fun name hr hn => ?_) ih
    · obtain ⟨object, c, hv⟩ := hself hn
      exact ⟨object, c, (hext.reserved _ hf _ (.inl rfl)).trans hv⟩
    · obtain ⟨id, c, hv⟩ := hsuper hn
      exact ⟨id, c, (hext.reserved _ hf _ (.inr rfl)).trans hv⟩
    · rw [Heap.Binds, hext.reserved _ hf _ hr]
      exact hneither name hr hn

/-- A scope with more names lacks what a scope with fewer of them lacks. -/
theorem lookup_of_lookup_cons {n name : String} {ready : Bool} {scope : Scope}
    (h : List.lookup n ((name, ready) :: scope) = none) : scope.lookup n = none := by
  rw [List.lookup_cons] at h
  split at h
  · cases h
  · exact h

/-- A name that waits for its initializer asks for nothing. -/
theorem declare (hfits : Fits made h f os scopes) {name : Token} (hname : name.Plain) :
    Fits made h f os (Scopes.declare name.lexeme scopes) := by
  cases hfits with
  | global => exact .global
  | @inner f e o os scope outer hf he hlt hmade hbinds hself hsuper hneither houter =>
    rw [Scopes.declare]
    split
    · exact .inner hf he hlt hmade hbinds hself hsuper hneither houter
    · refine .inner hf he hlt hmade (fun n hn => hbinds n ?_) (fun hn => hself ?_)
        (fun hn => hsuper ?_) (fun n hr hn => hneither n hr ?_) houter
      · rw [List.lookup_cons] at hn
        split at hn
        · cases hn
        · exact hn
      · rwa [List.lookup_cons, beq_false_of_ne hname.1.symm] at hn
      · rwa [List.lookup_cons, beq_false_of_ne hname.2.symm] at hn
      · exact lookup_of_lookup_cons hn

/-- A name can be made ready once the frame binds it. -/
theorem define (hfits : Fits made h f os scopes) {name : Token} (hname : name.Plain)
    (hb : h.Binds f name.lexeme) : Fits made h f os (Scopes.define name.lexeme scopes) := by
  cases hfits with
  | global => exact .global
  | inner hf he hlt hmade hbinds hself hsuper hneither houter =>
    refine .inner hf he hlt hmade (fun n hn => ?_) (fun hn => hself ?_) (fun hn => hsuper ?_)
      (fun n hr hn => hneither n hr (lookup_of_lookup_cons hn)) houter
    · by_cases hne : n = name.lexeme
      · exact hne ▸ hb
      · rw [List.lookup_cons, beq_false_of_ne hne] at hn
        exact hbinds n hn
    · rwa [List.lookup_cons, beq_false_of_ne hname.1.symm] at hn
    · rwa [List.lookup_cons, beq_false_of_ne hname.2.symm] at hn

theorem after (hfits : Fits made h f os scopes) {names : List Token}
    (hnames : ∀ name ∈ names, name.Plain) (hb : ∀ name ∈ names, h.Binds f name.lexeme) :
    Fits made h f os (Scopes.after scopes names) := by
  induction names generalizing scopes with
  | nil => exact hfits
  | cons name names ih =>
    have hname := hnames name (.head _)
    exact ih ((hfits.declare hname).define hname (hb name (.head _)))
      (fun n hn => hnames n (.tail _ hn)) (fun n hn => hb n (.tail _ hn))

end Fits

theorem Closure.Fitted.mono {c : Closure} (hc : c.Fitted ok made h) (hext : h.Extends h') :
    c.Fitted ok made h' := by
  obtain ⟨hp, os, r, kind, hfits, hsites⟩ := hc
  exact ⟨hp, os, r, kind, hfits.mono hext, hsites⟩

theorem Closure.FittedMethod.mono {c : Closure} (hc : c.FittedMethod ok made h)
    (hext : h.Extends h') : c.FittedMethod ok made h' := by
  obtain ⟨hp, os, r, kind, scopes, hr, hfits, hsites⟩ := hc
  exact ⟨hp, os, r, kind, scopes, hr, hfits.mono hext, hsites⟩

theorem Class.Fitted.mono {c : Class} (hc : c.Fitted ok made h) (hext : h.Extends h') :
    c.Fitted ok made h' :=
  ⟨hc.declared, fun name method hm => (hc.methods name method hm).mono hext⟩

theorem Value.Fitted.mono {v : Value} (hv : v.Fitted ok made h) (hext : h.Extends h') :
    v.Fitted ok made h' := by
  cases v with
  | function id closure => exact Closure.Fitted.mono hv hext
  | cls id c | object id c => exact Class.Fitted.mono hv hext
  | _ => trivial

/-- A value that refers to nothing always fits. -/
theorem Value.Atomic.fitted {v : Value} (hv : v.Atomic) : v.Fitted ok made h := by
  cases v with
  | boolean _ | number _ | string _ => trivial
  | _ => exact absurd hv id

/-- More sites may be known later on. -/
theorem Value.Fitted.weaken {ok' : Site → Prop} (hok : ∀ site, ok site → ok' site) {v : Value}
    (hv : v.Fitted ok made h) : v.Fitted ok' made h := by
  have hclass : ∀ c : Class, c.Fitted ok made h → c.Fitted ok' made h := fun c hc => by
    refine ⟨hc.declared, fun name method hm => ?_⟩
    obtain ⟨hp, os, r, kind, scopes, hr, hfits, hsites⟩ := hc.methods name method hm
    exact ⟨hp, os, r, kind, scopes, hr, hfits, fun site hs => hok site (hsites site hs)⟩
  cases v with
  | function id closure =>
    obtain ⟨hp, os, r, kind, hfits, hsites⟩ := hv
    exact ⟨hp, os, r, kind, hfits, fun site hs => hok site (hsites site hs)⟩
  | cls id c | object id c => exact hclass c hv
  | _ => trivial

/-! ## Steps of heaps that fit -/

namespace Heap.Fitted

theorem weaken {ok' : Site → Prop} (hok : ∀ site, ok site → ok' site) (hh : h.Fitted ok made) :
    h.Fitted ok' made :=
  ⟨hh.global, hh.outermost, fun f name v hv => (hh.bindings f name v hv).weaken hok,
    fun object name v hv => (hh.fields object name v hv).weaken hok⟩

theorem define (hh : h.Fitted ok made) {f : FrameId} {name : String} {v : Value}
    (hext : h.Extends (h.define f name v)) (hv : v.Fitted ok made (h.define f name v)) :
    (h.define f name v).Fitted ok made := by
  refine ⟨by rw [size_frames_define]; exact hh.global, by rw [enclosing?_define]; exact hh.outermost,
    fun e n w hw => ?_, fun object n w hw => (hh.fields object n w hw).mono hext⟩
  rw [find?_define] at hw
  split at hw
  · cases hw
    exact hv
  · exact (hh.bindings e n w hw).mono hext

theorem newFrame (hh : h.Fitted ok made) (e : FrameId) : (h.newFrame (some e)).2.Fitted ok made := by
  have hext := Extends.newFrame h (some e)
  refine ⟨by rw [size_newFrame]; exact Nat.succ_pos _, ?_, fun f n w hw => ?_, fun object n w hw => ?_⟩
  · rw [enclosing?_newFrame, if_neg (show Heap.globals ≠ _ from Nat.ne_of_lt hh.global)]
    exact hh.outermost
  · rw [bindings_newFrame] at hw
    exact (hh.bindings f n w hw).mono hext
  · exact (hh.fields object n w hw).mono hext

/-- A value in a frame of its own. -/
theorem defineNew (hh : h.Fitted ok made) (e : FrameId) (name : String) {v : Value}
    (hv : v.Fitted ok made h) :
    h.Extends ((h.newFrame (some e)).2.define h.frames.size name v) ∧
      ((h.newFrame (some e)).2.define h.frames.size name v).Fitted ok made := by
  have hext := (Extends.newFrame h (some e)).define_fresh (Nat.le_refl _) name v
  refine ⟨hext, ?_, ?_, fun f n w hw => ?_, fun object n w hw => (hh.fields object n w hw).mono hext⟩
  · rw [size_frames_define]
    exact (hh.newFrame e).global
  · rw [enclosing?_define]
    exact (hh.newFrame e).outermost
  · rw [find?_define] at hw
    split at hw
    · cases hw
      exact hv.mono hext
    · rw [bindings_newFrame] at hw
      exact (hh.bindings f n w hw).mono hext

theorem defineAll (hh : h.Fitted ok made) {f : FrameId} {values : List (String × Value)}
    (hext : h.Extends (h.defineAll f values)) (hv : ∀ v ∈ values.map Prod.snd, v.Fitted ok made h) :
    (h.defineAll f values).Fitted ok made := by
  have hobjects : (h.defineAll f values).objects = h.objects := by
    clear hext hv hh
    induction values generalizing h with
    | nil => rfl
    | cons entry rest ih => exact ih
  refine ⟨by rw [size_defineAll]; exact hh.global,
    by rw [enclosing?_defineAll]; exact hh.outermost, fun e n w hw => ?_, fun object n w hw => ?_⟩
  · obtain hw | hw := find?_defineAll hw
    · exact (hh.bindings e n w hw).mono hext
    · exact (hv w hw).mono hext
  · rw [Heap.fields, hobjects] at hw
    exact (hh.fields object n w hw).mono hext

theorem setField (hh : h.Fitted ok made) (object : Nat) (name : String) {v : Value}
    (hv : v.Fitted ok made h) : (h.setField object name v).Fitted ok made := by
  have hext : h.Extends (h.setField object name v) := .of_frames rfl
  refine ⟨hh.global, hh.outermost, fun e n w hw => (hh.bindings e n w hw).mono hext,
    fun o n w hw => ?_⟩
  rw [fields_setField] at hw
  split at hw
  · rw [Bindings.find?_insert] at hw
    split at hw
    · cases hw
      exact hv.mono hext
    · exact (hh.fields o n w hw).mono hext
  · exact (hh.fields o n w hw).mono hext

theorem newObject (hh : h.Fitted ok made) : h.newObject.2.Fitted ok made := by
  have hext : h.Extends h.newObject.2 := .of_frames rfl
  refine ⟨hh.global, hh.outermost, fun e n w hw => (hh.bindings e n w hw).mono hext,
    fun o n w hw => ?_⟩
  rw [fields_newObject] at hw
  exact (hh.fields o n w hw).mono hext

theorem newIdentity (hh : h.Fitted ok made) : h.newIdentity.2.Fitted ok made :=
  have hext : h.Extends h.newIdentity.2 := .of_frames rfl
  ⟨hh.global, hh.outermost, fun e n w hw => (hh.bindings e n w hw).mono hext,
    fun o n w hw => (hh.fields o n w hw).mono hext⟩

end Heap.Fitted

theorem Scope.eq_of_lookup_single {n name : String}
    (hn : List.lookup n [(name, true)] = some true) : n = name := by
  rw [List.lookup_cons] at hn
  cases he : n == name with
  | true => exact eq_of_beq he
  | false => simp [he] at hn

/-- The frame of `this` or `super`: new, and with one name that is bound to an object
or a class. -/
theorem Fits.binding (name : String) (v : Value) {e : FrameId} {o : Opener} {os : List Opener}
    {scopes : List Scope} (hfits : Fits made h e os scopes) (hh : h.Fitted ok made)
    (hv : v.Fitted ok made h) (hmade : made h.frames.size o)
    (hself : name = selfName → ∃ object c, v = .object object c)
    (hsuper : name = superName → ∃ id c, v = .cls id c) :
    let h' := (h.newFrame (some e)).2.define h.frames.size name v
    h.Extends h' ∧ h'.Fitted ok made ∧ Fits made h' h.frames.size (o :: os) ([(name, true)] :: scopes) := by
  intro h'
  obtain ⟨hext, hfit⟩ := hh.defineNew e name hv
  have hlt := Heap.lt_size_newFrame h (some e)
  have hfind : (h'.bindings h.frames.size).find? name = some v := by
    rw [Heap.find?_define, if_pos ⟨rfl, hlt, rfl⟩]
  refine ⟨hext, hfit, ?_⟩
  refine .inner ?_ ?_ (hfits.lt_size hh.global) hmade (fun n hn => ?_) (fun hn => ?_) (fun hn => ?_)
    (fun n _ hn => ?_) (hfits.mono hext)
  · rwa [Heap.size_frames_define]
  · rw [Heap.enclosing?_define]
    exact Heap.enclosing?_new ..
  · obtain rfl := Scope.eq_of_lookup_single hn
    exact Heap.binds_define hlt ..
  · obtain rfl := Scope.eq_of_lookup_single hn
    obtain ⟨object, c, rfl⟩ := hself rfl
    exact ⟨object, c, hfind⟩
  · obtain rfl := Scope.eq_of_lookup_single hn
    obtain ⟨id, c, rfl⟩ := hsuper rfl
    exact ⟨id, c, hfind⟩
  · -- a new frame binds nothing else
    have hne : n ≠ name := by
      rintro rfl
      simp at hn
    rw [Heap.Binds, Heap.find?_define, if_neg fun h => hne h.2.2]
    exact Heap.not_binds_newFrame h (some e) n

/-! ## What is found in frames that fit -/

namespace Fits

variable {f : FrameId} {os : List Opener} {scopes : List Scope}

/-- The chain has one frame for each scope, and ends at the global frame. -/
theorem chain_eq (hfits : Fits made h f os scopes) (hglobal : h.enclosing? Heap.globals = none) :
    ∃ frames, h.chain f = frames ++ [Heap.globals] ∧ List.Forall₂ made frames os ∧
      List.Forall₂ (fun e scope => e ≠ Heap.globals ∧
        ∀ name, List.lookup name scope = some true → h.Binds e name) frames scopes ∧
      ∀ d, d ≤ frames.length → h.ancestor? f d = (frames ++ [Heap.globals])[d]? := by
  induction hfits with
  | global =>
    refine ⟨[], Heap.chain_of_none hglobal, .nil, .nil, fun d hd => ?_⟩
    obtain rfl := Nat.le_zero.1 hd
    rfl
  -- a new scope and a new frame lengthen both chains by one
  | @inner f e o os scope outer hf he hlt hmade hbinds hself hsuper _ _ ih =>
    obtain ⟨frames, hchain, hmades, hscopes, hancestors⟩ := ih
    refine ⟨f :: frames, by rw [Heap.chain_of_inner he hlt, hchain]; rfl, .cons hmade hmades,
      .cons ⟨Nat.ne_of_gt (Nat.lt_of_le_of_lt (Nat.zero_le e) hlt), hbinds⟩ hscopes,
      fun d hd => ?_⟩
    cases d with
    | zero => rfl
    | succ d =>
      rw [Heap.ancestor?_succ he]
      exact hancestors d (Nat.le_of_succ_le_succ hd)

/-- Of the frames outward, that of the scope of a reserved name is the first to bind it. -/
theorem holder?_of_known (hfits : Fits made h f os scopes) {name : String}
    (hr : Heap.Reserved name) {d : Nat} (hk : Known scopes name d) {e : FrameId}
    (he : h.ancestor? f d = some e) : h.holder? f name = some e := by
  induction hfits generalizing d with
  | global => exact absurd hk id
  | @inner f e' o os scope outer hf hf' hlt hmade hbinds hself hsuper hneither _ ih =>
    cases d with
    | zero =>
      cases he
      exact Heap.holder?_of_binds (hbinds name hk)
    | succ d =>
      rw [Heap.ancestor?_succ hf'] at he
      exact (Heap.holder?_of_not_binds hf' hlt (hneither name hr hk.1)).trans (ih hk.2 he)

/-- A known name is bound in the frame of its scope. -/
theorem known (hfits : Fits made h f os scopes) {name : String} {d : Nat}
    (hk : Known scopes name d) :
    ∃ e, h.ancestor? f d = some e ∧ h.Binds e name ∧
      (name = selfName → ∃ object c, (h.bindings e).find? name = some (.object object c)) ∧
      (name = superName → ∃ id c, (h.bindings e).find? name = some (.cls id c)) := by
  induction hfits generalizing d with
  | global => exact absurd hk id
  | @inner f e o os scope outer hf he hlt hmade hbinds hself hsuper _ _ ih =>
    cases d with
    | zero =>
      have hk : scope.lookup name = some true := hk
      exact ⟨f, rfl, hbinds name hk, fun hn => hn ▸ hself (hn ▸ hk), fun hn => hn ▸ hsuper (hn ▸ hk)⟩
    | succ d =>
      obtain ⟨e', hancestor, hfound⟩ := ih hk.2
      exact ⟨e', (Heap.ancestor?_succ he d).trans hancestor, hfound⟩

end Fits

theorem Heap.getAt?_of_ancestor {f e : FrameId} {d : Nat} (he : h.ancestor? f d = some e)
    (name : String) : h.getAt? f d name = (h.bindings e).find? name := by
  rw [Heap.getAt?, he]

/-- Only the global frame is looked at from the global frame. -/
theorem Heap.Fitted.get?_globals (hh : h.Fitted ok made) (name : String) :
    h.get? Heap.globals name = (h.bindings Heap.globals).find? name := by
  rw [Heap.get?, Heap.chain_of_none hh.outermost, List.findSome?_cons, List.findSome?_nil]
  cases (h.bindings Heap.globals).find? name <;> rfl

/-- Whatever a name is looked up in, the value fits. -/
theorem Heap.Fitted.getAt? (hh : h.Fitted ok made) {f : FrameId} {d : Nat} {name : String}
    {v : Value} (hv : h.getAt? f d name = some v) : v.Fitted ok made h := by
  rw [Heap.getAt?] at hv
  split at hv
  · exact hh.bindings _ name v hv
  · cases hv

theorem Heap.Fitted.lookup? {m : Machine} (hh : m.heap.Fitted ok made) {id : Nat}
    {name : String} {v : Value} (hv : (match m.distances[id]? with
      | some distance => m.heap.getAt? m.frame distance name
      | none => m.heap.get? Heap.globals name) = some v) : v.Fitted ok made m.heap := by
  split at hv
  · exact hh.getAt? hv
  · rw [hh.get?_globals] at hv
    exact hh.bindings _ name v hv

end Lox
