import Lox.Proofs.Eval.Methods
import Lox.Proofs.Session.Scoping

/-
  Bound methods stay bound

  All heaps of a history grow into its last one, so in each of them the frames that
  declarations and bindings of methods made are what they are in the last one. Hence
  `this` and `super` mean the same whenever and wherever the code of a bound method
  runs (`bound_method_fixed`).
-/

namespace Lox

open Eval

namespace Session

/-- `Within rounds s rs k t m`: while the requests are performed the evaluator comes to
`t` with the machine `m`, and `t` is code of the body of `k`, in a call of `k`, or of a
function that is nested in this body, in a call of that function. -/
inductive Within (rounds : Nat) (s : Session) (rs : List Request) (k : Closure) :
    Task → Machine → Prop
  | body {arguments : List Value} {m : Machine} :
      Happens rounds s rs (.function k arguments) m →
      Within rounds s rs k (.stmts k.declaration.body) (k.entered arguments m)
  | code {t t' : Task} {m m' : Machine} :
      Within rounds s rs k t m → Enters rounds t m t' m' → t'.Code → Within rounds s rs k t' m'
  /-- the function is called at any time, and from anywhere -/
  | nested {declaration : Function} {arguments : List Value} {m m' : Machine} :
      Within rounds s rs k (.stmt (.function declaration)) m →
      Happens rounds s rs (.function ⟨declaration, m.frame, false⟩ arguments) m' →
      Within rounds s rs k (.stmts declaration.body)
        (Closure.entered ⟨declaration, m.frame, false⟩ arguments m')

variable {ok : Site → Prop} {made : FrameId → Opener → Prop} {rounds : Nat}

/-! ## The last heap of a history -/

/-- All heaps of a history grow into its last one. -/
theorem Happens.extends_afterAll {s : Session} {rs : List Request} {t : Task} {m : Machine}
    (h : Happens rounds s rs t m) (hs : Sound ok made s)
    (hmade : ∀ f o, Made rounds s rs f o → made f o) :
    ((t.run rounds).after m).heap.Extends (s.afterAll rounds rs).machine.heap := by
  induction h generalizing ok with
  | @now s r rs n t m hcomes =>
    -- what is left of the request, and then the later ones
    obtain ⟨t₀, s₁, hb, hreach⟩ := hcomes
    have hdepth : s₁.machine.depth ≤ maxCallDepth := (hs.begins hb).depth ▸ Nat.zero_le _
    have hmakes := hb.makes hmade
    have hrest := ((hs.perform hb hmakes).afterAll_grown fun f o h => hmade f o h.later).2
    have hheap : (s.perform rounds r).2.machine.heap = _ :=
      congrArg (fun s : Session => s.machine.heap) hb.session_eq
    exact ((hs.good hb).extends_reached hdepth hmakes hreach).trans (hheap ▸ hrest)
  | @later s r rs t m _ ih =>
    have hlater := fun f o (h : Made rounds (s.perform rounds r).2 rs f o) => hmade f o h.later
    obtain ⟨t₀, s₁, hb⟩ | ⟨a, k, hp, hk, -⟩ := perform_cases rounds s r
    · exact ih (hs.perform hb (hb.makes hmade)) hlater
    · rw [hp] at ih hlater
      rw [afterAll, hp]
      exact ih (hs.usedUp hk) hlater

variable {rounds : Nat} {sink : Sink} {clock : Clock} {rs : List Request} {t : Task} {m : Machine}
  {k : Closure}

/-- The heap after all the requests of a history. -/
def lastHeap (rounds : Nat) (sink : Sink) (clock : Clock) (rs : List Request) : Heap :=
  (afterAll rounds (start sink clock) rs).machine.heap

theorem extends_lastHeap (h : Happens rounds (start sink clock) rs t m) :
    ((t.run rounds).after m).heap.Extends (lastHeap rounds sink clock rs) :=
  h.extends_afterAll (sound_start sink clock) fun _ _ h => h

theorem Happens.heap_extends (h : Happens rounds (start sink clock) rs t m) :
    m.heap.Extends (lastHeap rounds sink clock rs) := by
  obtain ⟨ok, -, hm⟩ := moment_of_happens h
  exact (Task.safe hm.depth hm.makes hm.good).extends_after.trans (extends_lastHeap h)

/-! ## Where `this` is bound -/

variable {t' : Task} {m' : Machine}

theorem Happens.enters {s : Session} (h : Happens rounds s rs t m) (he : Enters rounds t m t' m') :
    Happens rounds s rs t' m' := by
  induction h with
  | now hcomes =>
    obtain ⟨t₀, s₁, hb, hreach⟩ := hcomes
    exact .now ⟨t₀, s₁, hb, hreach.trans (.single he)⟩
  | later _ ih => exact .later (ih he)

theorem Within.task_code {s : Session} (h : Within rounds s rs k t m) : t.Code := by
  cases h with
  | body | nested => trivial
  | code _ _ ht => exact ht

theorem Within.happens {s : Session} (h : Within rounds s rs k t m) : Happens rounds s rs t m := by
  induction h with
  | body h | nested _ h => exact h.enters .body
  | code _ he _ ih => exact ih.enters he

/-- A function that is called passes its own frame over. -/
theorem Happens.holder?_function {closure : Closure} {arguments : List Value}
    (h : Happens rounds (start sink clock) rs (.function closure arguments) m) {name : String}
    (hname : Heap.Reserved name) :
    (lastHeap rounds sink clock rs).holder? (closure.entered arguments m).frame name =
      (lastHeap rounds sink clock rs).holder? closure.frame name := by
  obtain ⟨ok, -, hm⟩ := moment_of_happens h
  obtain ⟨-, ⟨hproper, os, r, kind, hfits, -⟩, -⟩ := hm.good.settled
  exact holder?_inNewFrame (h.enters .body).heap_extends (hfits.lt_size hm.good.heap.global)
    (hproper.parameters_not_reserved arguments) hname

/-- Wherever code of a method runs, the frame of the method is the first one outward
that binds `this`. -/
theorem Within.holder?_self (h : Within rounds (start sink clock) rs k t m)
    (hk : (lastHeap rounds sink clock rs).Binds k.frame selfName) :
    (lastHeap rounds sink clock rs).holder? m.frame selfName = some k.frame := by
  -- on the way into the code frames are made, and none of them binds `this`
  induction h with
  | body h => exact (h.holder?_function (.inl rfl)).trans (Heap.holder?_of_binds hk)
  | nested _ h ih => exact (h.holder?_function (.inl rfl)).trans ih
  | @code t t' m m' hwithin he ht' ih =>
    obtain hframe | ⟨body, rfl, rfl⟩ := he.frame_of_code hwithin.task_code ht'
    · rw [hframe]
      exact ih
    · obtain ⟨ok, -, hm⟩ := moment_of_happens hwithin.happens
      have hext := (hwithin.happens.enters he).heap_extends
      exact (holder?_inNewFrame hext (hm.good.settled.2.lt_size hm.good.heap) (by simp)
        (.inl rfl)).trans ih

/-- What binds `this` first outward is the frame of the method, with its object. -/
theorem Within.self_eq {method : Closure} {object object' : Nat} {own c : Class} {f : FrameId}
    (h : Within rounds (start sink clock) rs k t m)
    (hk : k.BoundTo method object own (lastHeap rounds sink clock rs))
    (hf : (lastHeap rounds sink clock rs).holder? m.frame selfName = some f)
    (hobject : (m.heap.bindings f).find? selfName = some (.object object' c)) :
    f = k.frame ∧ object' = object ∧ c = own := by
  rw [h.holder?_self (by rw [Heap.Binds, hk.object]; rfl)] at hf
  cases hf
  have hlt := Heap.lt_size_of_find? hobject
  rw [← h.happens.heap_extends.reserved _ hlt _ (.inl rfl), hk.object] at hobject
  cases hobject
  exact ⟨rfl, rfl, rfl⟩

/-- The frame that the methods of a class lie in binds its superclass for ever. -/
theorem Happens.binds_super {c superclass : Class} {method : Closure}
    (h : Happens rounds (start sink clock) rs t m) (hc : Declares rounds t m c)
    (hsuper : c.superclass = some superclass) (hmethod : method ∈ c.methods.map Prod.snd) :
    ∃ id, ((lastHeap rounds sink clock rs).bindings method.frame).find? superName =
      some (.cls id superclass) := by
  obtain ⟨ok, -, hm⟩ := moment_of_happens h
  obtain ⟨id, hid⟩ := hc.binds_super hsuper hm.depth hm.makes hm.good hmethod
  have hlast := (extends_lastHeap h).reserved _ (Heap.lt_size_of_find? hid) _ (.inr rfl)
  exact ⟨id, hlast.trans hid⟩

/-! ## Uses of `this` and `super` -/

/-- A variable without a distance is read in the global frame. -/
theorem Happens.global_at {id : Nat} {name : Token} {v : Value}
    (h : Happens rounds (start sink clock) rs (.expr (.var id name)) m)
    (hd : m.distances[id]? = none)
    (hv : (m.heap.bindings Heap.globals).find? name.lexeme = some v) :
    Lox.evaluate rounds (.var id name) m = .ok v m := by
  obtain ⟨ok, -, hm⟩ := moment_of_happens h
  have hdenotes : m.Denotes id Heap.globals := by rw [Machine.Denotes, hd]
  refine (hdenotes.readVariable_eq hm.good.heap name).trans ?_
  rw [Machine.readIn, hv]

/-- A class that was declared without a superclass is bound to its name. -/
theorem Happens.after_baseClass {s : Session} {name : Token} {methods : List Function}
    {rest : List Stmt}
    (h : Happens rounds s rs (.stmts (.classDecl name none methods :: rest)) m)
    (hf : m.frame < m.heap.frames.size) :
    ∃ heap i, Happens rounds s rs (.stmts rest) { m with heap := heap } ∧
      (heap.bindings m.frame).find? name.lexeme =
        some (.cls i ⟨name.lexeme, none, methodTable methods m.frame⟩) := by
  refine ⟨_, m.heap.nextIdentity, h.enters (.more (execute_baseClass hf)), ?_⟩
  refine (Heap.find?_define ..).trans (if_pos ⟨rfl, ?_, rfl⟩)
  show _ < Array.size (Heap.frames (Heap.define ..))
  rwa [Heap.size_frames_define]

section DerivedClass

variable {name superclass : Token} {methods : List Function} {id i : Nat} {c : Class}
  {rest : List Stmt}

/-- A global superclass is the class that is bound to its name. -/
theorem Happens.superclass_at
    (h : Happens rounds (start sink clock) rs
      (.stmt (.classDecl name (some (.var id superclass)) methods)) m)
    (hd : m.distances[id]? = none)
    (hc : (m.heap.bindings Heap.globals).find? superclass.lexeme = some (.cls i c))
    (hother : superclass.lexeme ≠ name.lexeme) :
    Lox.evaluate rounds (.var id superclass)
        { m with heap := m.heap.define m.frame name.lexeme .nil } =
      .ok (.cls i c) { m with heap := m.heap.define m.frame name.lexeme .nil } := by
  refine (h.enters .superclass).global_at hd ?_
  exact (Heap.find?_define ..).trans ((if_neg fun h => hother h.2.2).trans hc)

/-- The methods of a class with a global superclass lie in the next frame. -/
theorem Happens.declares_derivedClass
    (h : Happens rounds (start sink clock) rs
      (.stmt (.classDecl name (some (.var id superclass)) methods)) m)
    (hd : m.distances[id]? = none)
    (hc : (m.heap.bindings Heap.globals).find? superclass.lexeme = some (.cls i c))
    (hother : superclass.lexeme ≠ name.lexeme) :
    Declares rounds (.stmt (.classDecl name (some (.var id superclass)) methods)) m
      ⟨name.lexeme, some c, methodTable methods m.heap.frames.size⟩ := by
  rw [← Heap.size_frames_define m.heap m.frame name.lexeme .nil]
  exact .derived (h.superclass_at hd hc hother)

/-- A class that was declared at the top level with a global superclass is bound to its name. -/
theorem Happens.after_derivedClass
    (h : Happens rounds (start sink clock) rs
      (.stmts (.classDecl name (some (.var id superclass)) methods :: rest)) m)
    (hframe : m.frame = Heap.globals) (hd : m.distances[id]? = none)
    (hc : (m.heap.bindings Heap.globals).find? superclass.lexeme = some (.cls i c))
    (hother : superclass.lexeme ≠ name.lexeme) :
    ∃ heap j, Happens rounds (start sink clock) rs (.stmts rest) { m with heap := heap } ∧
      (heap.bindings Heap.globals).find? name.lexeme =
        some (.cls j ⟨name.lexeme, some c, methodTable methods m.heap.frames.size⟩) := by
  let m₁ : Machine := { m with heap := m.heap.define m.frame name.lexeme .nil }
  have hlt : m.frame < m.heap.frames.size := hframe ▸ Heap.lt_size_of_find? hc
  have hb : m₁.heap.Binds m₁.frame name.lexeme := Heap.binds_define hlt name.lexeme .nil
  have hv : Lox.evaluate rounds (.var id superclass) m₁ = .ok (.cls i c) m₁ :=
    (h.enters .first).superclass_at hd hc hother
  have hrun : execute rounds (.classDecl name (some (.var id superclass)) methods) m = _ :=
    execute_derivedClass hv hb
  have hsize : m₁.heap.frames.size = m.heap.frames.size := Heap.size_frames_define ..
  refine ⟨_, m₁.heap.nextIdentity, h.enters (.more hrun), ?_⟩
  -- a frame is added for `super`, and the one that binds the name stays
  have hlast := (Heap.lt_size_of_binds hb).trans_le (m₁.extends_withSuper i c).size
  rw [← hframe, ← hsize]
  exact (Heap.find?_define ..).trans (if_pos ⟨rfl, hlast, rfl⟩)

end DerivedClass

/-- A `this` is the object in the first frame outward that binds `this`. -/
theorem Happens.self_at {id : Nat} {keyword : Token}
    (h : Happens rounds (start sink clock) rs (.expr (.self id keyword)) m) :
    ∃ f object c, (lastHeap rounds sink clock rs).holder? m.frame selfName = some f ∧
      (m.heap.bindings f).find? selfName = some (.object object c) ∧
      Lox.evaluate rounds (.self id keyword) m = .ok (.object object c) m := by
  obtain ⟨ok, -, hm⟩ := moment_of_happens h
  have hh := hm.good.heap
  obtain ⟨site, hsite, hnode, rfl, hname, hfits⟩ := hm.good.site rfl
  obtain ⟨frames, hmatches⟩ := hfits.matches hh.outermost (hm.distances site hsite)
  have hword : keyword.lexeme = selfName := hm.good.settled.1
  obtain ⟨d, f, object, c, hknown, hd, hf, hobject⟩ :=
    hmatches.self hfits (hm.fine site hsite) hnode (hname.trans hword)
  refine ⟨f, object, c, hmatches.holder?_eq hfits h.heap_extends (.inl rfl) hknown hf, hobject, ?_⟩
  refine ((hmatches.denotes_at hd hf).readVariable_eq hh keyword).trans ?_
  rw [Machine.readIn, hword, hobject]

/-- A `super` looks its method up in the class in the frame around the first one outward
that binds `this`, and binds it to the object in that one. -/
theorem Happens.super_at {id : Nat} {keyword name : Token}
    (h : Happens rounds (start sink clock) rs (.expr (.super id keyword name)) m) :
    ∃ f g i object superclass c,
      (lastHeap rounds sink clock rs).holder? m.frame selfName = some f ∧
      (m.heap.bindings f).find? selfName = some (.object object c) ∧
      m.heap.enclosing? f = some g ∧
      (m.heap.bindings g).find? superName = some (.cls i superclass) ∧
      m.super? id = some (superclass, object, c) ∧ superclass.Declared := by
  obtain ⟨ok, -, hm⟩ := moment_of_happens h
  have hh := hm.good.heap
  obtain ⟨site, hsite, hnode, rfl, hname, hfits⟩ := hm.good.site rfl
  obtain ⟨frames, hmatches⟩ := hfits.matches hh.outermost (hm.distances site hsite)
  have hword : keyword.lexeme = superName := hm.good.settled.1
  -- the frames of `super` and `this` are next to each other on the chain
  obtain ⟨d, g, f, i, superclass, object, c, hknown, hd, hg, hclass, hf, hobject, hfound⟩ :=
    hmatches.super hfits (hm.fine site hsite) hnode (hname.trans hword)
  have hfitted : superclass.Fitted ok _ m.heap := hh.bindings g superName (.cls i superclass) hclass
  refine ⟨f, g, i, object, superclass, c, ?_, hobject, ?_, hclass, hfound, hfitted.declared⟩
  · exact hmatches.holder?_eq hfits h.heap_extends (.inl rfl) hknown hf
  · exact (Heap.ancestor?_next (hmatches.ancestors d f hf)).symm.trans (hmatches.ancestors _ g hg)

/-- However a method was obtained from an object, and wherever and whenever its code runs:
a `this` in it is that object, and a `super` looks its method up in the superclass of the
class in which the method was declared, and binds it to that object. -/
theorem bound_method_fixed {t₀ t₁ : Task} {m₀ m₁ : Machine} {c own : Class} {method : Closure}
    {object : Nat} (hdeclaration : Happens rounds (start sink clock) rs t₀ m₀)
    (hc : Declares rounds t₀ m₀ c) (hmethod : method ∈ c.methods.map Prod.snd)
    (hbinding : Happens rounds (start sink clock) rs t₁ m₁)
    (hk : Obtains rounds t₁ m₁ method object own k) :
    (∀ id keyword m, Within rounds (start sink clock) rs k (.expr (.self id keyword)) m →
      Lox.evaluate rounds (.self id keyword) m = .ok (.object object own) m) ∧
    ∀ superclass, c.superclass = some superclass → ∀ id keyword name m,
      Within rounds (start sink clock) rs k (.expr (.super id keyword name)) m →
      (∃ found i k' m', superclass.Finds name.lexeme found ∧
        Lox.evaluate rounds (.super id keyword name) m = .ok (.function i k') m' ∧
        k'.BoundTo found object own m'.heap) ∨
      superclass.Lacks name.lexeme ∧ Lox.evaluate rounds (.super id keyword name) m =
        .error (.error (.program name.line (.undefinedProperty name.lexeme))) m := by
  obtain ⟨ok, -, hm⟩ := moment_of_happens hbinding
  have hbound := (hk.boundTo hm.depth hm.makes hm.good).mono (extends_lastHeap hbinding)
  refine ⟨fun id keyword m h => ?_, fun superclass hsuper id keyword name m h => ?_⟩
  · obtain ⟨f, object', c', hf, hobject, hrun⟩ := h.happens.self_at
    obtain ⟨-, rfl, rfl⟩ := h.self_eq hbound hf hobject
    exact hrun
  · obtain ⟨f, g, i, object', superclass', c', hf, hobject, hg, hclass, hfound, hdeclared⟩ :=
      h.happens.super_at
    have hlt := Heap.lt_size_of_find? hobject
    obtain ⟨rfl, rfl, rfl⟩ := h.self_eq hbound hf hobject
    have hext := h.happens.heap_extends
    -- the frame around that of the bound method is that of the method
    obtain rfl : g = method.frame := by
      rw [← hext.enclosing _ hlt, hbound.enclosing] at hg
      exact (Option.some.inj hg).symm
    -- it binds what it was bound to by the declaration
    obtain rfl : superclass' = superclass := by
      obtain ⟨j, hj⟩ := hdeclaration.binds_super hc hsuper hmethod
      rw [← hext.reserved _ (Heap.lt_size_of_find? hclass) _ (.inr rfl), hj] at hclass
      cases hclass
      rfl
    obtain ⟨found, hfind, hfinds⟩ | ⟨hnone, hlacks⟩ := hdeclared.finds_or_lacks name.lexeme
    · obtain ⟨j, k', m', hrun, hk'⟩ := boundMethod_eq found object' c' m
      exact .inl ⟨found, j, k', m', hfinds, (superMethod_of_method hfound hfind).trans hrun, hk'⟩
    · exact .inr ⟨hlacks, superMethod_of_no_method hfound hnone⟩

/-- A method `init` of a class that extends another one, run by a construction. -/
theorem bound_method_fixed_init :
    let s := start .unlimited (.ticking 0)
    let source := "class A \x7b m() \x7b\x7d \x7d class B < A \x7b init() \x7b this; super.m; \x7d \x7d B();"
    let self : Expr := .self 1 ⟨.thisWord, "this", 1⟩
    let inherited : Expr := .super 2 ⟨.superWord, "super", 1⟩ ⟨.identifier, "m", 1⟩
    ∃ t₀ m₀ t₁ m₁ c superclass method object k m,
      Happens 0 s [.run source] t₀ m₀ ∧ Declares 0 t₀ m₀ c ∧ method ∈ c.methods.map Prod.snd ∧
      c.superclass = some superclass ∧
      Happens 0 s [.run source] t₁ m₁ ∧ Obtains 0 t₁ m₁ method object c k ∧
      Within 0 s [.run source] k (.expr self) m ∧
      Lox.evaluate 0 self m = .ok (.object object c) m ∧
      Within 0 s [.run source] k (.expr inherited) m ∧
      ((∃ found i k' m', superclass.Finds "m" found ∧
        Lox.evaluate 0 inherited m = .ok (.function i k') m' ∧
        k'.BoundTo found object c m'.heap) ∨
      superclass.Lacks "m" ∧ Lox.evaluate 0 inherited m =
        .error (.error (.program 1 (.undefinedProperty "m"))) m) := by
  intro s source self inherited
  let word (name : String) : Token := ⟨.identifier, name, 1⟩
  let inits : Function := ⟨word "init", [], [.expression self, .expression inherited]⟩
  let base : Stmt := .classDecl (word "A") none [⟨word "m", [], []⟩]
  let derived : Stmt := .classDecl (word "B") (some (.var 0 (word "A"))) [inits]
  let paren : Token := ⟨.rightParen, ")", 1⟩
  let m₀ : Machine := s.machine.record (((∅ : Distances).insert 1 1).insert 2 2)
  have hb : Begins (.run source) s
      (.stmts [base, derived, .expression (.call (.var 3 (word "B")) paren [])]) ⟨m₀, 4⟩ :=
    .run_of_spans (by cbv) (by cbv) rfl
  have hprogram : Happens 0 s [.run source] _ m₀ := .now ⟨_, _, hb, .here⟩
  -- the declarations
  let A : Class := ⟨"A", none, methodTable [⟨word "m", [], []⟩] 0⟩
  obtain ⟨h₁, i, hmore, hA⟩ := hprogram.after_baseClass (by decide)
  let B : Class := ⟨"B", some A, methodTable [inits] h₁.frames.size⟩
  have hother : "A" ≠ "B" := by decide
  have hderived := hmore.enters .first
  have hdeclares : Declares 0 (.stmt derived) { m₀ with heap := h₁ } B :=
    hderived.declares_derivedClass rfl hA hother
  obtain ⟨h₂, j, hrest, hB⟩ := hmore.after_derivedClass rfl rfl hA hother
  -- the construction
  have hcall := (hrest.enters .first).enters .expression
  have hcallee : Lox.evaluate 0 (.var 3 (word "B")) { m₀ with heap := h₂ } = .ok (.cls j B) _ :=
    (hcall.enters .callee).global_at rfl hB
  let m₁ : Machine := { m₀ with heap := h₂, depth := 1 }
  have hinvoke : Happens 0 s [.run source] (.invoke (.cls j B) []) m₁ :=
    (hcall.enters (.call hcallee rfl)).enters (.invoke rfl (show 0 < maxCallDepth by decide))
  let method := inits.method h₁.frames.size
  have hmethod : B.findMethod? Class.initializerName = some method := rfl
  obtain ⟨k, m, hbind, hk⟩ : ∃ k m, Eval.bind method h₂.objects.size B
      { m₁ with heap := h₂.newObject.2 } = .ok k m ∧ k.declaration = inits := ⟨_, _, rfl, rfl⟩
  have hobtains : Obtains 0 (.invoke (.cls j B) []) m₁ method h₂.objects.size B k :=
    .construction hmethod rfl hbind
  have hrun := hinvoke.enters (.initializer hmethod rfl hbind)
  have hbody : Within 0 s [.run source] k (.stmts [.expression self, .expression inherited])
      (k.entered [] m) := by
    have hbody := Within.body hrun
    rwa [hk] at hbody
  have hself := (hbody.code .first trivial).code .expression trivial
  obtain ⟨hthis, hsuper⟩ := bound_method_fixed hderived hdeclares (.head _) hinvoke hobtains
  have hvalue := hthis _ _ _ hself
  have hinherited := ((hbody.code (.more (bind_of_ok hvalue)) trivial).code .first trivial).code
    .expression trivial
  exact ⟨_, _, _, _, B, A, method, h₂.objects.size, k, k.entered [] m, hderived, hdeclares,
    .head _, rfl, hinvoke, hobtains, hself, hvalue, hinherited, hsuper A rfl _ _ _ _ hinherited⟩

end Session

end Lox
