import Lox.Proofs.Eval.Grown

/-
  Methods — how they are declared, bound and run

  A class declaration makes its methods close over a frame, which binds the
  superclass if there is one (`Declares.binds_super`). Binding a method makes a frame
  inside that one, which binds the object (`Obtains.boundTo`). The code of the method
  runs in frames further in, which bind neither `this` nor `super`.
-/

namespace Lox

open Eval

/-! ## Declarations, bound methods and their code -/

/-- `Declares rounds t m c`: the class declaration that `t` executes, begun with `m`,
makes the class `c`. -/
inductive Declares (rounds : Nat) : Task → Machine → Class → Prop
  | base {name : Token} {methods : List Function} {m : Machine} :
      Declares rounds (.stmt (.classDecl name none methods)) m
        ⟨name.lexeme, none, methodTable methods m.frame⟩
  /-- the methods close over a new frame, which binds the superclass -/
  | derived {name : Token} {superclass : Expr} {methods : List Function} {m m₁ : Machine}
      {id : Nat} {c : Class} :
      evaluate rounds superclass { m with heap := m.heap.define m.frame name.lexeme .nil } =
        .ok (.cls id c) m₁ →
      Declares rounds (.stmt (.classDecl name (some superclass) methods)) m
        ⟨name.lexeme, some c, methodTable methods m₁.heap.frames.size⟩

/-- `Obtains rounds t m method object c k`: the task `t`, begun with `m`, binds the method
to the object, an instance of `c`, and `k` is the bound method. -/
inductive Obtains (rounds : Nat) : Task → Machine → Closure → Nat → Class → Closure → Prop
  | property {object : Expr} {name : Token} {m m₁ m₂ : Machine} {id i : Nat} {c : Class}
      {method k : Closure} :
      evaluate rounds object m = .ok (.object id c) m₁ →
      (m₁.heap.fields id).find? name.lexeme = none → c.findMethod? name.lexeme = some method →
      boundMethod method id c m₁ = .ok (.function i k) m₂ →
      Obtains rounds (.expr (.get object name)) m method id c k
  | superMethod {id object i : Nat} {keyword name : Token} {m m₁ : Machine} {superclass c : Class}
      {method k : Closure} :
      m.super? id = some (superclass, object, c) →
      superclass.findMethod? name.lexeme = some method →
      boundMethod method object c m = .ok (.function i k) m₁ →
      Obtains rounds (.expr (.super id keyword name)) m method object c k
  | construction {id object : Nat} {c : Class} {method k : Closure} {arguments : List Value}
      {m m₁ m₂ : Machine} :
      c.findMethod? Class.initializerName = some method → newObject m = .ok object m₁ →
      Eval.bind method object c m₁ = .ok k m₂ →
      Obtains rounds (.invoke (.cls id c) arguments) m method object c k

/-- Tasks that are trees, or lists of trees. -/
def Task.Code : Task → Prop
  | call _ _ _ | invoke _ _ | function _ _ => False
  | _ => True

/-! ## Frames of bound methods -/

/-- A bound method is the method in another frame, which lies inside that of the method
and binds the object. -/
structure Closure.BoundTo (k method : Closure) (object : Nat) (c : Class) (h : Heap) : Prop where
  declaration : k.declaration = method.declaration
  initializer : k.initializer = method.initializer
  lt : k.frame < h.frames.size
  enclosing : h.enclosing? k.frame = some method.frame
  object : (h.bindings k.frame).find? selfName = some (.object object c)

section

variable {rounds : Nat} {t : Task} {m m' : Machine} {k method : Closure} {object : Nat} {c : Class}
  {h h' : Heap}

theorem Closure.BoundTo.mono (hk : k.BoundTo method object c h) (hext : h.Extends h') :
    k.BoundTo method object c h' :=
  ⟨hk.declaration, hk.initializer, hk.lt.trans_le hext.size,
    (hext.enclosing _ hk.lt).trans hk.enclosing,
    (hext.reserved _ hk.lt _ (.inl rfl)).trans hk.object⟩

theorem boundTo_of_bind (hb : Eval.bind method object c m = .ok k m') :
    k.BoundTo method object c m'.heap := by
  cases hb
  have hlt := Heap.lt_size_newFrame m.heap (some method.frame)
  refine ⟨rfl, rfl, ?_, ?_, ?_⟩
  · show m.heap.frames.size < Array.size _
    rwa [Heap.size_frames_define]
  · exact (Heap.enclosing?_define ..).trans (Heap.enclosing?_new ..)
  · show Bindings.find? (Heap.bindings _ _) _ = _
    exact (Heap.find?_define ..).trans (if_pos ⟨rfl, hlt, rfl⟩)

theorem boundTo_of_boundMethod {i : Nat}
    (hb : boundMethod method object c m = .ok (.function i k) m') :
    k.BoundTo method object c m'.heap := by
  obtain ⟨k', m₁, hbind, hnew⟩ := ok_of_bind hb
  cases hnew
  exact (boundTo_of_bind hbind).mono (.of_frames rfl)

/-- Binding a method always yields a function. -/
theorem boundMethod_eq (method : Closure) (object : Nat) (c : Class) (m : Machine) :
    ∃ i k m', boundMethod method object c m = .ok (.function i k) m' ∧
      k.BoundTo method object c m'.heap :=
  ⟨_, _, _, rfl, boundTo_of_boundMethod rfl⟩

/-- Binding a method is part of what the task leaves. -/
theorem Obtains.boundTo {ok : Site → Prop} {made : FrameId → Opener → Prop}
    (hk : Obtains rounds t m method object c k) (hm : m.depth ≤ maxCallDepth)
    (hmakes : Makes made rounds t m) (hgood : Good ok made t m) :
    k.BoundTo method object c ((t.run rounds).after m).heap := by
  cases hk with
  | property hobject hfield hmethod hb =>
    have hrun : evaluate rounds (.get _ _) m = _ :=
      (bind_of_ok hobject).trans ((getProperty_of_method hfield hmethod).trans hb)
    exact after_of_ok hrun ▸ boundTo_of_boundMethod hb
  | @superMethod _ _ _ keyword _ _ _ _ _ _ _ hsuper hmethod hb =>
    have hrun : evaluate rounds (.super _ keyword _) m = _ :=
      (superMethod_of_method hsuper hmethod).trans hb
    exact after_of_ok hrun ▸ boundTo_of_boundMethod hb
  | @construction id _ _ _ _ arguments _ _ m₂ hmethod hnew hb =>
    -- the initializer is bound before it is run, and the heap only grows from there on
    have he : Enters rounds (.invoke (.cls id c) arguments) m (.function k arguments) m₂ :=
      .initializer hmethod hnew hb
    have hsafe := (hgood.entered hm hmakes he).2
    exact (boundTo_of_bind hb).mono (hsafe.extends_after.trans (hgood.extends_entered hm hmakes he))

end

/-- Every method that is bound was found in a class that a declaration made. -/
theorem Obtains.finds {ok : Site → Prop} {made : FrameId → Opener → Prop} {rounds : Nat}
    {t : Task} {m : Machine} {method k : Closure} {object : Nat} {c : Class}
    (hk : Obtains rounds t m method object c k) (hm : m.depth ≤ maxCallDepth)
    (hmakes : Makes made rounds t m) (hgood : Good ok made t m) :
    ∃ c' name, Class.Finds c' name method := by
  cases hk with
  | property hobject _ hmethod _ =>
    have hfitted := ((hgood.entered hm hmakes .getObject).2.of_ok hobject).2.2
    have hc : c.Fitted ok made _ := hfitted
    exact ⟨c, _, hc.declared.findMethod?_eq_some_iff.1 hmethod⟩
  | superMethod hsuper hmethod _ =>
    obtain ⟨_, i, -, hclass, -⟩ := Machine.super?_eq_some hsuper
    have hc : Class.Fitted ok made _ _ := hgood.heap.getAt? (v := .cls i _) hclass
    exact ⟨_, _, hc.declared.findMethod?_eq_some_iff.1 hmethod⟩
  | construction hmethod _ _ =>
    have hc : c.Fitted ok made m.heap := hgood.settled.2.1
    exact ⟨c, _, hc.declared.findMethod?_eq_some_iff.1 hmethod⟩

/-! ## Class declarations -/

section

variable {rounds : Nat} {t : Task} {m : Machine} {c : Class}

/-- A class is bound to its name, where that is bound already. -/
theorem bindClass_of_binds {name : Token} (hb : m.heap.Binds m.frame name.lexeme) (c : Class) :
    (do assign name (← newClass c) : Eval Unit) m =
      .ok () { m with
        heap := m.heap.newIdentity.2.define m.frame name.lexeme (.cls m.heap.nextIdentity c) } := by
  have hholder : m.heap.newIdentity.2.holder? m.frame name.lexeme = some m.frame :=
    Heap.holder?_of_binds hb
  refine (bind_of_ok rfl).trans ?_
  show assignIn (m.heap.newIdentity.2.holder? m.frame name.lexeme) name _ _ = _
  rw [hholder]
  rfl

theorem execute_baseClass {name : Token} {methods : List Function}
    (hf : m.frame < m.heap.frames.size) :
    execute rounds (.classDecl name none methods) m =
      .ok .normal { m with
        heap := (m.heap.define m.frame name.lexeme .nil).newIdentity.2.define m.frame name.lexeme
          (.cls m.heap.nextIdentity ⟨name.lexeme, none, methodTable methods m.frame⟩) } :=
  (bind_of_ok rfl).trans (bind_of_ok ((bind_of_ok rfl).trans
    (bindClass_of_binds (Heap.binds_define hf name.lexeme .nil) _)))

/-- The heap in which the methods of a class with a superclass are made. -/
def Machine.withSuper (m : Machine) (id : Nat) (superclass : Class) : Heap :=
  (m.heap.newFrame (some m.frame)).2.define m.heap.frames.size superName (.cls id superclass)

theorem Machine.extends_withSuper (m : Machine) (id : Nat) (superclass : Class) :
    m.heap.Extends (m.withSuper id superclass) :=
  (Heap.Extends.newFrame m.heap (some m.frame)).define_fresh (Nat.le_refl _) _ _

theorem declareClass_of_binds {name : Token} (methods : List Function) {id : Nat}
    (hb : m.heap.Binds m.frame name.lexeme) :
    declareClass name methods (some (id, c)) m =
      .ok () { m with
        heap := (m.withSuper id c).newIdentity.2.define m.frame name.lexeme
          (.cls m.heap.nextIdentity
            ⟨name.lexeme, some c, methodTable methods m.heap.frames.size⟩) } := by
  have hb' := (m.extends_withSuper id c).binds _ (Heap.lt_size_of_binds hb) _ hb
  exact (bind_of_ok rfl).trans ((bind_of_ok rfl).trans ((bind_of_ok rfl).trans
    (bindClass_of_binds (m := { m with heap := m.withSuper id c }) hb' _)))

variable {ok : Site → Prop} {made : FrameId → Opener → Prop}

/-- The name of a class stays bound while its superclass is evaluated. -/
theorem Good.binds_before_superclass {name : Token} {superclass : Expr} {methods : List Function}
    {m₁ : Machine} {v : Value}
    (hgood : Good ok made (.stmt (.classDecl name (some superclass) methods)) m)
    (hm : m.depth ≤ maxCallDepth)
    (hmakes : Makes made rounds (.stmt (.classDecl name (some superclass) methods)) m)
    (hv : evaluate rounds superclass { m with heap := m.heap.define m.frame name.lexeme .nil } =
      .ok v m₁) : m₁.heap.Binds m₁.frame name.lexeme := by
  have hlt := hgood.settled.2.lt_size hgood.heap
  have hext := ((hgood.entered hm hmakes .superclass).2.of_ok hv).1
  rw [frame_of_evaluate hv]
  exact hext.binds _ (by rwa [Heap.size_frames_define]) _ (Heap.binds_define hlt name.lexeme .nil)

theorem execute_derivedClass {name : Token} {superclass : Expr} {methods : List Function}
    {m₁ : Machine} {id : Nat}
    (hv : evaluate rounds superclass { m with heap := m.heap.define m.frame name.lexeme .nil } =
      .ok (.cls id c) m₁)
    (hb : m₁.heap.Binds m₁.frame name.lexeme) :
    execute rounds (.classDecl name (some superclass) methods) m =
      .ok .normal { m₁ with
        heap := (m₁.withSuper id c).newIdentity.2.define m₁.frame name.lexeme
          (.cls m₁.heap.nextIdentity
            ⟨name.lexeme, some c, methodTable methods m₁.heap.frames.size⟩) } :=
  (bind_of_ok rfl).trans ((bind_of_ok hv).trans ((bind_of_ok rfl).trans
    (bind_of_ok (declareClass_of_binds methods hb))))

/-- The methods of a class that extends another one lie in a frame that binds that one. -/
theorem Declares.binds_super {superclass : Class} {method : Closure} (hc : Declares rounds t m c)
    (hsuper : c.superclass = some superclass) (hm : m.depth ≤ maxCallDepth)
    (hmakes : Makes made rounds t m) (hgood : Good ok made t m)
    (hmethod : method ∈ c.methods.map Prod.snd) :
    ∃ id, (((t.run rounds).after m).heap.bindings method.frame).find? superName =
      some (.cls id superclass) := by
  cases hc with
  | base => cases hsuper
  | @derived name expr methods _ m₁ id c hv =>
    cases hsuper
    obtain ⟨entry, he, rfl⟩ := List.mem_map.1 hmethod
    obtain ⟨d, hd, rfl⟩ := Class.mem_methodTable.1 he
    have hb := hgood.binds_before_superclass hm hmakes hv
    have hrun : (Task.stmt (.classDecl name (some expr) methods)).run rounds m = _ :=
      execute_derivedClass hv hb
    -- no class is named `super`, so binding its name leaves that of the superclass
    have hother : superName ≠ name.lexeme := hgood.settled.1.1.2.symm
    have hlt := Heap.lt_size_newFrame m₁.heap (some m₁.frame)
    rw [after_of_ok hrun]
    refine ⟨id, (Heap.find?_define ..).trans ((if_neg fun h => hother h.2.2).trans ?_)⟩
    exact (Heap.find?_define ..).trans (if_pos ⟨rfl, hlt, rfl⟩)

end

/-! ## The frame of the code of a method -/

section

variable {rounds : Nat} {t t' : Task} {m m' : Machine} {h : Heap}

/-- A new frame with names that a program chose is passed over. -/
theorem holder?_inNewFrame {f : FrameId} {values : List (String × Value)} {name : String}
    (hext : (m.inNewFrame f values).heap.Extends h) (hf : f < m.heap.frames.size)
    (hnames : ∀ name ∈ values.map Prod.fst, ¬Heap.Reserved name) (hname : Heap.Reserved name) :
    h.holder? (m.inNewFrame f values).frame name = h.holder? f name := by
  have hlt : (m.inNewFrame f values).frame < (m.inNewFrame f values).heap.frames.size := by
    show m.heap.frames.size < Array.size _
    exact (Heap.size_defineAll ..).symm ▸ Heap.lt_size_newFrame m.heap (some f)
  have hinner : (m.inNewFrame f values).heap.enclosing? (m.inNewFrame f values).frame = some f :=
    (Heap.enclosing?_defineAll ..).trans (Heap.enclosing?_new ..)
  refine Heap.holder?_of_not_binds ((hext.enclosing _ hlt).trans hinner) hf ?_
  rw [Heap.Binds, hext.reserved _ hlt _ hname]
  exact not_binds_inNewFrame hnames hname

/-- Code enters other code in its own frame, except for a block. -/
theorem Enters.frame_of_code (he : Enters rounds t m t' m') (ht : t.Code) (ht' : t'.Code) :
    m'.frame = m.frame ∨ ∃ body, t = .stmt (.block body) ∧ m' = m.inNewFrame m.frame [] := by
  cases he with
  | binaryRight h | logicalRight h _ | choiceThen h _ | choiceElse h _ | arguments h | setValue h
  | moreItems h | moreOperands h | branchThen h _ | branchElse h _ | loopBody h _ =>
    exact .inl (frame_of_evaluate h)
  | more h => exact .inl (frame_of_execute h)
  | nextRound h _ h' => exact .inl ((frame_of_execute h').trans (frame_of_evaluate h))
  | block => exact .inr ⟨_, rfl, rfl⟩
  | call | invoke | function | initializer => exact ht'.elim
  | body => exact ht.elim
  | _ => exact .inl rfl

end

end Lox
