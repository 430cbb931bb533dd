import Lox.Proofs.Session.Moments

/-
  Scopes and frames agree

  Whenever the evaluator comes to a use of a name, the frames from the current
  one outward are those that were made for the scopes around the use, in their
  order, and then the global one. The use works on the frame of the scope that
  the resolution found the name in, and without such a scope on the global frame
  (`scopes_agree`).
-/

namespace Lox

open Eval
open Resolution (distance?)

/-- The id and the name that a node is looked up by. -/
def Expr.use? : Expr → Option (Nat × Token)
  | .var id name | .assign id name _ | .self id name | .super id name _ => some (id, name)
  | _ => none

/-- The frames around a use, the global one left out, are those of its scopes. -/
structure Site.Matches (made : FrameId → Opener → Prop) (site : Site) (m : Machine)
    (frames : List FrameId) : Prop where
  chain : m.heap.chain m.frame = frames ++ [Heap.globals]
  inner : Heap.globals ∉ frames
  openers : List.Forall₂ made frames site.openers
  scopes : List.Forall₂ (fun f (scope : Scope) => ∀ name, scope.lookup name = some true →
    m.heap.Binds f name) frames site.scopes
  ancestors : ∀ d f, frames[d]? = some f → m.heap.ancestor? m.frame d = some f
  distance : m.distances[site.id]? = distance? site.scopes site.name

/-- The frame that a distance denotes; without a distance it is the global one. -/
def denoted (frames : List FrameId) : Option Nat → Option FrameId
  | some d => frames[d]?
  | none => some Heap.globals

/-- Reading a name in one frame. -/
def Machine.readIn (m : Machine) (f : FrameId) (name : Token) :
    EStateM.Result (Halt RuntimeError) Machine Value :=
  match (m.heap.bindings f).find? name.lexeme with
  | some v => .ok v m
  | none => .error (.error (.program name.line (.undefinedVariable name.lexeme))) m

/-- Assigning to a name in one frame, which has to bind it. -/
def Machine.writeIn (m : Machine) (f : FrameId) (name : Token) (v : Value) :
    EStateM.Result (Halt RuntimeError) Machine Value :=
  match (m.heap.bindings f).find? name.lexeme with
  | some _ => .ok v { m with heap := m.heap.define f name.lexeme v }
  | none => .error (.error (.program name.line (.undefinedVariable name.lexeme))) m

/-- The use works on the frame that its distance denotes. With a distance, a
variable is bound there; `this` always is an object, and `super` a class outside
the frame of an object. -/
def Expr.WorksIn (rounds : Nat) (e : Expr) (m : Machine) (frames : List FrameId) : Prop :=
  match e with
  | .var id name => ∃ f, denoted frames m.distances[id]? = some f ∧
      (m.distances[id]? ≠ none → m.heap.Binds f name.lexeme) ∧
      evaluate rounds e m = m.readIn f name
  | .assign id name value => ∃ f, denoted frames m.distances[id]? = some f ∧
      ∀ v m₁, evaluate rounds value m = .ok v m₁ → evaluate rounds e m = m₁.writeIn f name v
  | .self id _ => ∃ d f object c, m.distances[id]? = some d ∧ frames[d]? = some f ∧
      (m.heap.bindings f).find? selfName = some (.object object c) ∧
      evaluate rounds e m = .ok (.object object c) m
  | .super id _ method => ∃ d f g i superclass object c, m.distances[id]? = some (d + 1) ∧
      frames[d + 1]? = some f ∧ (m.heap.bindings f).find? superName = some (.cls i superclass) ∧
      frames[d]? = some g ∧ (m.heap.bindings g).find? selfName = some (.object object c) ∧
      evaluate rounds e m = match superclass.findMethod? method.lexeme with
        | some found => boundMethod found object c m
        | none => .error (.error (.program method.line (.undefinedProperty method.lexeme))) m
  | _ => True

variable {ok : Site → Prop} {made : FrameId → Opener → Prop} {rounds : Nat} {m : Machine}

/-! ## The site of a use -/

/-- A good use is that of a site, whose scopes fit. -/
theorem Good.site {e : Expr} {id : Nat} {name : Token} (h : Good ok made (.expr e) m)
    (hu : e.use? = some (id, name)) :
    ∃ site, ok site ∧ site.node = e ∧ site.id = id ∧ site.name = name.lexeme ∧
      Fits made m.heap m.frame site.openers site.scopes := by
  obtain ⟨-, -, os, r, hfits, hsites⟩ := h
  cases e with
  | var _ _ | self _ _ | super _ _ _ =>
    cases hu
    exact ⟨_, hsites _ (List.mem_singleton.2 rfl), rfl, rfl, rfl, hfits⟩
  | assign _ _ value =>
    cases hu
    refine ⟨_, hsites _ (List.mem_append_right _ (List.mem_singleton.2 rfl)), rfl, rfl, rfl, ?_⟩
    rwa [(value.onward r).scopes]
  | _ => cases hu

theorem Fits.matches {site : Site} (hfits : Fits made m.heap m.frame site.openers site.scopes)
    (hglobal : m.heap.enclosing? Heap.globals = none)
    (hdistance : m.distances[site.id]? = distance? site.scopes site.name) :
    ∃ frames, site.Matches made m frames := by
  obtain ⟨frames, hchain, hopeners, hscopes, hancestors⟩ := hfits.chain_eq hglobal
  refine ⟨frames, hchain, fun hm => ?_, hopeners, hscopes.imp fun _ _ h => h.2, fun d f hf => ?_,
    hdistance⟩
  · obtain ⟨i, hi, hget⟩ := List.mem_iff_getElem.1 hm
    have hi' : i < site.scopes.length := hscopes.length_eq ▸ hi
    exact (hscopes.get hi hi').1 hget
  · obtain ⟨hd, -⟩ := List.getElem?_eq_some_iff.1 hf
    rw [hancestors d (Nat.le_of_lt hd), List.getElem?_append_left hd, hf]

/-- The way outward stays the same while the heap grows. -/
theorem Fits.ancestor?_eq {h h' : Heap} {f : FrameId} {os : List Opener} {scopes : List Scope}
    (hfits : Fits made h f os scopes) (hext : h.Extends h') {d : Nat} (hd : d ≤ os.length) :
    h'.ancestor? f d = h.ancestor? f d := by
  induction hfits generalizing d with
  | global =>
    obtain rfl := Nat.le_zero.1 hd
    rfl
  | inner hf he _ _ _ _ _ _ _ ih =>
    cases d with
    | zero => rfl
    | succ d =>
      rw [Heap.ancestor?_succ he, Heap.ancestor?_succ ((hext.enclosing _ hf).trans he),
        ih (Nat.le_of_succ_le_succ hd)]

/-! ## Looking up in the denoted frame -/

/-- The distance of a node leads to the frame. -/
def Machine.Denotes (m : Machine) (id : Nat) (f : FrameId) : Prop :=
  match m.distances[id]? with
  | some d => m.heap.ancestor? m.frame d = some f
  | none => f = Heap.globals

namespace Machine.Denotes

variable {id : Nat} {f : FrameId}

theorem lookup?_eq (h : m.Denotes id f) (hh : m.heap.Fitted ok made) (name : String) :
    m.lookup? id name = (m.heap.bindings f).find? name := by
  rw [Machine.Denotes] at h
  rw [Machine.lookup?]
  cases hd : m.distances[id]? with
  | some d =>
    rw [hd] at h
    exact Heap.getAt?_of_ancestor h name
  | none =>
    rw [hd] at h
    cases h
    exact hh.get?_globals name

theorem holder?_eq (h : m.Denotes id f) (hh : m.heap.Fitted ok made) (name : String) :
    m.holder? id name = if ((m.heap.bindings f).find? name).isSome then some f else none := by
  rw [Machine.Denotes] at h
  rw [Machine.holder?]
  cases hd : m.distances[id]? with
  | some d =>
    rw [hd] at h
    change m.heap.holderAt? m.frame d name = _
    rw [Heap.holderAt?, h, Option.filter_some]
  | none =>
    rw [hd] at h
    cases h
    change m.heap.holder? Heap.globals name = _
    rw [Heap.holder?, Heap.chain_of_none hh.outermost, List.find?_cons, List.find?_nil]
    cases ((m.heap.bindings Heap.globals).find? name).isSome <;> rfl

theorem readVariable_eq (h : m.Denotes id f) (hh : m.heap.Fitted ok made) (name : Token) :
    readVariable id name m = m.readIn f name := by
  have hv := h.lookup?_eq hh name.lexeme
  rw [Machine.readIn, ← hv]
  cases hfound : m.lookup? id name.lexeme with
  | some v => exact readVariable_of_some hfound
  | none => exact readVariable_of_none hfound

theorem writeVariable_eq (h : m.Denotes id f) (hh : m.heap.Fitted ok made) (name : Token)
    (v : Value) : (do Eval.writeVariable id name v; pure v : Eval Value) m = m.writeIn f name v := by
  have hf := h.holder?_eq hh name.lexeme
  rw [Machine.writeIn]
  cases hfound : (m.heap.bindings f).find? name.lexeme with
  | some w =>
    rw [hfound] at hf
    exact bind_of_ok (writeVariable_of_some hf)
  | none =>
    rw [hfound] at hf
    exact bind_of_error (writeVariable_of_none hf)

end Machine.Denotes

theorem lt_of_distance? {scopes : List Scope} {name : String} {d : Nat}
    (h : distance? scopes name = some d) : d < scopes.length :=
  (List.findIdx?_eq_some_iff_findIdx_eq.1 h).1

namespace Site.Matches

variable {site : Site} {frames : List FrameId}

theorem denotes_at (h : site.Matches made m frames) {d : Nat} {f : FrameId}
    (hd : m.distances[site.id]? = some d) (hf : frames[d]? = some f) : m.Denotes site.id f := by
  rw [Machine.Denotes, hd]
  exact h.ancestors d f hf

/-- A distance leads to one of the frames. -/
theorem denotes (h : site.Matches made m frames) :
    ∃ f, denoted frames m.distances[site.id]? = some f ∧ m.Denotes site.id f := by
  simp only [Machine.Denotes, h.distance]
  cases hd : distance? site.scopes site.name with
  | none => exact ⟨_, rfl, rfl⟩
  | some d =>
    have hlt : d < frames.length := h.scopes.length_eq.symm ▸ lt_of_distance? hd
    exact ⟨frames[d], List.getElem?_eq_getElem hlt,
      h.ancestors d _ (List.getElem?_eq_getElem hlt)⟩

/-- The frame of a known name. -/
theorem known (h : site.Matches made m frames)
    (hfits : Fits made m.heap m.frame site.openers site.scopes) {name : String} {d : Nat}
    (hk : Known site.scopes name d) :
    ∃ f, frames[d]? = some f ∧ m.heap.Binds f name ∧
      (name = selfName → ∃ object c, (m.heap.bindings f).find? name = some (.object object c)) ∧
      (name = superName → ∃ id c, (m.heap.bindings f).find? name = some (.cls id c)) := by
  obtain ⟨f, hf, hfound⟩ := hfits.known hk
  have hlt : d < frames.length := h.scopes.length_eq.symm ▸ lt_of_distance? hk.distance?_eq
  have hget := List.getElem?_eq_getElem hlt
  have he := h.ancestors d _ hget
  rw [hf] at he
  exact ⟨f, hget.trans he.symm, hfound⟩

end Site.Matches

/-- The frame of the scope of a reserved name is the first one outward to bind it, and
will be later on. -/
theorem Site.Matches.holder?_eq {site : Site} {frames : List FrameId} {h : Heap}
    (hsite : site.Matches made m frames)
    (hfits : Fits made m.heap m.frame site.openers site.scopes) (hext : m.heap.Extends h)
    {name : String} (hname : Heap.Reserved name) {d : Nat} (hk : Known site.scopes name d)
    {f : FrameId} (hf : frames[d]? = some f) : h.holder? m.frame name = some f := by
  have hlt : d < site.openers.length :=
    hsite.openers.length_eq ▸ (List.getElem?_eq_some_iff.1 hf).1
  refine (hfits.mono hext).holder?_of_known hname hk ?_
  rw [hfits.ancestor?_eq hext (Nat.le_of_lt hlt)]
  exact hsite.ancestors d f hf

/-! ## Uses work in the denoted frame -/

/-- A use keeps its frame while the value that it is assigned is evaluated. -/
theorem Machine.Denotes.kept {id : Nat} {f : FrameId} {m₁ : Machine} {site : Site}
    (h : m.Denotes id f) (hfits : Fits made m.heap m.frame site.openers site.scopes)
    (hdistance : m.distances[id]? = distance? site.scopes site.name) (hkeeps : m.Keeps m₁)
    (hext : m.heap.Extends m₁.heap) (hlength : site.openers.length = site.scopes.length) :
    m₁.Denotes id f := by
  rw [Machine.Denotes] at h ⊢
  rw [hkeeps.distances, hkeeps.frame]
  cases hd : m.distances[id]? with
  | none =>
    rw [hd] at h
    exact h
  | some d =>
    rw [hd] at h
    have hlt := lt_of_distance? (hdistance ▸ hd)
    exact (hfits.ancestor?_eq hext (hlength ▸ Nat.le_of_lt hlt)).trans h

section Uses

variable {site : Site} {frames : List FrameId} {id : Nat} {name : Token}

theorem worksIn_var (hh : m.heap.Fitted ok made) (h : site.Matches made m frames)
    (hfits : Fits made m.heap m.frame site.openers site.scopes) (hfine : site.Fine)
    (hnode : site.node = .var id name) (hid : site.id = id) (hname : site.name = name.lexeme) :
    (Expr.var id name).WorksIn rounds m frames := by
  subst hid
  obtain ⟨f, hf, hdenotes⟩ := h.denotes
  refine ⟨f, hf, fun hd => ?_, hdenotes.readVariable_eq hh name⟩
  rw [Site.Fine, hnode] at hfine
  cases hdistance : distance? site.scopes site.name with
  | none => exact absurd (h.distance.trans hdistance) hd
  | some d =>
    obtain ⟨g, hg, hbinds, -⟩ := h.known hfits (hfine d hdistance)
    rw [h.distance, hdistance] at hf
    obtain rfl : g = f := Option.some.inj (hg.symm.trans hf)
    exact hname ▸ hbinds

/-- The assigned value is written to the frame that the use denotes, before and after the
value is evaluated. -/
theorem assign_of_value {value : Expr} (hm : Good ok made (.expr (.assign id name value)) m)
    (hdepth : m.depth ≤ maxCallDepth) (hmakes : Makes made rounds (.expr (.assign id name value)) m)
    (h : site.Matches made m frames)
    (hfits : Fits made m.heap m.frame site.openers site.scopes) (hid : site.id = id)
    {f : FrameId} (hdenotes : m.Denotes id f) {v : Value} {m₁ : Machine}
    (hv : evaluate rounds value m = .ok v m₁) :
    m.heap.Extends m₁.heap ∧ m₁.Denotes id f ∧
      evaluate rounds (.assign id name value) m = m₁.writeIn f name v := by
  subst hid
  have hgood : Good ok made (.expr value) m := ⟨hm.heap, hm.settled.1.2, hm.settled.2.first⟩
  obtain ⟨hext, hfit, -⟩ := (Task.safe hdepth (hmakes.enters .assigned) hgood).of_ok hv
  have hdenotes₁ := hdenotes.kept hfits h.distance ((steady_evaluate rounds value).of_ok hv) hext
    (h.openers.length_eq.symm.trans h.scopes.length_eq)
  exact ⟨hext, hdenotes₁, (bind_of_ok hv).trans (hdenotes₁.writeVariable_eq hfit name v)⟩

theorem worksIn_assign {value : Expr} (hm : Good ok made (.expr (.assign id name value)) m)
    (hdepth : m.depth ≤ maxCallDepth) (hmakes : Makes made rounds (.expr (.assign id name value)) m)
    (h : site.Matches made m frames)
    (hfits : Fits made m.heap m.frame site.openers site.scopes) (hid : site.id = id) :
    (Expr.assign id name value).WorksIn rounds m frames := by
  obtain ⟨f, hf, hdenotes⟩ := h.denotes
  rw [hid] at hf hdenotes
  exact ⟨f, hf, fun v m₁ hv => (assign_of_value hm hdepth hmakes h hfits hid hdenotes hv).2.2⟩

/-- A `this` finds an object, in the frame of a scope in which it is known. -/
theorem Site.Matches.self (h : site.Matches made m frames)
    (hfits : Fits made m.heap m.frame site.openers site.scopes) (hfine : site.Fine)
    (hnode : site.node = .self id name) (hname : site.name = selfName) :
    ∃ d f object c, Known site.scopes selfName d ∧ m.distances[site.id]? = some d ∧
      frames[d]? = some f ∧ (m.heap.bindings f).find? selfName = some (.object object c) := by
  rw [Site.Fine, hnode] at hfine
  obtain ⟨d, hknown⟩ := hfine
  rw [hname] at hknown
  obtain ⟨f, hf, -, hobject, -⟩ := h.known hfits hknown
  obtain ⟨object, c, hobject⟩ := hobject rfl
  exact ⟨d, f, object, c, hknown, by rw [h.distance, hname, hknown.distance?_eq], hf, hobject⟩

theorem worksIn_self (hh : m.heap.Fitted ok made) (h : site.Matches made m frames)
    (hfits : Fits made m.heap m.frame site.openers site.scopes) (hfine : site.Fine)
    (hnode : site.node = .self id name) (hid : site.id = id) (hname : site.name = name.lexeme)
    (hword : name.lexeme = selfName) : (Expr.self id name).WorksIn rounds m frames := by
  subst hid
  obtain ⟨d, f, object, c, -, hd, hf, hobject⟩ := h.self hfits hfine hnode (hname.trans hword)
  refine ⟨d, f, object, c, hd, hf, hobject, ((h.denotes_at hd hf).readVariable_eq hh name).trans ?_⟩
  rw [Machine.readIn, hword, hobject]

/-- A `super` finds a class, and in the frame just inside that one an object. -/
theorem Site.Matches.super {method : Token} (h : site.Matches made m frames)
    (hfits : Fits made m.heap m.frame site.openers site.scopes) (hfine : site.Fine)
    (hnode : site.node = .super id name method) (hname : site.name = superName) :
    ∃ d f g i superclass object c, Known site.scopes selfName d ∧
      m.distances[site.id]? = some (d + 1) ∧
      frames[d + 1]? = some f ∧ (m.heap.bindings f).find? superName = some (.cls i superclass) ∧
      frames[d]? = some g ∧ (m.heap.bindings g).find? selfName = some (.object object c) ∧
      m.super? site.id = some (superclass, object, c) := by
  rw [Site.Fine, hnode] at hfine
  obtain ⟨d, hself, hsuper⟩ := hfine
  rw [hname] at hsuper
  -- the resolver knows `this` in the scope just inside that of `super`
  obtain ⟨f, hf, -, -, hclass⟩ := h.known hfits hsuper
  obtain ⟨i, superclass, hclass⟩ := hclass rfl
  obtain ⟨g, hg, -, hobject, -⟩ := h.known hfits hself
  obtain ⟨object, c, hobject⟩ := hobject rfl
  have hd : m.distances[site.id]? = some (d + 1) := by
    rw [h.distance, hname, hsuper.distance?_eq]
  refine ⟨d, f, g, i, superclass, object, c, hself, hd, hf, hclass, hg, hobject, ?_⟩
  rw [Machine.super?, hd]
  simp only [Heap.getAt?_of_ancestor (h.ancestors _ _ hf),
    Heap.getAt?_of_ancestor (h.ancestors _ _ hg), hclass, hobject]

theorem worksIn_super {method : Token} (h : site.Matches made m frames)
    (hfits : Fits made m.heap m.frame site.openers site.scopes) (hfine : site.Fine)
    (hnode : site.node = .super id name method) (hid : site.id = id)
    (hname : site.name = name.lexeme) (hword : name.lexeme = superName) :
    (Expr.super id name method).WorksIn rounds m frames := by
  subst hid
  obtain ⟨d, f, g, i, superclass, object, c, -, hd, hf, hclass, hg, hobject, hfound⟩ :=
    h.super hfits hfine hnode (hname.trans hword)
  refine ⟨d, f, g, i, superclass, object, c, hd, hf, hclass, hg, hobject, ?_⟩
  cases hm : superclass.findMethod? method.lexeme with
  | some found => exact superMethod_of_method hfound hm
  | none => exact superMethod_of_no_method hfound hm

end Uses

/-! ## Agreement -/

namespace Session

/-- Whenever a history comes to a use of a name, the use is one of an accepted tree,
the frames match its scopes, and it works on the frame that its distance denotes. -/
theorem scopes_agree {rounds : Nat} {sink : Sink} {clock : Clock} {rs : List Request} {e : Expr}
    {id : Nat} {name : Token} {m : Machine}
    (h : Happens rounds (start sink clock) rs (.expr e) m) (hu : e.use? = some (id, name)) :
    ∃ site frames, Accepts rounds (start sink clock) rs site ∧ site.node = e ∧ site.id = id ∧
      site.name = name.lexeme ∧ site.Matches (Made rounds (start sink clock) rs) m frames ∧
      e.WorksIn rounds m frames := by
  obtain ⟨ok, hok, hm⟩ := moment_of_happens h
  have hh := hm.good.heap
  -- the use is at a site of an accepted tree, in a frame that fits its scopes
  obtain ⟨site, hsite, hnode, hid, hname, hfits⟩ := hm.good.site hu
  obtain ⟨frames, hmatches⟩ := hfits.matches hh.outermost (hm.distances site hsite)
  have hfine := hm.fine site hsite
  refine ⟨site, frames, hok site hsite, hnode, hid, hname, hmatches, ?_⟩
  cases e with
  | var _ _ =>
    cases hu
    exact worksIn_var hh hmatches hfits hfine hnode hid hname
  | assign _ _ _ =>
    cases hu
    exact worksIn_assign hm.good hm.depth hm.makes hmatches hfits hid
  | self _ _ =>
    cases hu
    exact worksIn_self hh hmatches hfits hfine hnode hid hname hm.good.settled.1
  | super _ _ _ =>
    cases hu
    exact worksIn_super hmatches hfits hfine hnode hid hname hm.good.settled.1
  | _ => cases hu

/-- A variable of a block, read in the block. -/
theorem scopes_agree_block :
    let s := start .unlimited (.ticking 0)
    let rs := [.run "\x7b var a; a; \x7d"]
    let e := Expr.var 0 ⟨.identifier, "a", 1⟩
    ∃ m, Happens 0 s rs (.expr e) m ∧ e.use? = some (0, ⟨.identifier, "a", 1⟩) ∧
      ∃ site frames, Accepts 0 s rs site ∧ site.node = e ∧ site.id = 0 ∧ site.name = "a" ∧
        site.Matches (Made 0 s rs) m frames ∧ e.WorksIn 0 m frames := by
  intro s rs e
  let declaration : Stmt := .varDecl ⟨.identifier, "a", 1⟩ none
  let program : List Stmt := [.block [declaration, .expression e]]
  obtain ⟨s₁, hb⟩ : ∃ s₁, Begins (.run "\x7b var a; a; \x7d") s (.stmts program) s₁ :=
    ⟨_, .run_of_spans (by cbv) (by cbv) rfl⟩
  obtain ⟨m, hrun⟩ : ∃ m, execute 0 declaration (s₁.machine.inNewFrame s₁.machine.frame []) =
    .ok .normal m := ⟨_, rfl⟩
  have hreach : Reaches 0 (.stmts program) s₁.machine _ (.expr e) m :=
    .step .first (.step .block (.step (.more hrun) (.step .first (.step .expression .here))))
  have h : Happens 0 s rs (.expr e) m := .now ⟨_, _, hb, hreach⟩
  exact ⟨m, h, rfl, scopes_agree h rfl⟩

end Session
end Lox
