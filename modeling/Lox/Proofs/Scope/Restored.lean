import Lox.Proofs.Scope.Fine
import Lox.Proofs.Scope.Joined
import Lox.Proofs.Scope.Nodes

/-
  Walks one after the other

  A walk reads the open scopes, the body and the class around it. What was
  reported and recorded before, it only adds to, and under its own ids
  (`Stmt.appends`). At the end the scopes outside are the ones of the beginning,
  and the innermost one has gained names that are ready. So statements at the
  top level are resolved as if each stood alone.
-/

namespace Lox
namespace Resolution

/-- The state of a walk that came to the same place over other errors and distances. -/
def above (r : Resolution) (errors : List ScopeError) (distances : Distances) : Resolution :=
  { r with errors, distances }

theorem scopes_above (r : Resolution) (errors : List ScopeError) (distances : Distances) :
    (r.above errors distances).scopes = r.scopes := rfl

/-- The walk adds broken rules to those before, and distances of the ids. What it
adds depends on neither. -/
def Appends (ids : List Nat) (walk : Resolution → Resolution) : Prop :=
  ∀ r, ∃ (errors : List ScopeError) (records : List (Nat × Nat)),
    (∀ record ∈ records, record.1 ∈ ids) ∧
    ∀ before ds, walk (r.above before ds) =
      (walk r).above (before ++ errors) (ds.insertMany records)

namespace Appends

variable {ids more : List Nat} {walk next : Resolution → Resolution}

/-- A step that reports and records nothing. -/
theorem silent (h : ∀ r before ds, walk (r.above before ds) = (walk r).above before ds) :
    Appends [] walk :=
  fun r => ⟨[], [], nofun, fun before ds => by rw [h, List.append_nil, Std.TreeMap.insertMany_nil]⟩

/-- A step that does nothing. -/
theorem stay : Appends [] (fun r => r) := silent fun _ _ _ => rfl

theorem mono (h : Appends ids walk) (hsub : ids ⊆ more) : Appends more walk := by
  intro r
  obtain ⟨errors, records, hrecords, hwalk⟩ := h r
  exact ⟨errors, records, fun record hr => hsub (hrecords record hr), hwalk⟩

theorem trans (h : Appends ids walk) (h' : Appends more next) :
    Appends (ids ++ more) (fun r => next (walk r)) := by
  intro r
  obtain ⟨errors, records, hrecords, hwalk⟩ := h r
  obtain ⟨errors', records', hrecords', hnext⟩ := h' (walk r)
  refine ⟨errors ++ errors', records ++ records', fun record hr => ?_, fun before ds => ?_⟩
  · obtain hr | hr := List.mem_append.1 hr
    · exact List.mem_append_left _ (hrecords record hr)
    · exact List.mem_append_right _ (hrecords' record hr)
  · show next (walk (r.above before ds)) = _
    rw [hwalk, hnext, List.append_assoc, Std.TreeMap.insertMany_append]

/-- A decision that looks at neither. -/
theorem ite {c : Resolution → Prop} [DecidablePred c]
    (hc : ∀ r before ds, c (r.above before ds) ↔ c r)
    (h : Appends ids walk) (h' : Appends ids next) :
    Appends ids (fun r => if c r then walk r else next r) := by
  intro r
  by_cases hr : c r
  · obtain ⟨errors, records, hrecords, hwalk⟩ := h r
    refine ⟨errors, records, hrecords, fun before ds => ?_⟩
    simp only [if_pos ((hc r before ds).2 hr), if_pos hr, hwalk]
  · obtain ⟨errors, records, hrecords, hnext⟩ := h' r
    refine ⟨errors, records, hrecords, fun before ds => ?_⟩
    simp only [if_neg (mt (hc r before ds).1 hr), if_neg hr, hnext]

theorem report (token : Token) (problem : ScopeProblem) :
    Appends [] (·.report token problem) :=
  fun _ => ⟨[⟨token, problem⟩], [], nofun, fun _ _ => rfl⟩

theorem opened (names : List String) : Appends [] (·.opened names) := silent fun _ _ _ => rfl

theorem closed : Appends [] Resolution.closed := silent fun _ _ _ => rfl

/-- What is inside a body reports and records; the body around it comes back. -/
theorem withBody (h : Appends ids walk) (body : Body) :
    Appends ids (fun r => { walk { r with body } with body := r.body }) := by
  intro r
  obtain ⟨errors, records, hrecords, hwalk⟩ := h { r with body }
  exact ⟨errors, records, hrecords, fun before ds =>
    congrArg (fun r' : Resolution => { r' with body := r.body }) (hwalk before ds)⟩

theorem withContext (h : Appends ids walk) (context : ClassContext) :
    Appends ids (fun r => { walk { r with context } with context := r.context }) := by
  intro r
  obtain ⟨errors, records, hrecords, hwalk⟩ := h { r with context }
  exact ⟨errors, records, hrecords, fun before ds =>
    congrArg (fun r' : Resolution => { r' with context := r.context }) (hwalk before ds)⟩

theorem declare (name : Token) : Appends [] (·.declare name) := by
  intro r
  cases hs : r.scopes with
  | nil =>
    refine ⟨[], [], nofun, fun before ds => ?_⟩
    simp only [Resolution.declare, scopes_above, hs, List.append_nil, Std.TreeMap.insertMany_nil]
  | cons scope outer =>
    cases hl : scope.lookup name.lexeme with
    | some ready =>
      refine ⟨[⟨name, .alreadyDeclared⟩], [], nofun, fun before ds => ?_⟩
      simp only [Resolution.declare, scopes_above, hs, hl]
      rfl
    | none =>
      refine ⟨[], [], nofun, fun before ds => ?_⟩
      simp only [Resolution.declare, scopes_above, hs, hl, List.append_nil]
      rfl

theorem define (name : Token) : Appends [] (·.define name) := by
  refine silent fun r before ds => ?_
  cases hs : r.scopes with
  | nil => simp only [Resolution.define, scopes_above, hs]
  | cons scope outer =>
    simp only [Resolution.define, scopes_above, hs]
    rfl

theorem bind (name : Token) : Appends [] (fun r => (r.declare name).define name) :=
  (declare name).trans (define name)

theorem declareAll (names : List Token) : Appends [] (·.declareAll names) := by
  induction names with
  | nil => exact stay
  | cons name names ih => exact (bind name).trans ih

theorem use (id : Nat) (name : Token) : Appends [id] (·.use id name) := by
  intro r
  cases hd : distance? r.scopes name.lexeme with
  | none =>
    refine ⟨[], [], nofun, fun before ds => ?_⟩
    simp only [Resolution.use, scopes_above, hd, List.append_nil, Std.TreeMap.insertMany_nil]
  | some d =>
    refine ⟨[], [(id, d)], by simp, fun before ds => ?_⟩
    simp only [Resolution.use, scopes_above, hd, List.append_nil]
    rfl

theorem useVariable (id : Nat) (name : Token) : Appends [id] (·.useVariable id name) :=
  (ite (c := fun r => r.inInitializer name.lexeme = true) (fun _ _ _ => .rfl)
    (report name .ownInitializer) stay).trans (use id name)

/-- A walk that the class around it chooses. -/
theorem ofContext (h : ∀ context, ∃ chosen, Appends ids chosen ∧
    ∀ r : Resolution, r.context = context → walk r = chosen r) : Appends ids walk := by
  intro r
  obtain ⟨chosen, happends, hchosen⟩ := h r.context
  obtain ⟨errors, records, hrecords, hwalk⟩ := happends r
  refine ⟨errors, records, hrecords, fun before ds => ?_⟩
  rw [hchosen r rfl, hchosen (r.above before ds) rfl, hwalk]

theorem useSelf (id : Nat) (keyword : Token) : Appends [id] (·.useSelf id keyword) := by
  refine ofContext fun context => ?_
  cases context with
  | outside =>
    exact ⟨_, (report keyword .thisOutsideClass).mono (List.nil_subset _),
      fun r hr => by rw [Resolution.useSelf, hr]⟩
  | base | derived => exact ⟨_, use id keyword, fun r hr => by rw [Resolution.useSelf, hr]⟩

theorem useSuper (id : Nat) (keyword : Token) : Appends [id] (·.useSuper id keyword) := by
  refine ofContext fun context => ?_
  cases context with
  | outside =>
    exact ⟨_, (report keyword .superOutsideClass).trans (use id keyword),
      fun r hr => by rw [Resolution.useSuper, hr]⟩
  | base =>
    exact ⟨_, (report keyword .superWithoutSuperclass).trans (use id keyword),
      fun r hr => by rw [Resolution.useSuper, hr]⟩
  | derived => exact ⟨_, use id keyword, fun r hr => by rw [Resolution.useSuper, hr]⟩

theorem checkReturn (keyword : Token) (hasValue : Bool) :
    Appends [] (·.checkReturn keyword hasValue) := by
  have hplace : Appends [] (fun r =>
      if r.body = .topLevel then r.report keyword .topLevelReturn else r) :=
    ite (fun _ _ _ => .rfl) (report keyword .topLevelReturn) stay
  have hvalue : Appends [] (fun r =>
      if hasValue && r.body = .initializer then r.report keyword .initializerValue else r) :=
    ite (fun _ _ _ => .rfl) (report keyword .initializerValue) stay
  exact hplace.trans hvalue

theorem checkSuperclass (name : Token) (superclass : Expr) :
    Appends [] (·.checkSuperclass name superclass) := by
  cases superclass with
  | var id word => exact ite (fun _ _ _ => .rfl) (report word .ownSuperclass) stay
  | _ => exact stay

end Appends
end Resolution

open Resolution

mutual

theorem Expr.appends : (e : Expr) → Appends e.ids e.resolve
  | .number _ | .string _ | .boolean _ | .nil => .stay
  | .group inner => inner.appends
  | .unary _ operand => operand.appends
  | .binary left _ right | .logical left _ right => left.appends.trans right.appends
  | .choice condition thenCase elseCase =>
    (condition.appends.trans (thenCase.appends.trans elseCase.appends) :)
  | .comma items => Expr.appendsAll items
  | .var id name => .useVariable id name
  | .assign id name value =>
    (value.appends.trans (.use id name)).mono (by simp [Expr.ids])
  | .call callee _ arguments => callee.appends.trans (Expr.appendsAll arguments)
  | .get object _ => object.appends
  | .set object _ value => (value.appends.trans object.appends).mono (by simp [Expr.ids])
  | .self id keyword => .useSelf id keyword
  | .super id keyword _ => .useSuper id keyword

theorem Expr.appendsAll : (es : List Expr) → Appends (Expr.idsAll es) (Expr.resolveAll es)
  | [] => .stay
  | e :: es => e.appends.trans (Expr.appendsAll es)

end

mutual

theorem Stmt.appends : (s : Stmt) → Appends s.ids s.resolve
  | .expression e | .print e => e.appends
  | .varDecl name none => .bind name
  | .varDecl name (some initial) =>
    (((Appends.declare name).trans initial.appends).trans (.define name)).mono (by simp [Stmt.ids])
  | .block body =>
    (((Appends.opened []).trans (Stmt.appendsAll body)).trans .closed).mono (by simp [Stmt.ids])
  | .branch condition thenCase none => condition.appends.trans thenCase.appends
  | .branch condition thenCase (some elseCase) =>
    (condition.appends.trans (thenCase.appends.trans elseCase.appends) :)
  | .loop condition body => condition.appends.trans body.appends
  | .function declaration => (Appends.bind declaration.name).trans (declaration.appends .function)
  | .yield keyword none => .checkReturn keyword false
  | .yield keyword (some value) => (Appends.checkReturn keyword true).trans value.appends
  | .classDecl name none methods => by
    have hin := ((Appends.bind name).trans (.opened [selfName])).trans (Function.appendsMethods methods)
    exact ((hin.trans .closed).mono (by simp [Stmt.ids])).withContext .base
  | .classDecl name (some superclass) methods => by
    have hhead := ((Appends.bind name).trans (.checkSuperclass name superclass)).trans superclass.appends
    have hin := ((hhead.trans (.opened [superName])).trans (.opened [selfName])).trans
      (Function.appendsMethods methods)
    exact (((hin.trans .closed).trans .closed).mono (by simp [Stmt.ids])).withContext .derived

theorem Stmt.appendsAll : (ss : List Stmt) → Appends (Stmt.idsAll ss) (Stmt.resolveAll ss)
  | [] => .stay
  | s :: rest => s.appends.trans (Stmt.appendsAll rest)

theorem Function.appends : (f : Function) → (kind : Body) → Appends f.ids (f.resolve kind)
  | .mk _ parameters body, kind => by
    have hin := (((Appends.opened []).trans (.declareAll parameters)).trans
      (Stmt.appendsAll body)).trans .closed
    exact (hin.mono (by simp [Function.ids])).withBody kind

theorem Function.appendsMethods : (fs : List Function) →
    Appends (Function.idsAll fs) (Function.resolveMethods fs)
  | [] => .stay
  | f :: fs => (f.appends f.methodBody).trans (Function.appendsMethods fs)

end

/-! ## Distances of other nodes -/

namespace Resolution.Appends

variable {ids : List Nat} {walk : Resolution → Resolution} (h : Appends ids walk)

include h

/-- A walk records distances of its own ids only. -/
theorem getElem?_distances {id : Nat} (r : Resolution) (hid : id ∉ ids) :
    (walk r).distances[id]? = r.distances[id]? := by
  obtain ⟨errors, records, hrecords, hwalk⟩ := h r
  have he : walk r = _ := hwalk r.errors r.distances
  rw [he]
  refine Std.TreeMap.getElem?_insertMany_list_of_contains_eq_false ?_
  simp only [List.contains_eq_mem, decide_eq_false_iff_not, List.mem_map]
  rintro ⟨record, hr, rfl⟩
  exact hid (hrecords record hr)

/-- No record is lost. -/
theorem mem_distances {id : Nat} {r : Resolution} (hid : id ∈ r.distances) :
    id ∈ (walk r).distances := by
  obtain ⟨errors, records, -, hwalk⟩ := h r
  have he : walk r = _ := hwalk r.errors r.distances
  rw [he]
  exact Std.TreeMap.mem_insertMany_list.2 (.inl hid)

/-- What a walk finds at a place where nothing was reported or recorded yet, it adds
to what was. -/
theorem above (r : Resolution) (before : List ScopeError) (ds : Distances) :
    (walk (r.above before ds)).errors = before ++ (walk (r.above [] ∅)).errors ∧
      ∀ id : Nat, (walk (r.above before ds)).distances[id]? =
        ((walk (r.above [] ∅)).distances[id]?).or ds[id]? := by
  obtain ⟨errors, records, -, hwalk⟩ := h r
  rw [hwalk, hwalk]
  refine ⟨rfl, fun id => ?_⟩
  show (ds.insertMany records)[id]? = (((∅ : Distances).insertMany records)[id]?).or _
  rw [Std.TreeMap.getElem?_insertMany_list, Std.TreeMap.getElem?_insertMany_list,
    Std.TreeMap.getElem?_emptyc, Option.or_none]

end Resolution.Appends

/-! ## Scopes after a statement -/

namespace Scopes

/-- A plain declaration makes its name ready, and leaves the others as they are. -/
theorem lookup_bind (scope : Scope) (outer : List Scope) (name : Token) :
    ∃ scope' : Scope, bind (scope :: outer) name = scope' :: outer ∧
      ∀ n, scope'.lookup n = if n = name.lexeme then some true else scope.lookup n := by
  rw [bind, declare]
  cases hl : scope.lookup name.lexeme with
  | some ready =>
    refine ⟨_, rfl, fun n => ?_⟩
    by_cases hn : n = name.lexeme
    · simp [hn]
    · simp [List.lookup_cons, hn, beq_false_of_ne hn]
  | none =>
    refine ⟨_, rfl, fun n => ?_⟩
    by_cases hn : n = name.lexeme
    · simp [hn]
    · simp [List.lookup_cons, hn, beq_false_of_ne hn]

theorem lookup_after (scope : Scope) (outer : List Scope) (names : List Token) :
    ∃ scope' : Scope, after (scope :: outer) names = scope' :: outer ∧
      ∀ n, scope'.lookup n = if n ∈ names.map (·.lexeme) then some true else scope.lookup n := by
  induction names generalizing scope with
  | nil => exact ⟨scope, rfl, fun n => by simp⟩
  | cons name names ih =>
    obtain ⟨scope₁, he₁, hl₁⟩ := lookup_bind scope outer name
    obtain ⟨scope', he', hl'⟩ := ih scope₁
    refine ⟨scope', ?_, fun n => ?_⟩
    · rw [after, List.foldl_cons, he₁]
      exact he'
    · rw [hl', hl₁, List.map_cons]
      by_cases hn : n ∈ names.map (·.lexeme)
      · rw [if_pos hn, if_pos (List.mem_cons_of_mem _ hn)]
      · rw [if_neg hn]
        simp [hn]

end Scopes

/-- `r.Restored declared ids r'`: the walk came back to where it began. In the scope
that it stands in there are at most the declared names more, all of them ready, and
only nodes with these ids got distances. -/
structure Resolution.Restored (r : Resolution) (declared : List Token) (ids : List Nat)
    (r' : Resolution) : Prop where
  height : r'.scopes.length = r.scopes.length
  outer : r'.scopes.tail = r.scopes.tail
  innermost : ∀ scope ∈ r.scopes.head?, ∃ scope' ∈ r'.scopes.head?, ∀ name,
    scope'.lookup name = scope.lookup name ∨
      scope.lookup name = none ∧ scope'.lookup name = some true ∧
        name ∈ declared.map (·.lexeme)
  body : r'.body = r.body
  context : r'.context = r.context
  errors : r.errors <+: r'.errors
  recorded : ∀ id ∈ r.distances, id ∈ r'.distances
  others : ∀ id ∉ ids, r'.distances[id]? = r.distances[id]?
  /-- With ids of its own a walk leaves every record as it is. -/
  kept : (∀ id ∈ ids, id ∉ r.distances) →
    ∀ id d : Nat, r.distances[id]? = some d → r'.distances[id]? = some d

theorem Stmt.restored (s : Stmt) (r : Resolution)
    (hready : ∀ scope ∈ r.scopes.head?, scope.Ready) :
    r.Restored s.declared s.ids (s.resolve r) := by
  have honward := s.onward r
  have hothers : ∀ id ∉ s.ids, (s.resolve r).distances[id]? = r.distances[id]? :=
    fun id hid => s.appends.getElem?_distances r hid
  have htail : (s.resolve r).scopes.tail = r.scopes.tail := by
    rw [honward.scopes, Scopes.tail_after]
  refine ⟨?_, htail, ?_, honward.body, honward.context, honward.errors,
    fun id => s.appends.mem_distances, hothers, fun hnew id d hd => ?_⟩
  · rw [honward.scopes]
    cases r.scopes with
    | nil => rw [Scopes.after_nil]
    | cons scope outer =>
      obtain ⟨scope', he, -⟩ := Scopes.lookup_after scope outer s.declared
      rw [he, List.length_cons, List.length_cons]
  · intro scope hscope
    obtain ⟨outer, hr⟩ := List.head?_eq_some_iff.1 hscope
    obtain ⟨scope', he, hl⟩ := Scopes.lookup_after scope outer s.declared
    refine ⟨scope', by rw [honward.scopes, hr, he]; rfl, fun name => ?_⟩
    rw [hl]
    by_cases hname : name ∈ s.declared.map (·.lexeme)
    · rw [if_pos hname]
      -- a declared name that was there was ready before
      cases hbefore : scope.lookup name with
      | none => exact .inr ⟨rfl, rfl, hname⟩
      | some ready =>
        cases ready with
        | false => exact absurd hbefore (hready scope hscope name)
        | true => exact .inl rfl
    · rw [if_neg hname]
      exact .inl rfl
  · rw [hothers id fun hid => hnew id hid (Std.TreeMap.mem_iff_isSome_getElem?.2 (by rw [hd]; rfl)), hd]

/-! ## Programs one after the other -/

/-- The broken rules that resolving a program reports. -/
def reported (program : List Stmt) : List ScopeError :=
  match resolveProgram program with
  | .ok _ => []
  | .error errors => errors

theorem reported_eq (program : List Stmt) :
    reported program = (Stmt.resolveAll program .start).errors := by
  rw [reported, resolveProgram, Resolution.result]
  cases he : (Stmt.resolveAll program .start).errors with
  | nil => rfl
  | cons error errors => rfl

theorem resolveProgram_of_reported_eq_nil {program : List Stmt} (h : reported program = []) :
    resolveProgram program = .ok (Stmt.resolveAll program .start).distances := by
  rw [reported_eq] at h
  rw [resolveProgram, Resolution.result, h]
  rfl

/-- At the top level a walk stands at the start again, over what it found. -/
theorem Stmt.resolveAll_start (program : List Stmt) :
    Stmt.resolveAll program .start = Resolution.start.above
      (Stmt.resolveAll program .start).errors (Stmt.resolveAll program .start).distances := by
  have honward := Stmt.onwardAll program .start
  have hscopes := honward.scopes.trans (Scopes.after_nil _)
  have hbody := honward.body
  have hcontext := honward.context
  cases hr : Stmt.resolveAll program .start with
  | mk scopes body context errors distances =>
    rw [hr] at hscopes hbody hcontext
    cases hscopes
    cases hbody
    cases hcontext
    rfl

section Programs

variable (a b : List Stmt)

theorem Stmt.resolveAll_append_start :
    (Stmt.resolveAll (a ++ b) .start).errors =
        (Stmt.resolveAll a .start).errors ++ (Stmt.resolveAll b .start).errors ∧
      ∀ id : Nat, (Stmt.resolveAll (a ++ b) .start).distances[id]? =
        ((Stmt.resolveAll b .start).distances[id]?).or
          (Stmt.resolveAll a .start).distances[id]? := by
  rw [Stmt.resolveAll_append, Stmt.resolveAll_start a]
  exact (Stmt.appendsAll b).above .start _ _

theorem reported_append : reported (a ++ b) = reported a ++ reported b := by
  rw [reported_eq, reported_eq, reported_eq]
  exact (Stmt.resolveAll_append_start a b).1

/-- A program has distances of its own ids only. -/
theorem mem_idsAll_of_distances {id d : Nat}
    (h : (Stmt.resolveAll a .start).distances[id]? = some d) : id ∈ Stmt.idsAll a := by
  by_contra hid
  rw [(Stmt.appendsAll a).getElem?_distances .start hid] at h
  simp [Resolution.start] at h

theorem Stmt.idsAll_append : Stmt.idsAll (a ++ b) = Stmt.idsAll a ++ Stmt.idsAll b := by
  induction a with
  | nil => rfl
  | cons s a ih => rw [List.cons_append, Stmt.idsAll, ih, Stmt.idsAll, List.append_assoc]

variable {a b}

theorem getElem?_distances_append (hids : (Stmt.idsAll (a ++ b)).Nodup) (id d : Nat) :
    (Stmt.resolveAll (a ++ b) .start).distances[id]? = some d ↔
      (Stmt.resolveAll a .start).distances[id]? = some d ∨
        (Stmt.resolveAll b .start).distances[id]? = some d := by
  rw [(Stmt.resolveAll_append_start a b).2, Option.or_eq_some_iff]
  constructor
  · rintro (hb | ⟨-, ha⟩)
    · exact .inr hb
    · exact .inl ha
  · rintro (ha | hb)
    · refine .inr ⟨?_, ha⟩
      -- an id of the first program is none of the second one
      rw [Stmt.idsAll_append] at hids
      have hmem := mem_idsAll_of_distances a ha
      cases hb : (Stmt.resolveAll b .start).distances[id]? with
      | none => rfl
      | some d' =>
        exact absurd rfl ((List.nodup_append.1 hids).2.2 id hmem id (mem_idsAll_of_distances b hb))
    · exact .inl hb

end Programs

/-- A walk restores what is around a statement, and what it finds there does not depend on
what was reported and recorded before. So statements of the top level are resolved
independently: two programs in turn have the broken rules of the first and then those of
the second, and without any the distances of both. -/
theorem resolves_independently :
    (∀ (s : Stmt) (r : Resolution), (∀ scope ∈ r.scopes.head?, scope.Ready) →
      r.Restored s.declared s.ids (s.resolve r)) ∧
    (∀ (s : Stmt) (r : Resolution),
      (s.resolve r).errors = r.errors ++ (s.resolve (r.above [] ∅)).errors ∧
      ∀ id : Nat, (s.resolve r).distances[id]? =
        ((s.resolve (r.above [] ∅)).distances[id]?).or r.distances[id]?) ∧
    (∀ (e : Expr) (r : Resolution), (e.resolve r).scopes = r.scopes) ∧
    ∀ a b : List Stmt, (Stmt.idsAll (a ++ b)).Nodup →
      reported (a ++ b) = reported a ++ reported b ∧
      (reported (a ++ b) = [] → ∃ ds ds₁ ds₂ : Distances,
        resolveProgram (a ++ b) = .ok ds ∧ resolveProgram a = .ok ds₁ ∧
          resolveProgram b = .ok ds₂ ∧
          ∀ id d : Nat, ds[id]? = some d ↔ ds₁[id]? = some d ∨ ds₂[id]? = some d) := by
  refine ⟨Stmt.restored, fun s r => s.appends.above r r.errors r.distances,
    fun e r => (e.onward r).scopes, fun a b hids => ⟨reported_append a b, fun hnone => ?_⟩⟩
  -- without broken rules in both there are none in either
  have hboth := reported_append a b
  rw [hnone] at hboth
  obtain ⟨ha, hb⟩ := List.append_eq_nil_iff.1 hboth.symm
  exact ⟨_, _, _, resolveProgram_of_reported_eq_nil hnone, resolveProgram_of_reported_eq_nil ha,
    resolveProgram_of_reported_eq_nil hb, getElem?_distances_append hids⟩

theorem resolves_independently_blocks :
    let word (name : String) : Token := ⟨.identifier, name, 1⟩
    let around := Resolution.start.opened ["A"]
    let derived : Stmt := .classDecl (word "B") (some (.var 2 (word "A"))) []
    let first : List Stmt := [.block [.varDecl (word "x") none, .print (.var 0 (word "x"))]]
    let second : List Stmt :=
      [.block [.varDecl (word "x") none, .expression (.assign 1 (word "x") .nil)]]
    (∀ scope ∈ around.scopes.head?, scope.Ready) ∧
      around.Restored derived.declared [2] (derived.resolve around) ∧
      (Stmt.idsAll (first ++ second)).Nodup ∧ reported (first ++ second) = [] ∧
      ∃ ds ds₁ ds₂ : Distances, resolveProgram (first ++ second) = .ok ds ∧
        resolveProgram first = .ok ds₁ ∧ resolveProgram second = .ok ds₂ ∧
        ∀ id d : Nat, ds[id]? = some d ↔ ds₁[id]? = some d ∨ ds₂[id]? = some d := by
  intro word around derived first second
  have hready : ∀ scope ∈ around.scopes.head?, scope.Ready := by
    intro scope hscope
    obtain rfl := Option.mem_some.1 hscope
    exact Scope.ready_cons (by simp [Scope.Ready]) "A"
  have hids : (Stmt.idsAll (first ++ second)).Nodup := by decide
  have hnone : reported (first ++ second) = [] := rfl
  exact ⟨hready, resolves_independently.1 derived around hready, hids, hnone,
    (resolves_independently.2.2.2 first second hids).2 hnone⟩

/-- A use whose id has a record from an earlier statement records its own distance. -/
theorem record_overwritten :
    let word (name : String) : Token := ⟨.identifier, name, 1⟩
    let use : Stmt := .expression (.var 0 (word "x"))
    let inner : Stmt := .function ⟨word "g", [word "x"], [.block [use]]⟩
    let outer : Stmt := .function ⟨word "f", [word "x"], [use]⟩
    let r := inner.resolve .start
    (∀ scope ∈ r.scopes.head?, scope.Ready) ∧
      ¬∀ id d : Nat, r.distances[id]? = some d → (outer.resolve r).distances[id]? = some d := by
  intro word use inner outer r
  refine ⟨nofun, fun h => ?_⟩
  have hbefore : r.distances[(0 : Nat)]? = some 1 := rfl
  have hafter : (outer.resolve r).distances[(0 : Nat)]? = some 0 := rfl
  rw [h 0 1 hbefore] at hafter
  cases hafter

end Lox
