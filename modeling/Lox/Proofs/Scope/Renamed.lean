import Lox.Proofs.Scope.Site
import Lox.Proofs.Tree.Renamed

/-
  Resolving a renamed tree

  While a tree and the renamed tree are resolved side by side, the open scopes differ
  in nothing but the name of the variable, in its own scope. Each use of a name is found
  at the same distance, and the same is reported. So the walks record the same distances
  and report equally much (`Stmt.Renamed.resolve`).
-/

namespace Lox

open Resolution (distance?)
open Renaming (Inside)

variable {R : Renaming} {away inner : Option Nat}

/-- A scope in which the two names have changed places. -/
def Scope.rename (R : Renaming) (scope : Scope) : Scope :=
  scope.map fun entry => (Equiv.swap R.old R.new entry.1, entry.2)

theorem Scope.lookup_rename (R : Renaming) (scope : Scope) (n : String) :
    (scope.rename R).lookup (Equiv.swap R.old R.new n) = scope.lookup n := by
  induction scope with
  | nil => rfl
  | cons entry scope ih =>
    obtain ⟨name, ready⟩ := entry
    have hsame : (Equiv.swap R.old R.new n == Equiv.swap R.old R.new name) = (n == name) := by
      simp [(Equiv.swap R.old R.new).injective.eq_iff]
    show List.lookup _ ((Equiv.swap R.old R.new name, ready) :: Scope.rename R scope) = _
    rw [List.lookup_cons, List.lookup_cons, hsame, ih]

/-- A scope that lacks the new name lacks the old one after the renaming. -/
theorem Scope.lookup_rename_of_none {scope : Scope} {n : String}
    (hnew : scope.lookup R.new = none) (hn : n ≠ R.new) (h : scope.lookup n = none) :
    (scope.rename R).lookup n = none := by
  by_cases hold : n = R.old
  · rw [← Equiv.swap_apply_right R.old R.new] at hold
    rw [hold, Scope.lookup_rename, hnew]
  · have hsame := Scope.lookup_rename R scope n
    rw [Equiv.swap_apply_of_ne_of_ne hold hn] at hsame
    rw [hsame, h]

/-- Scopes that differ in the name of the variable, which belongs to the scope `away` scopes
outward. That scope and those inside it do not have the new name yet. -/
inductive ScopesRenamed (R : Renaming) : Option Nat → List Scope → List Scope → Prop
  | outside {scopes : List Scope} : ScopesRenamed R none scopes scopes
  | here {scope : Scope} {outer : List Scope} : scope.lookup R.new = none →
      ScopesRenamed R (some 0) (scope :: outer) (scope.rename R :: outer)
  | deeper {d : Nat} {scope : Scope} {outer outer' : List Scope} : scope.lookup R.new = none →
      ScopesRenamed R (some d) outer outer' →
      ScopesRenamed R (some (d + 1)) (scope :: outer) (scope :: outer')

theorem map_succ_ne_zero {d : Option Nat} : d.map (· + 1) ≠ some 0 := by
  cases d <;> simp

section Distance

variable {scope : Scope} {outer : List Scope} {n : String}

theorem distance?_of_some {ready : Bool} (h : scope.lookup n = some ready) :
    distance? (scope :: outer) n = some 0 := by
  rw [distance?_cons, h]
  rfl

theorem distance?_of_none (h : scope.lookup n = none) :
    distance? (scope :: outer) n = (distance? outer n).map (· + 1) := by
  rw [distance?_cons, h]
  rfl

end Distance

namespace ScopesRenamed

variable {scopes scopes' : List Scope}

/-- A name is found at the same distance. -/
theorem distance?_eq (h : ScopesRenamed R away scopes scopes') {n : String}
    (hn : away ≠ none → n ≠ R.new) :
    distance? scopes' (R.name away (distance? scopes n) n) = distance? scopes n := by
  induction h with
  | outside => rw [R.name_none]
  | @here scope outer hnew =>
    cases hl : scope.lookup n with
    | some ready =>
      rw [distance?_of_some hl, R.name_here]
      exact distance?_of_some ((Scope.lookup_rename R scope n).trans hl)
    | none =>
      rw [distance?_of_none hl, R.name_of_distance_ne map_succ_ne_zero,
        distance?_of_none (Scope.lookup_rename_of_none hnew (hn nofun) hl)]
  | @deeper d scope outer outer' hnew _ ih =>
    cases hl : scope.lookup n with
    | some ready =>
      rw [distance?_of_some hl, R.name_of_distance_ne (by simp)]
      exact distance?_of_some hl
    | none =>
      -- this scope is further in than the renamed one, and has neither the name nor the new one
      have hlacks : scope.lookup (R.name (some d) (distance? outer n) n) = none := by
        unfold Renaming.name
        split
        · by_cases hold : n = R.old
          · rw [hold, Equiv.swap_apply_left, hnew]
          · rw [Equiv.swap_apply_of_ne_of_ne hold (hn nofun), hl]
        · exact hl
      rw [distance?_of_none hl, show some (d + 1) = (some d).map (· + 1) from rfl, R.name_deeper,
        distance?_of_none hlacks, ih fun _ => hn nofun]

/-- A scope that is opened for a block or a function. -/
theorem opened (h : ScopesRenamed R away scopes scopes') (hinside : Inside away inner) :
    ScopesRenamed R inner ([] :: scopes) ([] :: scopes') := by
  obtain rfl | ⟨rfl, rfl⟩ := hinside
  · cases h with
    | outside => exact .outside
    | here hnew => exact .deeper rfl (.here hnew)
    | deeper hnew h => exact .deeper rfl (.deeper hnew h)
  · cases h
    exact .here rfl

/-- A scope that holds one name, and that is not the scope of the variable. -/
theorem openedWith (h : ScopesRenamed R away scopes scopes') {n : String} (hn : n ≠ R.new) :
    ScopesRenamed R (away.map (· + 1)) ([(n, true)] :: scopes) ([(n, true)] :: scopes') := by
  have hlacks : List.lookup R.new [(n, true)] = none := by
    rw [List.lookup_cons, beq_false_of_ne hn.symm]
    rfl
  cases h with
  | outside => exact .outside
  | here hnew => exact .deeper hlacks (.here hnew)
  | deeper hnew h => exact .deeper hlacks (.deeper hnew h)

theorem tail (h : ScopesRenamed R inner scopes scopes') (hinside : Inside away inner) :
    ScopesRenamed R away scopes.tail scopes'.tail := by
  obtain rfl | ⟨rfl, rfl⟩ := hinside
  · cases away with
    | none =>
      cases h
      exact .outside
    | some d =>
      obtain _ | _ | ⟨_, h⟩ := h
      exact h
  · cases h
    exact .outside

/-- What the innermost scopes hold. -/
theorem cases_head (h : ScopesRenamed R away scopes scopes') {n : String}
    (hn : away ≠ none → n ≠ R.new) :
    (scopes = [] ∧ scopes' = []) ∨ ∃ scope outer scope' outer',
      scopes = scope :: outer ∧ scopes' = scope' :: outer' ∧
      scope'.lookup (R.name away (some 0) n) = scope.lookup n ∧
      ∀ ready, ScopesRenamed R away (((n, ready) :: scope) :: outer)
        (((R.name away (some 0) n, ready) :: scope') :: outer') := by
  cases h with
  | outside =>
    cases scopes with
    | nil => exact .inl ⟨rfl, rfl⟩
    | cons scope outer =>
      refine .inr ⟨scope, outer, scope, outer, rfl, rfl, by rw [R.name_none], fun ready => ?_⟩
      rw [R.name_none]
      exact .outside
  | @here scope outer hnew =>
    refine .inr ⟨_, _, _, _, rfl, rfl, ?_, fun ready => ?_⟩
    · rw [R.name_here, Scope.lookup_rename]
    · rw [R.name_here]
      exact .here (by rw [List.lookup_cons, beq_false_of_ne (hn nofun).symm, hnew])
  | @deeper d scope outer outer' hnew h =>
    -- at distance 0 is a scope further in than the renamed one
    have hname : R.name (some (d + 1)) (some 0) n = n := R.name_of_distance_ne (by simp)
    refine .inr ⟨_, _, _, _, rfl, rfl, by rw [hname], fun ready => ?_⟩
    rw [hname]
    exact .deeper (by rw [List.lookup_cons, beq_false_of_ne (hn nofun).symm, hnew]) h

end ScopesRenamed

/-- Walks that have come equally far. -/
structure Resolution.Renamed (R : Renaming) (away : Option Nat) (r r' : Resolution) : Prop where
  scopes : ScopesRenamed R away r.scopes r'.scopes
  body : r'.body = r.body
  context : r'.context = r.context
  distances : r'.distances = r.distances
  errors : r'.errors.length = r.errors.length

/-- The distances of sites are those that the renaming goes by. -/
def Renaming.Follows (R : Renaming) (sites : List Site) : Prop :=
  ∀ site ∈ sites, R.distances[site.id]? = distance? site.scopes site.name

namespace Renaming.Follows

variable {sites more : List Site}

theorem left (h : R.Follows (sites ++ more)) : R.Follows sites :=
  fun site hs => h site (List.mem_append_left _ hs)

theorem right (h : R.Follows (sites ++ more)) : R.Follows more :=
  fun site hs => h site (List.mem_append_right _ hs)

theorem one {site : Site} (h : R.Follows [site]) :
    R.distances[site.id]? = distance? site.scopes site.name :=
  h site (.head _)

end Renaming.Follows

namespace Resolution.Renamed

variable {r r' : Resolution}

/-! ## Steps of a walk -/

theorem report (h : r.Renamed R away r') (token token' : Token) (problem : ScopeProblem) :
    (r.report token problem).Renamed R away (r'.report token' problem) :=
  { h with errors := by simp [Resolution.report, h.errors] }

theorem ite {c c' : Prop} [Decidable c] [Decidable c'] (hc : c' ↔ c) {p p' q q' : Resolution}
    (hp : p.Renamed R away p') (hq : q.Renamed R away q') :
    (if c then p else q).Renamed R away (if c' then p' else q') := by
  by_cases h : c
  · rwa [if_pos h, if_pos (hc.2 h)]
  · rwa [if_neg h, if_neg (mt hc.1 h)]

theorem declare (h : r.Renamed R away r') {name name' : Token}
    (hn : away ≠ none → name.lexeme ≠ R.new)
    (hname : name'.lexeme = R.name away (some 0) name.lexeme) :
    (r.declare name).Renamed R away (r'.declare name') := by
  rw [Resolution.declare, Resolution.declare, hname]
  obtain ⟨hs, hs'⟩ | ⟨scope, outer, scope', outer', hs, hs', hlookup, hdeclared⟩ :=
    h.scopes.cases_head hn
  · rw [hs, hs']
    exact h
  · rw [hs, hs']
    dsimp only
    rw [hlookup]
    cases scope.lookup name.lexeme with
    | some ready => exact h.report _ _ _
    | none => exact { h with scopes := hdeclared false }

theorem define (h : r.Renamed R away r') {name name' : Token}
    (hn : away ≠ none → name.lexeme ≠ R.new)
    (hname : name'.lexeme = R.name away (some 0) name.lexeme) :
    (r.define name).Renamed R away (r'.define name') := by
  rw [Resolution.define, Resolution.define, hname]
  obtain ⟨hs, hs'⟩ | ⟨scope, outer, scope', outer', hs, hs', -, hdefined⟩ :=
    h.scopes.cases_head hn
  · rw [hs, hs']
    exact h
  · rw [hs, hs']
    exact { h with scopes := hdefined true }

theorem declared (h : r.Renamed R away r') {name name' : Token}
    (hn : away ≠ none → name.lexeme ≠ R.new)
    (hname : name'.lexeme = R.name away (some 0) name.lexeme) :
    ((r.declare name).define name).Renamed R away ((r'.declare name').define name') :=
  (h.declare hn hname).define hn hname

/-- A name that is kept in its scope. -/
theorem kept (h : r.Renamed R away r') {name : Token} (hk : R.Keeps away name) :
    ((r.declare name).define name).Renamed R away ((r'.declare name).define name) :=
  h.declared hk.new hk.name_eq.symm

theorem declareAll (h : r.Renamed R away r') {names : List Token}
    (hn : ∀ name ∈ names, away ≠ none → name.lexeme ≠ R.new) :
    (r.declareAll names).Renamed R away (r'.declareAll (names.map (R.declare away))) := by
  induction names generalizing r r' with
  | nil => exact h
  | cons name names ih =>
    have hname := hn name (.head _)
    exact ih (h.declared hname (R.lexeme_declare hname)) fun n hmem => hn n (.tail _ hmem)

theorem use (h : r.Renamed R away r') (id : Nat) {name name' : Token}
    (hn : away ≠ none → name.lexeme ≠ R.new)
    (hname : name'.lexeme = R.name away (distance? r.scopes name.lexeme) name.lexeme) :
    (r.use id name).Renamed R away (r'.use id name') := by
  rw [Resolution.use, Resolution.use, hname, h.scopes.distance?_eq hn]
  cases distance? r.scopes name.lexeme with
  | none => exact h
  | some d => exact { h with distances := by simp only [h.distances] }

theorem inInitializer_eq (h : r.Renamed R away r') {n : String} (hn : away ≠ none → n ≠ R.new) :
    r'.inInitializer (R.name away (distance? r.scopes n) n) = r.inInitializer n := by
  have hdistance := h.scopes.distance?_eq hn
  obtain ⟨hs, hs'⟩ | ⟨scope, outer, scope', outer', hs, hs', hlookup, -⟩ := h.scopes.cases_head hn
  · rw [Resolution.inInitializer, Resolution.inInitializer, hs, hs']
  · rw [hs, hs'] at hdistance
    rw [Resolution.inInitializer, Resolution.inInitializer, hs, hs']
    dsimp only
    cases hl : scope.lookup n with
    | some ready => rw [distance?_of_some hl, hlookup, hl]
    | none =>
      rw [distance?_of_none hl] at hdistance ⊢
      cases hl' : scope'.lookup (R.name away ((distance? outer n).map (· + 1)) n) with
      | none => rfl
      | some ready =>
        rw [distance?_of_some hl'] at hdistance
        exact absurd hdistance.symm map_succ_ne_zero

theorem useVariable (h : r.Renamed R away r') (id : Nat) {name name' : Token}
    (hn : away ≠ none → name.lexeme ≠ R.new)
    (hname : name'.lexeme = R.name away (distance? r.scopes name.lexeme) name.lexeme) :
    (r.useVariable id name).Renamed R away (r'.useVariable id name') := by
  rw [Resolution.useVariable, Resolution.useVariable]
  have hinit := h.inInitializer_eq hn
  rw [← hname] at hinit
  rw [hinit]
  cases r.inInitializer name.lexeme with
  | false => exact h.use id hn hname
  | true => exact (h.report name name' .ownInitializer).use id hn hname

/-- A keyword is spelled like neither name. -/
theorem use_keyword (h : r.Renamed R away r') (id : Nat) {keyword : Token}
    (hk : away ≠ none → keyword.lexeme ≠ R.old ∧ keyword.lexeme ≠ R.new) :
    (r.use id keyword).Renamed R away (r'.use id keyword) := by
  refine h.use id (fun haway => (hk haway).2) ?_
  by_cases haway : away = none
  · rw [haway, R.name_none]
  · rw [R.name_of_ne (hk haway).1 (hk haway).2]

theorem useSelf (h : r.Renamed R away r') (id : Nat) {keyword : Token}
    (hk : away ≠ none → keyword.lexeme ≠ R.old ∧ keyword.lexeme ≠ R.new) :
    (r.useSelf id keyword).Renamed R away (r'.useSelf id keyword) := by
  rw [Resolution.useSelf, Resolution.useSelf, h.context]
  cases r.context with
  | outside => exact h.report _ _ _
  | base | derived => exact h.use_keyword id hk

theorem useSuper (h : r.Renamed R away r') (id : Nat) {keyword : Token}
    (hk : away ≠ none → keyword.lexeme ≠ R.old ∧ keyword.lexeme ≠ R.new) :
    (r.useSuper id keyword).Renamed R away (r'.useSuper id keyword) := by
  rw [Resolution.useSuper, Resolution.useSuper, h.context]
  cases r.context with
  | outside => exact (h.report keyword keyword .superOutsideClass).use_keyword id hk
  | base => exact (h.report keyword keyword .superWithoutSuperclass).use_keyword id hk
  | derived => exact h.use_keyword id hk

theorem checkReturn (h : r.Renamed R away r') (keyword : Token) (hasValue : Bool) :
    (r.checkReturn keyword hasValue).Renamed R away (r'.checkReturn keyword hasValue) := by
  have hbody : r'.body = .topLevel ↔ r.body = .topLevel := by rw [h.body]
  have hfirst := ite hbody (h.report keyword keyword .topLevelReturn) h
  rw [Resolution.checkReturn, Resolution.checkReturn]
  exact ite (by simp [hfirst.body]) (hfirst.report _ _ _) hfirst

/-- A superclass is renamed only if it is not the class itself, whose name is kept. -/
theorem checkSuperclass (h : r.Renamed R away r') {name word : Token} {id : Nat}
    (hk : R.Keeps away name) (hn : away ≠ none → word.lexeme ≠ R.new)
    (hid : R.distances[id]? = distance? r.scopes word.lexeme)
    (hname : away ≠ none → distance? r.scopes name.lexeme = some 0) :
    (r.checkSuperclass name (.var id word)).Renamed R away
      (r'.checkSuperclass name (.var id (R.use away id word))) := by
  rw [Resolution.checkSuperclass, Resolution.checkSuperclass]
  refine ite ?_ (h.report _ _ _) h
  rw [R.lexeme_use id hn]
  constructor
  · intro hsame
    unfold Renaming.name at hsame
    split at hsame
    · rename_i hhere
      by_cases hold : word.lexeme = R.old
      · -- the superclass takes the new name, which the name of the class is kept apart from
        rw [hold, Equiv.swap_apply_left] at hsame
        exact absurd hsame.symm (hk.new hhere.1)
      · rwa [Equiv.swap_apply_of_ne_of_ne hold (hn hhere.1)] at hsame
    · exact hsame
  · intro hsame
    by_cases haway : away = none
    · rw [haway, R.name_none, hsame]
    · rw [hid, hsame, hname haway, hk.name_eq]

theorem opened (h : r.Renamed R away r') (hinside : Inside away inner) :
    (r.opened []).Renamed R inner (r'.opened []) :=
  { h with scopes := h.scopes.opened hinside }

/-- The scope of `this` or `super`. -/
theorem openedWith (h : r.Renamed R away r') {n : String} (hn : Heap.Reserved n) :
    (r.opened [n]).Renamed R (away.map (· + 1)) (r'.opened [n]) := by
  have hne : n ≠ R.new := by
    rintro rfl
    exact R.new_free hn
  exact { h with scopes := h.scopes.openedWith hne }

theorem closed (h : r.Renamed R inner r') (hinside : Inside away inner) :
    r.closed.Renamed R away r'.closed :=
  { h with scopes := h.scopes.tail hinside }

theorem withBody (h : r.Renamed R away r') (kind : Body) :
    ({ r with body := kind } : Resolution).Renamed R away { r' with body := kind } :=
  { h with body := rfl }

theorem withContext (h : r.Renamed R away r') (context : ClassContext) :
    ({ r with context } : Resolution).Renamed R away { r' with context } :=
  { h with context := rfl }

end Resolution.Renamed

/-! ## Trees -/

variable {r r' : Resolution}

mutual

theorem Expr.renamed_resolve (os : List Opener) : (e : Expr) → {r r' : Resolution} →
    e.Clear R away → R.Follows (e.sites os r) → r.Renamed R away r' →
    (e.resolve r).Renamed R away ((e.rename R away).resolve r')
  | .number _, _, _, _, _, h | .string _, _, _, _, _, h | .boolean _, _, _, _, _, h
  | .nil, _, _, _, _, h => h
  | .group inner, _, _, hc, hf, h => inner.renamed_resolve os hc hf h
  | .unary _ operand, _, _, hc, hf, h => operand.renamed_resolve os hc hf h
  | .binary left _ right, _, _, hc, hf, h | .logical left _ right, _, _, hc, hf, h =>
    right.renamed_resolve os hc.2 hf.right (left.renamed_resolve os hc.1 hf.left h)
  | .choice condition thenCase elseCase, _, _, hc, hf, h =>
    elseCase.renamed_resolve os hc.2.2 hf.right.right
      (thenCase.renamed_resolve os hc.2.1 hf.right.left
        (condition.renamed_resolve os hc.1 hf.left h))
  | .comma items, _, _, hc, hf, h => Expr.renamed_resolveAll os items hc hf h
  | .var id name, _, _, hc, hf, h =>
    h.useVariable id hc ((R.lexeme_use id hc).trans (by rw [hf.one]))
  | .assign id name value, r, _, hc, hf, h => by
    have hvalue := value.renamed_resolve os hc.2 hf.left h
    exact hvalue.use id hc.1 ((R.lexeme_use id hc.1).trans (by rw [hf.right.one]))
  | .call callee _ arguments, _, _, hc, hf, h =>
    Expr.renamed_resolveAll os arguments hc.2 hf.right
      (callee.renamed_resolve os hc.1 hf.left h)
  | .get object _, _, _, hc, hf, h => object.renamed_resolve os hc hf h
  | .set object _ value, _, _, hc, hf, h =>
    object.renamed_resolve os hc.1 hf.right (value.renamed_resolve os hc.2 hf.left h)
  | .self id _, _, _, hc, _, h => h.useSelf id hc
  | .super id _ _, _, _, hc, _, h => h.useSuper id hc

theorem Expr.renamed_resolveAll (os : List Opener) : (es : List Expr) → {r r' : Resolution} →
    Expr.AllClear R away es → R.Follows (Expr.sitesAll os es r) → r.Renamed R away r' →
    (Expr.resolveAll es r).Renamed R away (Expr.resolveAll (Expr.renameAll R away es) r')
  | [], _, _, _, _, h => h
  | e :: es, _, _, hc, hf, h =>
    Expr.renamed_resolveAll os es hc.2 hf.right (e.renamed_resolve os hc.1 hf.left h)

end

/-- A name that was just made ready is found in the innermost scope. -/
theorem distance?_define {scopes : List Scope} (h : scopes ≠ []) (n : String) :
    distance? (Scopes.define n scopes) n = some 0 := by
  cases scopes with
  | nil => exact absurd rfl h
  | cons scope outer => 
    have hfound : List.lookup n ((n, true) :: scope) = some true := by simp
    exact distance?_of_some hfound

theorem ScopesRenamed.ne_nil {scopes scopes' : List Scope}
    (h : ScopesRenamed R away scopes scopes') (haway : away ≠ none) : scopes ≠ [] := by
  cases h with
  | outside => exact absurd rfl haway
  | here _ | deeper _ _ => simp

mutual

theorem Stmt.Renamed.resolve (os : List Opener) : {s s' : Stmt} → {away : Option Nat} →
    {r r' : Resolution} → s.Renamed R away s' → R.Follows (s.sites os r) → r.Renamed R away r' →
    (s.resolve r).Renamed R away (s'.resolve r')
  | _, _, _, _, _, .expression (e := e) hc, hf, h => e.renamed_resolve os hc hf h
  | _, _, _, _, _, .print (e := e) hc, hf, h => e.renamed_resolve os hc hf h
  | _, _, _, _, _, .declare hn, _, h => h.declared hn (R.lexeme_declare hn)
  | _, _, _, _, _, .initialized (e := e) hn hc, hf, h =>
    (e.renamed_resolve os hc hf (h.declare hn (R.lexeme_declare hn))).define hn
      (R.lexeme_declare hn)
  | _, _, _, _, _, @Stmt.Renamed.block _ _ _ body _ hinside hs, hf, h =>
    (hs.resolve (.block body :: os) hf (h.opened hinside)).closed hinside
  | _, _, _, _, _, .ifThen (c := c) hc hs, hf, h =>
    hs.resolve os hf.right (c.renamed_resolve os hc hf.left h)
  | _, _, _, _, _, .ifElse (c := c) hc ha hb, hf, h =>
    hb.resolve os hf.right.right
      (ha.resolve os hf.right.left (c.renamed_resolve os hc hf.left h))
  | _, _, _, _, _, .loop (c := c) hc hs, hf, h =>
    hs.resolve os hf.right (c.renamed_resolve os hc hf.left h)
  | _, _, _, _, _, .function hk hinside hd, hf, h => by
    have hname := hd.name_eq
    rw [Stmt.resolve, Stmt.resolve, hname]
    exact hd.resolve os .function hinside hf (h.kept hk)
  | _, _, _, _, _, .leave, _, h => h.checkReturn _ false
  | _, _, _, _, _, .yield (e := e) hc, hf, h => e.renamed_resolve os hc hf (h.checkReturn _ true)
  | _, _, _, _, _, .base hk hs, hf, h => by
    have hname := (h.withContext .base).kept hk
    have hmethods := hs.resolve (.self :: os) hf (hname.openedWith (.inl rfl))
    exact { hmethods.closed (.deeper _) with context := h.context }
  | _, _, away, r, _, @Stmt.Renamed.derived _ _ name word id _ _ hk hn hs, hf, h => by
    have hname := (h.withContext .derived).kept hk
    have hsuper : R.distances[id]? = distance?
        ((({ r with context := .derived } : Resolution).declare name).define name).scopes
          word.lexeme := by
      rw [hf.left.one, (Resolution.Onward.checkSuperclass _ name (.var id word)).scopes]
      rfl
    have hfound : away ≠ none → distance?
        ((({ r with context := .derived } : Resolution).declare name).define name).scopes
          name.lexeme = some 0 := fun haway => by
      have hne := hname.scopes.ne_nil haway
      rw [Resolution.scopes_define] at hne ⊢
      refine distance?_define (fun hnil => hne ?_) _
      rw [hnil]
      rfl
    have hcheck := hname.checkSuperclass hk hn hsuper hfound
    have hword := Expr.renamed_resolve os (.var id word) hn hf.left hcheck
    have hmethods := hs.resolve (.self :: .super :: os) hf.right (by
      rw [map_deeper away 1]
      exact (hword.openedWith (.inr rfl)).openedWith (.inl rfl))
    rw [map_deeper away 1] at hmethods
    exact { (hmethods.closed (.deeper _)).closed (.deeper _) with context := h.context }

theorem Stmt.AllRenamed.resolve (os : List Opener) : {ss ss' : List Stmt} →
    {away : Option Nat} → {r r' : Resolution} → Stmt.AllRenamed R away ss ss' →
    R.Follows (Stmt.sitesAll os ss r) → r.Renamed R away r' →
    (Stmt.resolveAll ss r).Renamed R away (Stmt.resolveAll ss' r')
  | _, _, _, _, _, .nil, _, h => h
  | _, _, _, _, _, .cons hs hrest, hf, h =>
    hrest.resolve os hf.right (hs.resolve os hf.left h)

theorem Function.Renamed.resolve (os : List Opener) (kind : Body) : {f f' : Function} →
    {away inner : Option Nat} → {r r' : Resolution} → f.Renamed R inner f' →
    Inside away inner → R.Follows (f.sites os kind r) → r.Renamed R away r' →
    (f.resolve kind r).Renamed R away (f'.resolve kind r')
  | _, _, _, _, _, _, .mk hn hs, hinside, hf, h => by
    have hbody := hs.resolve _ hf (((h.withBody kind).opened hinside).declareAll hn)
    exact { hbody.closed hinside with body := h.body }

theorem Function.AllRenamed.resolve (os : List Opener) : {fs fs' : List Function} →
    {away : Option Nat} → {r r' : Resolution} → Function.AllRenamed R away fs fs' →
    R.Follows (Function.sitesMethods os fs r) → r.Renamed R away r' →
    (Function.resolveMethods fs r).Renamed R away (Function.resolveMethods fs' r')
  | _, _, _, _, _, .nil, _, h => h
  | f :: _, f' :: _, _, _, _, .cons hinside hd hrest, hf, h => by
    have hkind : f'.methodBody = f.methodBody := by
      rw [Function.methodBody, Function.methodBody, hd.name_eq]
    rw [Function.resolveMethods, Function.resolveMethods, hkind]
    exact hrest.resolve os hf.right (hd.resolve os f.methodBody hinside hf.left h)

end

end Lox
