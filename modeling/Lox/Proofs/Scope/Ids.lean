import Lox.Proofs.Scope.Proper

/-
  Ids of sites

  A phrase gives its nodes the ids between the places where it begins and ends,
  each to one node. The sites of a tree have these ids in the order of its
  resolution, which for counting loops and for assignments to properties is not
  that of the text.
-/

namespace Lox

/-- The ids are the numbers from `n` up to `k`, the latter excluded, in some
order. -/
def Fills (n k : Nat) (ids : List Nat) : Prop := n ≤ k ∧ ids.Perm (List.range' n (k - n))

namespace Fills

theorem nil (n : Nat) : Fills n n [] := ⟨Nat.le_refl n, by simp⟩

theorem single (n : Nat) : Fills n (n + 1) [n] :=
  ⟨Nat.le_succ n, by simp⟩

theorem append {n m k : Nat} {as bs : List Nat} (ha : Fills n m as) (hb : Fills m k bs) :
    Fills n k (as ++ bs) := by
  refine ⟨Nat.le_trans ha.1 hb.1, (ha.2.append hb.2).trans (.of_eq ?_)⟩
  have hm : m = n + 1 * (m - n) := by have := ha.1; omega
  have hk : m - n + (k - m) = k - n := by have := ha.1; have := hb.1; omega
  rw [← hk, ← List.range'_append, ← hm]

/-- What is resolved in another order than that of the text. -/
theorem append_swap {n m k : Nat} {as bs : List Nat} (ha : Fills n m as) (hb : Fills m k bs) :
    Fills n k (bs ++ as) :=
  have h := ha.append hb
  ⟨h.1, List.perm_append_comm.trans h.2⟩

theorem nodup {n k : Nat} {ids : List Nat} (h : Fills n k ids) : ids.Nodup :=
  h.2.nodup_iff.2 List.nodup_range'

theorem mem_iff {n k id : Nat} {ids : List Nat} (h : Fills n k ids) :
    id ∈ ids ↔ n ≤ id ∧ id < k := by
  rw [h.2.mem_iff, List.mem_range'_1]
  have := h.1
  omega

end Fills

mutual

/-- The sites of a numbered expression have its ids. -/
theorem Expr.Numbered.fills (os : List Opener) : (e : Expr) → {n k : Nat} → (r : Resolution) →
    e.Numbered n k → Fills n k ((e.sites os r).map Site.id)
  | .number _, _, _, _, h | .string _, _, _, _, h | .boolean _, _, _, _, h | .nil, _, _, _, h => by
    obtain rfl := h
    exact .nil _
  | .group inner, _, _, r, h => Expr.Numbered.fills os inner r h
  | .unary _ operand, _, _, r, h => Expr.Numbered.fills os operand r h
  | .binary left _ right, _, _, r, h | .logical left _ right, _, _, r, h => by
    obtain ⟨_, hleft, hright⟩ := h
    show Fills _ _ ((left.sites os r ++ right.sites os (left.resolve r)).map Site.id)
    rw [List.map_append]
    exact (Expr.Numbered.fills os left r hleft).append (Expr.Numbered.fills os right _ hright)
  | .choice condition thenCase elseCase, _, _, r, h => by
    obtain ⟨_, _, hcondition, hthen, helse⟩ := h
    rw [Expr.sites, List.map_append, List.map_append]
    exact (Expr.Numbered.fills os condition r hcondition).append
      ((Expr.Numbered.fills os thenCase _ hthen).append
        (Expr.Numbered.fills os elseCase _ helse))
  | .comma items, _, _, r, h => Expr.AllNumbered.fills os items r h
  | .var _ _, _, _, _, h | .self _ _, _, _, _, h | .super _ _ _, _, _, _, h => by
    obtain ⟨rfl, rfl⟩ := h
    exact .single _
  | .assign _ _ value, _, _, r, h => by
    obtain ⟨rfl, hvalue⟩ := h
    rw [Expr.sites, List.map_append]
    exact (Fills.single _).append_swap (Expr.Numbered.fills os value r hvalue)
  | .call callee _ arguments, _, _, r, h => by
    obtain ⟨_, hcallee, harguments⟩ := h
    rw [Expr.sites, List.map_append]
    exact (Expr.Numbered.fills os callee r hcallee).append
      (Expr.AllNumbered.fills os arguments _ harguments)
  | .get object _, _, _, r, h => Expr.Numbered.fills os object r h
  | .set object _ value, _, _, r, h => by
    obtain ⟨_, hobject, hvalue⟩ := h
    rw [Expr.sites, List.map_append]
    exact (Expr.Numbered.fills os object _ hobject).append_swap
      (Expr.Numbered.fills os value r hvalue)

theorem Expr.AllNumbered.fills (os : List Opener) : (es : List Expr) → {n k : Nat} →
    (r : Resolution) → Expr.AllNumbered es n k → Fills n k ((Expr.sitesAll os es r).map Site.id)
  | [], _, _, _, h => by
    obtain rfl := h
    exact .nil _
  | e :: es, _, _, r, h => by
    obtain ⟨_, he, hes⟩ := h
    rw [Expr.sitesAll, List.map_append]
    exact (Expr.Numbered.fills os e r he).append (Expr.AllNumbered.fills os es _ hes)

end

namespace Grammar

theorem Derives.fills {l : Level} {p q : Place} {e : Expr} (h : Derives l p e q)
    (os : List Opener) (r : Resolution) :
    Fills p.nextId q.nextId ((e.sites os r).map Site.id) :=
  Expr.Numbered.fills os e r h.numbered

/-- The sites of what may be left out. -/
def optionalSites (os : List Opener) (e : Option Expr) (r : Resolution) : List Site :=
  match e with
  | none => []
  | some e => e.sites os r

theorem OptionalExpression.fills {p q : Place} {e : Option Expr} (h : OptionalExpression p e q)
    (os : List Opener) (r : Resolution) :
    Fills p.nextId q.nextId ((optionalSites os e r).map Site.id) := by
  cases h with
  | absent => exact .nil _
  | present h => exact h.fills os r

theorem VariableDeclaration.fills {p q : Place} {s : Stmt} (h : VariableDeclaration p s q)
    (os : List Opener) (r : Resolution) :
    Fills p.nextId q.nextId ((s.sites os r).map Site.id) := by
  cases h with
  | plain => exact .nil _
  | initialized _ _ _ h _ => exact h.fills os (r.declare _)

theorem ExpressionStatement.fills {p q : Place} {s : Stmt} (h : ExpressionStatement p s q)
    (os : List Opener) (r : Resolution) :
    Fills p.nextId q.nextId ((s.sites os r).map Site.id) := by
  cases h with
  | mk h _ => exact h.fills os r

/-- What is returned, whether there is a value or not. -/
theorem fills_yield {keyword : Token} {value : Option Expr} {n k : Nat}
    (h : ∀ os r, Fills n k ((optionalSites os value r).map Site.id)) (os : List Opener)
    (r : Resolution) : Fills n k (((Stmt.yield keyword value).sites os r).map Site.id) := by
  cases value with
  | none => exact h os r
  | some e => exact h os (r.checkReturn keyword true)

/-- A class with its superclass, which is a variable. -/
theorem Superclass.fills {p q : Place} {superclass : Option Expr} {name : Token}
    {methods : List Function} {k : Nat} (h : Superclass p superclass q)
    (hmethods : ∀ os r, Fills q.nextId k ((Function.sitesMethods os methods r).map Site.id))
    (os : List Opener) (r : Resolution) :
    Fills p.nextId k (((Stmt.classDecl name superclass methods).sites os r).map Site.id) := by
  cases h with
  | absent => exact hmethods _ _
  | present _ _ =>
    rw [Stmt.sites, List.map_append]
    exact (Fills.single _).append (hmethods _ _)

theorem MoreNames.nextId_eq {p q : Place} {names : List Token} :
    MoreNames p names q → q.nextId = p.nextId
  | .done => rfl
  | .step _ _ h => h.nextId_eq

theorem Parameters.nextId_eq {p q : Place} {names : List Token} :
    Parameters p names q → q.nextId = p.nextId
  | .none => rfl
  | .some _ h _ => h.nextId_eq

/-- The increment of a counting loop is written before the body and resolved
after it. -/
theorem fills_repeated {increment : Option Expr} {body : Stmt} {n m k : Nat}
    (hincrement : ∀ os r, Fills n m ((optionalSites os increment r).map Site.id))
    (hbody : ∀ os r, Fills m k ((body.sites os r).map Site.id)) (os : List Opener)
    (r : Resolution) : Fills n k (((repeated body increment).sites os r).map Site.id) := by
  cases increment with
  | none => exact (hincrement os r).append (hbody os r)
  | some e =>
    rw [repeated, Stmt.sites, Stmt.sitesAll, Stmt.sitesAll, Stmt.sitesAll, List.append_nil,
      List.map_append]
    exact (hincrement _ _).append_swap (hbody _ _)

theorem fills_whileLoop {condition increment : Option Expr} {body : Stmt} {l n m k : Nat}
    (hcondition : ∀ os r, Fills l n ((optionalSites os condition r).map Site.id))
    (hincrement : ∀ os r, Fills n m ((optionalSites os increment r).map Site.id))
    (hbody : ∀ os r, Fills m k ((body.sites os r).map Site.id)) (os : List Opener)
    (r : Resolution) : Fills l k (((whileLoop condition increment body).sites os r).map Site.id) := by
  have hrepeated := fills_repeated hincrement hbody os
  cases condition with
  | none => exact (hcondition os r).append (hrepeated r)
  | some e =>
    rw [whileLoop, Stmt.sites, List.map_append]
    exact (hcondition os r).append (hrepeated _)

theorem fills_forLoop {initial : Option Stmt} {condition increment : Option Expr} {body : Stmt}
    {j l n m k : Nat} {p q : Place} (hfirst : FirstClause p initial q)
    (hj : p.nextId = j) (hl : q.nextId = l)
    (hcondition : ∀ os r, Fills l n ((optionalSites os condition r).map Site.id))
    (hincrement : ∀ os r, Fills n m ((optionalSites os increment r).map Site.id))
    (hbody : ∀ os r, Fills m k ((body.sites os r).map Site.id)) (os : List Opener)
    (r : Resolution) :
    Fills j k (((forLoop initial condition increment body).sites os r).map Site.id) := by
  have hloop := fills_whileLoop hcondition hincrement hbody
  subst hj hl
  -- a first clause takes its ids before the rest of the loop
  cases hfirst with
  | absent _ => exact hloop os r
  | varDecl h =>
    rw [forLoop, Stmt.sites, Stmt.sitesAll, Stmt.sitesAll, Stmt.sitesAll, List.append_nil,
      List.map_append]
    exact (h.fills _ _).append (hloop _ _)
  | expression h =>
    rw [forLoop, Stmt.sites, Stmt.sitesAll, Stmt.sitesAll, Stmt.sitesAll, List.append_nil,
      List.map_append]
    exact (h.fills _ _).append (hloop _ _)

variable {rule : ElseRule}

mutual

/-- The sites of a statement have the ids between its two places. -/
theorem Statement.fills {p q : Place} {s : Stmt} {o : Bool} :
    Statement rule p s q o → ∀ (os : List Opener) (r : Resolution),
      Fills p.nextId q.nextId ((s.sites os r).map Site.id)
  | .expression h => h.fills
  | .forLoop _ _ hfirst hcondition _ hincrement _ hbody =>
    fills_forLoop hfirst rfl rfl hcondition.fills hincrement.fills hbody.fills
  | .ifThen _ _ hcondition _ hthen => by
    intro os r
    rw [Stmt.sites, List.map_append]
    exact (hcondition.fills os r).append (hthen.fills os _)
  | .ifElse _ _ hcondition _ hthen _ _ helse => by
    intro os r
    rw [Stmt.sites, List.map_append, List.map_append]
    exact (hcondition.fills os r).append ((hthen.fills os _).append (helse.fills os _))
  | .print _ h _ => h.fills
  | .yield _ h _ => fills_yield h.fills
  | .whileLoop _ _ hcondition _ hbody => by
    intro os r
    rw [Stmt.sites, List.map_append]
    exact (hcondition.fills os r).append (hbody.fills os _)
  | .block h => fun os r => h.fills (.block _ :: os) (r.opened [])

theorem Block.fills {p q : Place} {body : List Stmt} :
    Block rule p body q → ∀ (os : List Opener) (r : Resolution),
      Fills p.nextId q.nextId ((Stmt.sitesAll os body r).map Site.id)
  | .mk _ h _ => h.fills

theorem Declaration.fills {p q : Place} {s : Stmt} :
    Declaration rule p s q → ∀ (os : List Opener) (r : Resolution),
      Fills p.nextId q.nextId ((s.sites os r).map Site.id)
  | .classDecl _ _ hsuperclass _ hmethods _ => hsuperclass.fills hmethods.fills
  | .function _ h => fun os r => h.fills os .function ((r.declare _).define _)
  | .varDecl h => h.fills
  | .statement h => h.fills

theorem Declarations.fills {p q : Place} {body : List Stmt} :
    Declarations rule p body q → ∀ (os : List Opener) (r : Resolution),
      Fills p.nextId q.nextId ((Stmt.sitesAll os body r).map Site.id)
  | .done => fun _ _ => .nil _
  | .step h hs => by
    intro os r
    rw [Stmt.sitesAll, List.map_append]
    exact (h.fills os r).append (hs.fills os _)

theorem Routine.fills {p q : Place} {f : Function} :
    Routine rule p f q → ∀ (os : List Opener) (kind : Body) (r : Resolution),
      Fills p.nextId q.nextId ((f.sites os kind r).map Site.id)
  | .mk _ _ hparameters _ h => by
    intro os kind r
    have hid := hparameters.nextId_eq
    rw [Function.sites, ← hid]
    exact h.fills _ _

theorem Routines.fills {p q : Place} {methods : List Function} :
    Routines rule p methods q → ∀ (os : List Opener) (r : Resolution),
      Fills p.nextId q.nextId ((Function.sitesMethods os methods r).map Site.id)
  | .done => fun _ _ => .nil _
  | .step h hs => by
    intro os r
    rw [Function.sitesMethods, List.map_append]
    exact (h.fills os _ r).append (hs.fills os _)

end

end Grammar
end Lox
