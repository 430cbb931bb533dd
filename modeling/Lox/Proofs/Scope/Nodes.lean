import Lox.Proofs.Form.RoundTrip
import Lox.Proofs.Scope.Ids

/-
  Ids of nodes

  Four kinds of nodes have an id: variables, assignments to them, `this` and
  `super`. The nodes of a tree are its sites, whatever the walk that lists
  these, so the parser and the reader give each id between the first one and
  the one they end with to exactly one node (`fills_of_parseProgram`,
  `fills_of_read`).
-/

namespace Lox

mutual

/-- The ids of the nodes of an expression, in the order of the text. -/
def Expr.ids : Expr → List Nat
  | .number _ | .string _ | .boolean _ | .nil => []
  | .group inner => inner.ids
  | .unary _ operand => operand.ids
  | .binary left _ right | .logical left _ right => left.ids ++ right.ids
  | .choice condition thenCase elseCase => condition.ids ++ (thenCase.ids ++ elseCase.ids)
  | .comma items => Expr.idsAll items
  | .var id _ => [id]
  | .assign id _ value => id :: value.ids
  | .call callee _ arguments => callee.ids ++ Expr.idsAll arguments
  | .get object _ => object.ids
  | .set object _ value => object.ids ++ value.ids
  | .self id _ | .super id _ _ => [id]

def Expr.idsAll : List Expr → List Nat
  | [] => []
  | e :: es => e.ids ++ Expr.idsAll es

end

mutual

/-- The ids of the nodes of a statement, those in functions and methods included. -/
def Stmt.ids : Stmt → List Nat
  | .expression e | .print e => e.ids
  | .varDecl _ none | .yield _ none => []
  | .varDecl _ (some initial) => initial.ids
  | .yield _ (some value) => value.ids
  | .block body => Stmt.idsAll body
  | .branch condition thenCase none => condition.ids ++ thenCase.ids
  | .branch condition thenCase (some elseCase) => condition.ids ++ (thenCase.ids ++ elseCase.ids)
  | .loop condition body => condition.ids ++ body.ids
  | .function declaration => declaration.ids
  | .classDecl _ none methods => Function.idsAll methods
  | .classDecl _ (some superclass) methods => superclass.ids ++ Function.idsAll methods

def Stmt.idsAll : List Stmt → List Nat
  | [] => []
  | s :: ss => s.ids ++ Stmt.idsAll ss

def Function.ids : Function → List Nat
  | .mk _ _ body => Stmt.idsAll body

def Function.idsAll : List Function → List Nat
  | [] => []
  | f :: fs => f.ids ++ Function.idsAll fs

end

/-! ## Nodes are sites -/

mutual

theorem Expr.perm_ids (os : List Opener) : (e : Expr) → (r : Resolution) →
    ((e.sites os r).map Site.id).Perm e.ids
  | .number _, _ | .string _, _ | .boolean _, _ | .nil, _ => .nil
  | .group inner, r => inner.perm_ids os r
  | .unary _ operand, r => operand.perm_ids os r
  | .binary left _ right, r | .logical left _ right, r => by
    show ((left.sites os r ++ right.sites os (left.resolve r)).map Site.id).Perm
      (left.ids ++ right.ids)
    rw [List.map_append]
    exact (left.perm_ids os r).append (right.perm_ids os _)
  | .choice condition thenCase elseCase, r => by
    rw [Expr.sites, Expr.ids, List.map_append, List.map_append]
    exact (condition.perm_ids os r).append
      ((thenCase.perm_ids os _).append (elseCase.perm_ids os _))
  | .comma items, r => Expr.perm_idsAll os items r
  | .var _ _, _ | .self _ _, _ | .super _ _ _, _ => .refl _
  | .assign id _ value, r => by
    rw [Expr.sites, Expr.ids, List.map_append]
    exact List.perm_append_comm.trans ((value.perm_ids os r).cons id)
  | .call callee _ arguments, r => by
    rw [Expr.sites, Expr.ids, List.map_append]
    exact (callee.perm_ids os r).append (Expr.perm_idsAll os arguments _)
  | .get object _, r => object.perm_ids os r
  | .set object _ value, r => by
    rw [Expr.sites, Expr.ids, List.map_append]
    exact List.perm_append_comm.trans ((object.perm_ids os _).append (value.perm_ids os r))

theorem Expr.perm_idsAll (os : List Opener) : (es : List Expr) → (r : Resolution) →
    ((Expr.sitesAll os es r).map Site.id).Perm (Expr.idsAll es)
  | [], _ => .nil
  | e :: es, r => by
    rw [Expr.sitesAll, Expr.idsAll, List.map_append]
    exact (e.perm_ids os r).append (Expr.perm_idsAll os es _)

end

mutual

theorem Stmt.perm_ids (os : List Opener) : (s : Stmt) → (r : Resolution) →
    ((s.sites os r).map Site.id).Perm s.ids
  | .expression e, r | .print e, r => e.perm_ids os r
  | .varDecl _ none, _ | .yield _ none, _ => .nil
  | .varDecl _ (some initial), _ => initial.perm_ids os _
  | .yield _ (some value), _ => value.perm_ids os _
  | .block body, _ => Stmt.perm_idsAll _ body _
  | .branch condition thenCase none, r => by
    rw [Stmt.sites, Stmt.ids, List.map_append]
    exact (condition.perm_ids os r).append (thenCase.perm_ids os _)
  | .branch condition thenCase (some elseCase), r => by
    rw [Stmt.sites, Stmt.ids, List.map_append, List.map_append]
    exact (condition.perm_ids os r).append
      ((thenCase.perm_ids os _).append (elseCase.perm_ids os _))
  | .loop condition body, r => by
    rw [Stmt.sites, Stmt.ids, List.map_append]
    exact (condition.perm_ids os r).append (body.perm_ids os _)
  | .function declaration, _ => declaration.perm_ids os _ _
  | .classDecl _ none methods, _ => Function.perm_idsAll _ methods _
  | .classDecl _ (some superclass) methods, _ => by
    rw [Stmt.sites, Stmt.ids, List.map_append]
    exact (superclass.perm_ids os _).append (Function.perm_idsAll _ methods _)

theorem Stmt.perm_idsAll (os : List Opener) : (ss : List Stmt) → (r : Resolution) →
    ((Stmt.sitesAll os ss r).map Site.id).Perm (Stmt.idsAll ss)
  | [], _ => .nil
  | s :: ss, r => by
    rw [Stmt.sitesAll, Stmt.idsAll, List.map_append]
    exact (s.perm_ids os r).append (Stmt.perm_idsAll os ss _)

theorem Function.perm_ids (os : List Opener) : (f : Function) → (kind : Body) → (r : Resolution) →
    ((f.sites os kind r).map Site.id).Perm f.ids
  | .mk _ _ body, _, _ => Stmt.perm_idsAll _ body _

theorem Function.perm_idsAll (os : List Opener) : (fs : List Function) → (r : Resolution) →
    ((Function.sitesMethods os fs r).map Site.id).Perm (Function.idsAll fs)
  | [], _ => .nil
  | f :: fs, r => by
    rw [Function.sitesMethods, Function.idsAll, List.map_append]
    exact (f.perm_ids os _ r).append (Function.perm_idsAll os fs _)

end

theorem Fills.of_perm {n k : Nat} {ids ids' : List Nat} (h : Fills n k ids) (hp : ids.Perm ids') :
    Fills n k ids' := ⟨h.1, hp.symm.trans h.2⟩

theorem Expr.Numbered.fills_ids {e : Expr} {n k : Nat} (h : e.Numbered n k) : Fills n k e.ids :=
  (Expr.Numbered.fills [] e .start h).of_perm (e.perm_ids [] .start)

/-! ## Trees that are parsed or read -/

section Trees

variable {n k : Nat}

/-- A parsed program has the ids that the parser gave out. -/
theorem fills_of_parseProgram {tokens : List Token} {program : List Stmt}
    (h : Parse.parseProgram tokens n = ⟨.ok program, k⟩) : Fills n k (Stmt.idsAll program) := by
  obtain ⟨q, ⟨hderives, -⟩, rfl⟩ := Parse.runRule_sound
    (Parse.sound_program (Nat.lt_succ_self _) _ (Nat.lt_succ_self _)) h
  exact (hderives.fills [] .start).of_perm (Stmt.perm_idsAll [] program .start)

theorem fills_of_parseExpression {tokens : List Token} {e : Expr}
    (h : Parse.parseExpression tokens n = ⟨.ok e, k⟩) : Fills n k e.ids := by
  obtain ⟨q, ⟨hderives, -⟩, rfl⟩ := Parse.runRule_sound
    (Parse.sound_wholeExpression (Nat.le_succ _)) h
  exact hderives.numbered.fills_ids

/-- An expression that is read has the ids that the reader gave out. -/
theorem fills_of_read {source : String} {e : Expr} (h : Form.read source n = .ok (e, k)) :
    Fills n k e.ids := by
  obtain ⟨t, hform, -, rfl⟩ := Form.form_of_read h
  exact (Form.yields_form _ _ _ _ hform).numbered.fills_ids

end Trees
end Lox
