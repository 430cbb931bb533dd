import Lox.Proofs.Scope.Site
import Lox.Proofs.Tree.Alike
import Lox.Proofs.Tree.Relabel

/-
  Relabelled trees are alike

  A tree and its relabelling are alike as soon as the ids of its sites, and the
  lines, stand for those that they are mapped to. With the maps that change
  nothing this says when a tree is like itself.
-/

namespace Lox

section

variable {L : Likeness} {line id : Nat → Nat}

/-- The ids of sites stand for what they are mapped to. -/
def SitesAlike (L : Likeness) (id : Nat → Nat) (sites : List Site) : Prop :=
  ∀ site ∈ sites, L.ids site.id (id site.id)

namespace SitesAlike

variable {sites more : List Site}

theorem left (h : SitesAlike L id (sites ++ more)) : SitesAlike L id sites :=
  fun site hs => h site (List.mem_append_left _ hs)

theorem right (h : SitesAlike L id (sites ++ more)) : SitesAlike L id more :=
  fun site hs => h site (List.mem_append_right _ hs)

theorem one {site : Site} (h : SitesAlike L id [site]) : L.ids site.id (id site.id) :=
  h site (.head _)

end SitesAlike

theorem Token.matches_mapLine (hline : ∀ l, L.lines l (line l)) (t : Token) :
    t.Matches L (t.mapLine line) := ⟨rfl, rfl, hline _⟩

theorem matches_map (hline : ∀ l, L.lines l (line l)) (ts : List Token) :
    List.Forall₂ (Token.Matches L) ts (ts.map (·.mapLine line)) := by
  induction ts with
  | nil => exact .nil
  | cons t ts ih => exact .cons (t.matches_mapLine hline) ih

mutual

theorem Expr.alike_relabel (hline : ∀ l, L.lines l (line l)) : (e : Expr) →
    {os : List Opener} → {r : Resolution} → SitesAlike L id (e.sites os r) →
    e.Alike L (e.relabel line id)
  | .number _, _, _, _ => .number _
  | .string _, _, _, _ => .string _
  | .boolean _, _, _, _ => .boolean _
  | .nil, _, _, _ => .nil
  | .group inner, _, _, h => .group (inner.alike_relabel hline h)
  | .unary operator operand, _, _, h =>
    .unary (operator.matches_mapLine hline) (operand.alike_relabel hline h)
  | .binary left operator right, _, _, h =>
    .binary (left.alike_relabel hline h.left) (operator.matches_mapLine hline)
      (right.alike_relabel hline h.right)
  | .logical left operator right, _, _, h =>
    .logical (left.alike_relabel hline h.left) (operator.matches_mapLine hline)
      (right.alike_relabel hline h.right)
  | .choice condition thenCase elseCase, _, _, h =>
    .choice (condition.alike_relabel hline h.left) (thenCase.alike_relabel hline h.right.left)
      (elseCase.alike_relabel hline h.right.right)
  | .comma items, _, _, h => .comma (Expr.alike_relabelAll hline items h)
  | .var _ name, _, _, h => .var h.one (name.matches_mapLine hline)
  | .assign _ name value, _, _, h =>
    .assign h.right.one (name.matches_mapLine hline) (value.alike_relabel hline h.left)
  | .call callee paren arguments, _, _, h =>
    .call (callee.alike_relabel hline h.left) (paren.matches_mapLine hline)
      (Expr.alike_relabelAll hline arguments h.right)
  | .get object name, _, _, h =>
    .get (object.alike_relabel hline h) (name.matches_mapLine hline)
  | .set object name value, _, _, h =>
    .set (object.alike_relabel hline h.right) (name.matches_mapLine hline)
      (value.alike_relabel hline h.left)
  | .self _ keyword, _, _, h => .self h.one (keyword.matches_mapLine hline)
  | .super _ keyword method, _, _, h =>
    .super h.one (keyword.matches_mapLine hline) (method.matches_mapLine hline)

theorem Expr.alike_relabelAll (hline : ∀ l, L.lines l (line l)) : (es : List Expr) →
    {os : List Opener} → {r : Resolution} → SitesAlike L id (Expr.sitesAll os es r) →
    Expr.AllAlike L es (Expr.relabelAll line id es)
  | [], _, _, _ => .nil
  | e :: es, _, _, h =>
    .cons (e.alike_relabel hline h.left) (Expr.alike_relabelAll hline es h.right)

end

mutual

theorem Stmt.alike_relabel (hline : ∀ l, L.lines l (line l)) : (s : Stmt) →
    {os : List Opener} → {r : Resolution} → SitesAlike L id (s.sites os r) →
    s.Alike L (s.relabel line id)
  | .expression e, _, _, h => .expression (e.alike_relabel hline h)
  | .print e, _, _, h => .print (e.alike_relabel hline h)
  | .varDecl name none, _, _, _ => .varDecl (name.matches_mapLine hline) .none
  | .varDecl name (some initial), _, _, h =>
    .varDecl (name.matches_mapLine hline) (.some (initial.alike_relabel hline h))
  | .block body, _, _, h => .block (Stmt.alike_relabelAll hline body h)
  | .branch condition thenCase none, _, _, h =>
    .ifThen (condition.alike_relabel hline h.left) (thenCase.alike_relabel hline h.right)
  | .branch condition thenCase (some elseCase), _, _, h =>
    .ifElse (condition.alike_relabel hline h.left) (thenCase.alike_relabel hline h.right.left)
      (elseCase.alike_relabel hline h.right.right)
  | .loop condition body, _, _, h =>
    .loop (condition.alike_relabel hline h.left) (body.alike_relabel hline h.right)
  | .function declaration, _, _, h => .function (declaration.alike_relabel hline h)
  | .yield keyword none, _, _, _ => .yield (keyword.matches_mapLine hline) .none
  | .yield keyword (some value), _, _, h =>
    .yield (keyword.matches_mapLine hline) (.some (value.alike_relabel hline h))
  | .classDecl name none methods, _, _, h =>
    .classDecl (name.matches_mapLine hline) .none (Function.alike_relabelAll hline methods h)
  | .classDecl name (some superclass) methods, _, _, h =>
    .classDecl (name.matches_mapLine hline) (.some (superclass.alike_relabel hline h.left))
      (Function.alike_relabelAll hline methods h.right)

theorem Stmt.alike_relabelAll (hline : ∀ l, L.lines l (line l)) : (ss : List Stmt) →
    {os : List Opener} → {r : Resolution} → SitesAlike L id (Stmt.sitesAll os ss r) →
    Stmt.AllAlike L ss (Stmt.relabelAll line id ss)
  | [], _, _, _ => .nil
  | s :: rest, _, _, h =>
    .cons (s.alike_relabel hline h.left) (Stmt.alike_relabelAll hline rest h.right)

theorem Function.alike_relabel (hline : ∀ l, L.lines l (line l)) : (f : Function) →
    {os : List Opener} → {kind : Body} → {r : Resolution} → SitesAlike L id (f.sites os kind r) →
    f.Alike L (f.relabel line id)
  | .mk name parameters body, _, _, _, h =>
    .mk (name.matches_mapLine hline) (matches_map hline parameters)
      (Stmt.alike_relabelAll hline body h)

theorem Function.alike_relabelAll (hline : ∀ l, L.lines l (line l)) : (fs : List Function) →
    {os : List Opener} → {r : Resolution} → SitesAlike L id (Function.sitesMethods os fs r) →
    Function.AllAlike L fs (Function.relabelAll line id fs)
  | [], _, _, _ => .nil
  | f :: fs, _, _, h =>
    .cons (f.alike_relabel hline h.left) (Function.alike_relabelAll hline fs h.right)

end

end

end Lox
