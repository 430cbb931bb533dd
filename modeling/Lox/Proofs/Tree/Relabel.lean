import Lox.Stmt
import Lox.Proofs.Token.Lines

/-
  Relabelled trees — the same program on other lines, under other ids

  A tree is relabelled by a map of lines and a map of node ids. Nothing else of
  it changes, so two trees that agree after the same relabelling differ at most
  in what the maps forget.
-/

namespace Lox

section Relabelling

variable (line id : Nat → Nat)

mutual

/-- An expression on other lines and under other ids. -/
def Expr.relabel : Expr → Expr
  | .number value => .number value
  | .string text => .string text
  | .boolean value => .boolean value
  | .nil => .nil
  | .group inner => .group inner.relabel
  | .unary operator operand => .unary (operator.mapLine line) operand.relabel
  | .binary left operator right => .binary left.relabel (operator.mapLine line) right.relabel
  | .logical left operator right => .logical left.relabel (operator.mapLine line) right.relabel
  | .choice condition thenCase elseCase =>
    .choice condition.relabel thenCase.relabel elseCase.relabel
  | .comma items => .comma (Expr.relabelAll items)
  | .var i name => .var (id i) (name.mapLine line)
  | .assign i name value => .assign (id i) (name.mapLine line) value.relabel
  | .call callee paren arguments =>
    .call callee.relabel (paren.mapLine line) (Expr.relabelAll arguments)
  | .get object name => .get object.relabel (name.mapLine line)
  | .set object name value => .set object.relabel (name.mapLine line) value.relabel
  | .self i keyword => .self (id i) (keyword.mapLine line)
  | .super i keyword method => .super (id i) (keyword.mapLine line) (method.mapLine line)

/-- Expressions on other lines and under other ids. -/
def Expr.relabelAll : List Expr → List Expr
  | [] => []
  | e :: es => e.relabel :: Expr.relabelAll es

end

theorem Expr.relabelAll_eq_map (es : List Expr) :
    Expr.relabelAll line id es = es.map (·.relabel line id) := by
  induction es with
  | nil => rfl
  | cons e es ih => rw [relabelAll, ih, List.map_cons]

mutual

/-- A statement on other lines and under other ids. -/
def Stmt.relabel : Stmt → Stmt
  | .expression e => .expression (e.relabel line id)
  | .print e => .print (e.relabel line id)
  | .varDecl name initial => .varDecl (name.mapLine line) (initial.map (·.relabel line id))
  | .block body => .block (Stmt.relabelAll body)
  | .branch condition thenCase none => .branch (condition.relabel line id) thenCase.relabel none
  | .branch condition thenCase (some elseCase) =>
    .branch (condition.relabel line id) thenCase.relabel (some elseCase.relabel)
  | .loop condition body => .loop (condition.relabel line id) body.relabel
  | .function declaration => .function declaration.relabel
  | .yield keyword value => .yield (keyword.mapLine line) (value.map (·.relabel line id))
  | .classDecl name superclass methods =>
    .classDecl (name.mapLine line) (superclass.map (·.relabel line id))
      (Function.relabelAll methods)

/-- Statements on other lines and under other ids. -/
def Stmt.relabelAll : List Stmt → List Stmt
  | [] => []
  | s :: ss => s.relabel :: Stmt.relabelAll ss

/-- A declaration on other lines and under other ids. -/
def Function.relabel : Function → Function
  | .mk name parameters body =>
    .mk (name.mapLine line) (parameters.map (·.mapLine line)) (Stmt.relabelAll body)

/-- Declarations on other lines and under other ids. -/
def Function.relabelAll : List Function → List Function
  | [] => []
  | f :: fs => f.relabel :: Function.relabelAll fs

end

theorem Stmt.relabelAll_eq_map (ss : List Stmt) :
    Stmt.relabelAll line id ss = ss.map (·.relabel line id) := by
  induction ss with
  | nil => rfl
  | cons s ss ih => rw [relabelAll, ih, List.map_cons]

theorem Function.relabelAll_eq_map (fs : List Function) :
    Function.relabelAll line id fs = fs.map (·.relabel line id) := by
  induction fs with
  | nil => rfl
  | cons f fs ih => rw [relabelAll, ih, List.map_cons]

end Relabelling

/-! ## Nothing relabelled -/

mutual

/-- On the same lines and under the same ids it is the same expression. -/
theorem Expr.relabel_self : (e : Expr) → e.relabel (fun l => l) (fun i => i) = e
  | .number _ | .string _ | .boolean _ | .nil | .var _ _ | .self _ _ | .super _ _ _ => rfl
  | .group inner => congrArg Expr.group inner.relabel_self
  | .unary operator operand => congrArg (Expr.unary operator) operand.relabel_self
  | .binary left operator right =>
    congrArg₂ (Expr.binary · operator ·) left.relabel_self right.relabel_self
  | .logical left operator right =>
    congrArg₂ (Expr.logical · operator ·) left.relabel_self right.relabel_self
  | .choice condition thenCase elseCase => by
    rw [Expr.relabel, condition.relabel_self, thenCase.relabel_self, elseCase.relabel_self]
  | .comma items => congrArg Expr.comma (Expr.relabelAll_self items)
  | .assign id name value => congrArg (Expr.assign id name) value.relabel_self
  | .call callee paren arguments =>
    congrArg₂ (Expr.call · paren ·) callee.relabel_self (Expr.relabelAll_self arguments)
  | .get object name => congrArg (Expr.get · name) object.relabel_self
  | .set object name value =>
    congrArg₂ (Expr.set · name ·) object.relabel_self value.relabel_self

theorem Expr.relabelAll_self :
    (es : List Expr) → Expr.relabelAll (fun l => l) (fun i => i) es = es
  | [] => rfl
  | e :: es => congrArg₂ List.cons e.relabel_self (Expr.relabelAll_self es)

end

mutual

theorem Stmt.relabel_self : (s : Stmt) → s.relabel (fun l => l) (fun i => i) = s
  | .expression e => congrArg Stmt.expression e.relabel_self
  | .print e => congrArg Stmt.print e.relabel_self
  | .varDecl _ none => rfl
  | .varDecl name (some initial) => congrArg (Stmt.varDecl name <| some ·) initial.relabel_self
  | .block body => congrArg Stmt.block (Stmt.relabelAll_self body)
  | .branch condition thenCase none =>
    congrArg₂ (Stmt.branch · · none) condition.relabel_self thenCase.relabel_self
  | .branch condition thenCase (some elseCase) => by
    rw [Stmt.relabel, condition.relabel_self, thenCase.relabel_self, elseCase.relabel_self]
  | .loop condition body => congrArg₂ Stmt.loop condition.relabel_self body.relabel_self
  | .function declaration => congrArg Stmt.function declaration.relabel_self
  | .yield _ none => rfl
  | .yield keyword (some value) => congrArg (Stmt.yield keyword <| some ·) value.relabel_self
  | .classDecl name none methods =>
    congrArg (Stmt.classDecl name none) (Function.relabelAll_self methods)
  | .classDecl name (some superclass) methods =>
    congrArg₂ (Stmt.classDecl name <| some ·) superclass.relabel_self
      (Function.relabelAll_self methods)

theorem Stmt.relabelAll_self :
    (ss : List Stmt) → Stmt.relabelAll (fun l => l) (fun i => i) ss = ss
  | [] => rfl
  | s :: ss => congrArg₂ List.cons s.relabel_self (Stmt.relabelAll_self ss)

theorem Function.relabel_self : (f : Function) → f.relabel (fun l => l) (fun i => i) = f
  | .mk name parameters body =>
    congrArg₂ (Function.mk name) (List.map_id' parameters) (Stmt.relabelAll_self body)

theorem Function.relabelAll_self :
    (fs : List Function) → Function.relabelAll (fun l => l) (fun i => i) fs = fs
  | [] => rfl
  | f :: fs => congrArg₂ List.cons f.relabel_self (Function.relabelAll_self fs)

end

/-- An expression without its lines. -/
def Expr.unlined (e : Expr) : Expr := e.relabel (fun _ => 0) fun i => i

end Lox
