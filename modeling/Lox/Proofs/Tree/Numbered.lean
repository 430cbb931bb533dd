import Lox.Proofs.Grammar.Expr

/-
  Node ids in order

  The grammar numbers the nodes of an expression in the order of their names in
  the text, so the tree alone tells the ids that its derivation began and ended
  with.
-/

namespace Lox

open Grammar

mutual

/-- `e.Numbered n k`: from left to right the nodes of `e` have the ids from `n` up
to `k`, the latter excluded. -/
def Expr.Numbered : Expr → Nat → Nat → Prop
  | .number _, n, k | .string _, n, k | .boolean _, n, k | .nil, n, k => n = k
  | .group inner, n, k => inner.Numbered n k
  | .unary _ operand, n, k => operand.Numbered n k
  | .binary left _ right, n, k => ∃ i, left.Numbered n i ∧ right.Numbered i k
  | .logical left _ right, n, k => ∃ i, left.Numbered n i ∧ right.Numbered i k
  | .choice condition thenCase elseCase, n, k =>
    ∃ i j, condition.Numbered n i ∧ thenCase.Numbered i j ∧ elseCase.Numbered j k
  | .comma items, n, k => Expr.AllNumbered items n k
  | .var id _, n, k => id = n ∧ n + 1 = k
  | .assign id _ value, n, k => id = n ∧ value.Numbered (n + 1) k
  | .call callee _ arguments, n, k => ∃ i, callee.Numbered n i ∧ Expr.AllNumbered arguments i k
  | .get object _, n, k => object.Numbered n k
  | .set object _ value, n, k => ∃ i, object.Numbered n i ∧ value.Numbered i k
  | .self id _, n, k | .super id _ _, n, k => id = n ∧ n + 1 = k

/-- The same for expressions one after another. -/
def Expr.AllNumbered : List Expr → Nat → Nat → Prop
  | [], n, k => n = k
  | e :: es, n, k => ∃ i, e.Numbered n i ∧ Expr.AllNumbered es i k

end

theorem Grammar.Precedence.numbered_combine {l : Precedence} {left right : Expr} {operator : Token}
    {n i k : Nat} (hl : left.Numbered n i) (hr : right.Numbered i k) :
    (l.combine left operator right).Numbered n k := by
  cases l <;> exact ⟨i, hl, hr⟩

namespace Grammar

mutual

/-- A derived tree has the ids between the places of its derivation. -/
theorem Derives.numbered {l : Level} {p q : Place} {e : Expr} :
    Derives l p e q → e.Numbered p.nextId q.nextId
  | .single h | .noAssignment h | .noChoice h | .noUnary h => h.numbered
  | .comma hfirst hmore _ => ⟨_, hfirst.numbered, hmore.numbered⟩
  | .assignVariable _ _ h => ⟨rfl, h.numbered⟩
  | .assignProperty hobject _ _ _ hvalue => ⟨_, hobject.numbered, hvalue.numbered⟩
  | .choice hcondition _ hthen _ helse =>
    ⟨_, _, hcondition.numbered, hthen.numbered, helse.numbered⟩
  | .chain hfirst hchain => hchain.numbered hfirst.numbered
  | .unary _ h => h.numbered
  | .call hprimary hsuffixes => hsuffixes.numbered hprimary.numbered
  | .number _ | .string _ | .trueWord _ | .falseWord _ | .nilWord _ => rfl
  | .thisWord _ | .identifier _ | .superWord _ _ _ => ⟨rfl, rfl⟩
  | .group _ h _ => h.numbered

theorem Chain.numbered {l : Precedence} {left e : Expr} {n : Nat} {p q : Place} :
    Chain l left p e q → left.Numbered n p.nextId → e.Numbered n q.nextId
  | .done, hleft => hleft
  | .step _ hright h, hleft => h.numbered (l.numbered_combine hleft hright.numbered)

theorem More.numbered {p q : Place} {items : List Expr} :
    More p items q → Expr.AllNumbered items p.nextId q.nextId
  | .done => rfl
  | .step _ hitem h => ⟨_, hitem.numbered, h.numbered⟩

theorem Arguments.numbered {p q : Place} {arguments : List Expr} :
    Arguments p arguments q → Expr.AllNumbered arguments p.nextId q.nextId
  | .none => rfl
  | .some hfirst hmore _ => ⟨_, hfirst.numbered, hmore.numbered⟩

theorem Suffixes.numbered {left e : Expr} {n : Nat} {p q : Place} :
    Suffixes left p e q → left.Numbered n p.nextId → e.Numbered n q.nextId
  | .done, hleft => hleft
  | .call _ harguments _ h, hleft => h.numbered ⟨_, hleft, harguments.numbered⟩
  | .property _ _ h, hleft => h.numbered hleft

end

end Grammar
end Lox
