import Lox.Parse.Stmt
import Lox.Proofs.Grammar.Expr

/-
  The tokens of an expression

  A semicolon or a keyword that begins a declaration or a statement is never part
  of an expression. So parsing can go on at either of them, wherever in an
  expression it has stopped.
-/

namespace Lox.Grammar

/-- The kinds at which parsing does not go on after an error. -/
def isInner : Kind → Bool
  | .semicolon => false
  | kind => !Parse.startsStatement kind

theorem of_isInner {kind : Kind} (h : isInner kind = true) :
    kind ≠ .semicolon ∧ Parse.startsStatement kind = false := by
  cases kind with
  | semicolon | classWord | funWord | varWord | forWord | ifWord | whileWord | printWord
  | returnWord => cases h
  | _ => exact ⟨nofun, rfl⟩

/-- Tokens within expressions lead from the first list to the second one. -/
def Reaches (ts us : List Token) : Prop :=
  ∃ front, ts = front ++ us ∧ ∀ t ∈ front, isInner t.kind = true

namespace Reaches

theorem refl (ts : List Token) : Reaches ts ts := ⟨[], rfl, nofun⟩

theorem trans {ts us vs : List Token} : Reaches ts us → Reaches us vs → Reaches ts vs := by
  rintro ⟨front, rfl, hfront⟩ ⟨back, rfl, hback⟩
  refine ⟨front ++ back, (List.append_assoc _ _ _).symm, fun t ht => ?_⟩
  exact (List.mem_append.1 ht).elim (hfront t) (hback t)

theorem cons {t : Token} {ts us : List Token} (ht : isInner t.kind = true) :
    Reaches ts us → Reaches (t :: ts) us := by
  rintro ⟨front, rfl, hfront⟩
  exact ⟨t :: front, rfl, List.forall_mem_cons.2 ⟨ht, hfront⟩⟩

theorem of_kind {t : Token} {K : Kind} {ts us : List Token} (hkind : t.kind = K)
    (hK : isInner K = true) (h : Reaches ts us) : Reaches (t :: ts) us :=
  .cons (by rw [hkind, hK]) h

end Reaches

theorem Precedence.isInner_of_mem {l : Precedence} {kind : Kind} (h : kind ∈ l.operators) :
    isInner kind = true := by
  have hall : ∀ kind ∈ l.operators, isInner kind = true := by cases l <;> decide
  exact hall kind h

mutual

/-- All tokens of an expression are tokens within expressions. -/
theorem Derives.reaches {l : Level} {p q : Place} {e : Expr} : Derives l p e q → Reaches p.tokens q.tokens
  | .single h | .noAssignment h | .noChoice h | .noUnary h => h.reaches
  | .comma hfirst hmore _ => hfirst.reaches.trans hmore.reaches
  | .assignVariable hname hequals h => .of_kind hname rfl (.of_kind hequals rfl h.reaches)
  | .assignProperty hobject hdot hname hequals h =>
    hobject.reaches.trans (.of_kind hdot rfl (.of_kind hname rfl (.of_kind hequals rfl h.reaches)))
  | .choice hcondition hquestion hthen hcolon helse =>
    hcondition.reaches.trans (.of_kind hquestion rfl
      (hthen.reaches.trans (.of_kind hcolon rfl helse.reaches)))
  | .chain hfirst hchain => hfirst.reaches.trans hchain.reaches
  | .unary hop h =>
    have hinner : ∀ kind ∈ [Kind.bang, Kind.minus], isInner kind = true := by decide
    .cons (hinner _ hop) h.reaches
  | .call hprimary hsuffixes => hprimary.reaches.trans hsuffixes.reaches
  | .number h | .string h | .trueWord h | .falseWord h | .nilWord h | .thisWord h
  | .identifier h => .of_kind h rfl (.refl _)
  | .group hopening h hclosing => .of_kind hopening rfl (h.reaches.trans (.of_kind hclosing rfl (.refl _)))
  | .superWord hword hdot hmethod =>
    .of_kind hword rfl (.of_kind hdot rfl (.of_kind hmethod rfl (.refl _)))

theorem Chain.reaches {l : Precedence} {left e : Expr} {p q : Place} :
    Chain l left p e q → Reaches p.tokens q.tokens
  | .done => .refl _
  | .step hop hright h => .cons (Precedence.isInner_of_mem hop) (hright.reaches.trans h.reaches)

theorem More.reaches {items : List Expr} {p q : Place} : More p items q → Reaches p.tokens q.tokens
  | .done => .refl _
  | .step hsep hitem h => .of_kind hsep rfl (hitem.reaches.trans h.reaches)

theorem Arguments.reaches {arguments : List Expr} {p q : Place} :
    Arguments p arguments q → Reaches p.tokens q.tokens
  | .none => .refl _
  | .some hfirst hmore _ => hfirst.reaches.trans hmore.reaches

theorem Suffixes.reaches {left e : Expr} {p q : Place} : Suffixes left p e q → Reaches p.tokens q.tokens
  | .done => .refl _
  | .call hopening harguments hclosing h =>
    .of_kind hopening rfl (harguments.reaches.trans (.of_kind hclosing rfl h.reaches))
  | .property hdot hname h => .of_kind hdot rfl (.of_kind hname rfl h.reaches)

end

end Lox.Grammar
