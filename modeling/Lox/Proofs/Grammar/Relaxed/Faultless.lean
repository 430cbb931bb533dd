import Lox.Proofs.Grammar.Relaxed.Stmt

/-
  The grammar within the relaxed one

  What the grammar derives, the relaxed grammar derives as well, and finds no
  fault with it.
-/

namespace Lox.Grammar

/-! ## Expressions -/

variable (fs : List SyntaxError)

mutual

theorem Derives.relaxed {l : Level} {p q : Place} {e : Expr} :
    Derives l p e q → Relaxed.Derives l (p.with fs) e (q.with fs)
  | .single h => .single h.relaxed
  | .comma hfirst hmore hne => .comma hfirst.relaxed hmore.relaxed hne
  | .assignVariable hname hequals h =>
    have htarget := Relaxed.Derives.call (.atom (.identifier hname) rfl) .done
    .assignVariable htarget.choice_of_call hequals h.relaxed
  | .assignProperty hobject hdot hname hequals h =>
    .assignProperty (hobject.relaxed.get hdot hname).choice_of_call hequals h.relaxed
  | .noAssignment h => .noAssignment h.relaxed
  | .choice hcondition hquestion hthen hcolon helse =>
    .choice hcondition.relaxed hquestion hthen.relaxed hcolon helse.relaxed
  | .noChoice h => .noChoice h.relaxed
  | .chain hfirst hchain => .chain hfirst.relaxed hchain.relaxed
  | .unary hop h => .unary hop h.relaxed
  | .noUnary h => .noUnary h.relaxed
  | .call hprimary hsuffixes => .call hprimary.relaxed hsuffixes.relaxed
  | .number h => .atom (.number h) rfl
  | .string h => .atom (.string h) rfl
  | .trueWord h => .atom (.trueWord h) rfl
  | .falseWord h => .atom (.falseWord h) rfl
  | .nilWord h => .atom (.nilWord h) rfl
  | .thisWord h => .atom (.thisWord h) rfl
  | .identifier h => .atom (.identifier h) rfl
  | .superWord h hdot hmethod => .atom (.superWord h hdot hmethod) rfl
  | .group hopening h hclosing => .group hopening h.relaxed hclosing

theorem Chain.relaxed {l : Precedence} {p q : Place} {left e : Expr} :
    Chain l left p e q → Relaxed.Chain l left (p.with fs) e (q.with fs)
  | .done => .done
  | .step hop hright h => .step hop hright.relaxed h.relaxed

theorem More.relaxed {p q : Place} {items : List Expr} :
    More p items q → Relaxed.More (p.with fs) items (q.with fs)
  | .done => .done
  | .step hsep hitem h => .step hsep hitem.relaxed h.relaxed

theorem Arguments.relaxed {p q : Place} {arguments : List Expr} :
    Arguments p arguments q → Relaxed.Arguments 0 (p.with fs) arguments (q.with fs)
  | .none => .none
  | .some hfirst hmore hcount =>
    hmore.relaxed.arguments (by rwa [Nat.zero_add]) hfirst.relaxed

theorem Suffixes.relaxed {left e : Expr} {p q : Place} :
    Suffixes left p e q → Relaxed.Suffixes left (p.with fs) e (q.with fs)
  | .done => .done
  | .call hopening harguments hclosing h =>
    .call hopening harguments.relaxed hclosing h.relaxed
  | .property hdot hname h => .property hdot hname h.relaxed

end

/-! ## Statements -/

theorem OptionalExpression.relaxed {p q : Place} {e : Option Expr} :
    OptionalExpression p e q → Relaxed.OptionalExpression (p.with fs) e (q.with fs)
  | .absent => .absent
  | .present h => .present (h.relaxed fs)

theorem VariableDeclaration.relaxed {p q : Place} {s : Stmt} :
    VariableDeclaration p s q → Relaxed.VariableDeclaration (p.with fs) s (q.with fs)
  | .plain hword hname hsemicolon => .plain hword hname hsemicolon
  | .initialized hword hname hequals h hsemicolon =>
    .initialized hword hname hequals (h.relaxed fs) hsemicolon

theorem ExpressionStatement.relaxed {p q : Place} {s : Stmt} :
    ExpressionStatement p s q → Relaxed.ExpressionStatement (p.with fs) s (q.with fs)
  | .mk h hsemicolon => .mk (h.relaxed fs) hsemicolon

theorem FirstClause.relaxed {p q : Place} {s : Option Stmt} :
    FirstClause p s q → Relaxed.FirstClause (p.with fs) s (q.with fs)
  | .absent hsemicolon => .absent hsemicolon
  | .varDecl h => .varDecl (h.relaxed fs)
  | .expression h => .expression (h.relaxed fs)

/-- Names behind a parameter are parameters without faults as long as there are not too
many. -/
theorem MoreNames.parameters {name : Token} {names : List Token} {count : Nat} {p q : Place}
    (hcount : count + (name :: names).length ≤ longestList) (hname : name.kind = .identifier)
    (h : MoreNames p names q) :
    Relaxed.Parameters count ((⟨name :: p.tokens, p.nextId⟩ : Place).with fs) (name :: names)
      (q.with fs) := by
  induction h generalizing name count with
  | @done p =>
    have hlast : Relaxed.Parameters count ⟨⟨name :: p.tokens, p.nextId⟩, fs⟩ [name]
        ⟨p, fs ++ tooMany count ⟨name, .tooManyParameters⟩⟩ := .last hname
    rwa [append_tooMany _ _ hcount] at hlast
  | step hsep hnext _ ih =>
    rw [List.length_cons] at hcount
    refine .step hname hsep ?_
    rw [append_tooMany _ _ (by omega)]
    exact ih (by omega) hnext

theorem Parameters.relaxed {p q : Place} {names : List Token} :
    Parameters p names q → Relaxed.Parameters 0 (p.with fs) names (q.with fs)
  | .none => .none
  | .some hname hmore hcount => hmore.parameters fs (by rwa [Nat.zero_add]) hname

section

variable {rule : ElseRule}

mutual

theorem Statement.relaxed {p q : Place} {s : Stmt} {o : Bool} :
    Statement rule p s q o → Relaxed.Statement rule (p.with fs) s (q.with fs) o
  | .expression h => .expression (h.relaxed fs)
  | .forLoop hword hopening hfirst hcondition hsemicolon hincrement hclosing hbody =>
    .forLoop hword hopening (hfirst.relaxed fs) (hcondition.relaxed fs) hsemicolon
      (hincrement.relaxed fs) hclosing hbody.relaxed
  | .ifThen hword hopening hcondition hclosing hthen =>
    .ifThen hword hopening (hcondition.relaxed fs) hclosing hthen.relaxed
  | .ifElse hword hopening hcondition hclosing hthen helse hclosed hrest =>
    .ifElse hword hopening (hcondition.relaxed fs) hclosing hthen.relaxed helse hclosed
      hrest.relaxed
  | .print hword h hsemicolon => .print hword (h.relaxed fs) hsemicolon
  | .yield hword h hsemicolon => .yield hword (h.relaxed fs) hsemicolon
  | .whileLoop hword hopening hcondition hclosing hbody =>
    .whileLoop hword hopening (hcondition.relaxed fs) hclosing hbody.relaxed
  | .block h => .block h.relaxed

theorem Block.relaxed {p q : Place} {body : List Stmt} :
    Block rule p body q → Relaxed.Block rule (p.with fs) body (q.with fs)
  | .mk hopening h hclosing => .mk hopening h.relaxed hclosing

theorem Declaration.relaxed {p q : Place} {s : Stmt} :
    Declaration rule p s q → Relaxed.Declaration rule (p.with fs) s (q.with fs)
  | .classDecl hword hname hsuperclass hopening hmethods hclosing =>
    .classDecl hword hname hsuperclass hopening hmethods.relaxed hclosing
  | .function hword h => .function hword h.relaxed
  | .varDecl h => .varDecl (h.relaxed fs)
  | .statement h => .statement h.relaxed

theorem Declarations.relaxed {p q : Place} {body : List Stmt} :
    Declarations rule p body q → Relaxed.Declarations rule (p.with fs) body (q.with fs)
  | .done => .done
  | .step h hs => .step h.relaxed hs.relaxed

theorem Routine.relaxed {p q : Place} {f : Function} :
    Routine rule p f q → Relaxed.Routine rule (p.with fs) f (q.with fs)
  | .mk hname hopening hparameters hclosing h =>
    .mk hname hopening (hparameters.relaxed fs) hclosing h.relaxed

theorem Routines.relaxed {p q : Place} {methods : List Function} :
    Routines rule p methods q → Relaxed.Routines rule (p.with fs) methods (q.with fs)
  | .done => .done
  | .step h hs => .step h.relaxed hs.relaxed

end

end

end Lox.Grammar
