import Lox.Proofs.Grammar.Stmt

/-
  Phrases before other tokens

  The grammar says nothing about what follows a phrase. So a derivation stays
  one if more tokens are put behind it: `Place.before` puts them there, at its
  beginning and at its end alike.
-/

namespace Lox.Grammar

/-- A place with more tokens behind it. -/
def Place.before (p : Place) (more : List Token) : Place := { p with tokens := p.tokens ++ more }

variable (more : List Token)

mutual

theorem Derives.before {l : Level} {p q : Place} {e : Expr} :
    Derives l p e q → Derives l (p.before more) e (q.before more)
  | .single h => .single h.before
  | .comma hfirst hmore hne => .comma hfirst.before hmore.before hne
  | .assignVariable hname hequals h => .assignVariable hname hequals h.before
  | .assignProperty hobject hdot hname hequals hvalue =>
    .assignProperty hobject.before hdot hname hequals hvalue.before
  | .noAssignment h => .noAssignment h.before
  | .choice hcondition hquestion hthen hcolon helse =>
    .choice hcondition.before hquestion hthen.before hcolon helse.before
  | .noChoice h => .noChoice h.before
  | .chain hfirst hchain => .chain hfirst.before hchain.before
  | .unary hop h => .unary hop h.before
  | .noUnary h => .noUnary h.before
  | .call hprimary hsuffixes => .call hprimary.before hsuffixes.before
  | .number h => .number h
  | .string h => .string h
  | .trueWord h => .trueWord h
  | .falseWord h => .falseWord h
  | .nilWord h => .nilWord h
  | .thisWord h => .thisWord h
  | .identifier h => .identifier h
  | .group hopening h hclosing => .group hopening h.before hclosing
  | .superWord hword hdot hmethod => .superWord hword hdot hmethod

theorem Chain.before {l : Precedence} {left e : Expr} {p q : Place} :
    Chain l left p e q → Chain l left (p.before more) e (q.before more)
  | .done => .done
  | .step hop hright h => .step hop hright.before h.before

theorem More.before {items : List Expr} {p q : Place} :
    More p items q → More (p.before more) items (q.before more)
  | .done => .done
  | .step hseparator hitem h => .step hseparator hitem.before h.before

theorem Arguments.before {arguments : List Expr} {p q : Place} :
    Arguments p arguments q → Arguments (p.before more) arguments (q.before more)
  | .none => .none
  | .some hfirst hmore hlength => .some hfirst.before hmore.before hlength

theorem Suffixes.before {left e : Expr} {p q : Place} :
    Suffixes left p e q → Suffixes left (p.before more) e (q.before more)
  | .done => .done
  | .call hopening harguments hclosing h => .call hopening harguments.before hclosing h.before
  | .property hdot hname h => .property hdot hname h.before

end

theorem OptionalExpression.before {e : Option Expr} {p q : Place} :
    OptionalExpression p e q → OptionalExpression (p.before more) e (q.before more)
  | .absent => .absent
  | .present h => .present (h.before more)

theorem VariableDeclaration.before {s : Stmt} {p q : Place} :
    VariableDeclaration p s q → VariableDeclaration (p.before more) s (q.before more)
  | .plain hword hname hsemicolon => .plain hword hname hsemicolon
  | .initialized hword hname hequals h hsemicolon =>
    .initialized hword hname hequals (h.before more) hsemicolon

theorem ExpressionStatement.before {s : Stmt} {p q : Place} :
    ExpressionStatement p s q → ExpressionStatement (p.before more) s (q.before more)
  | .mk h hsemicolon => .mk (h.before more) hsemicolon

theorem FirstClause.before {s : Option Stmt} {p q : Place} :
    FirstClause p s q → FirstClause (p.before more) s (q.before more)
  | .absent hsemicolon => .absent hsemicolon
  | .varDecl h => .varDecl (h.before more)
  | .expression h => .expression (h.before more)

theorem MoreNames.before {names : List Token} {p q : Place} :
    MoreNames p names q → MoreNames (p.before more) names (q.before more)
  | .done => .done
  | .step hseparator hname h => .step hseparator hname h.before

theorem Parameters.before {names : List Token} {p q : Place} :
    Parameters p names q → Parameters (p.before more) names (q.before more)
  | .none => .none
  | .some hname h hlength => .some hname (h.before more) hlength

theorem Superclass.before {e : Option Expr} {p q : Place} :
    Superclass p e q → Superclass (p.before more) e (q.before more)
  | .absent => .absent
  | .present hless hname => .present hless hname

section

variable {rule : ElseRule}

mutual

theorem Statement.before {s : Stmt} {o : Bool} {p q : Place} :
    Statement rule p s q o → Statement rule (p.before more) s (q.before more) o
  | .expression h => .expression (h.before more)
  | .forLoop hword hopening hfirst hcondition hsemicolon hincrement hclosing hbody =>
    .forLoop hword hopening (hfirst.before more) (hcondition.before more) hsemicolon
      (hincrement.before more) hclosing hbody.before
  | .ifThen hword hopening hcondition hclosing hthen =>
    .ifThen hword hopening (hcondition.before more) hclosing hthen.before
  | .ifElse hword hopening hcondition hclosing hthen helse hclosed hrest =>
    .ifElse hword hopening (hcondition.before more) hclosing hthen.before helse hclosed
      hrest.before
  | .print hword h hsemicolon => .print hword (h.before more) hsemicolon
  | .yield hword h hsemicolon => .yield hword (h.before more) hsemicolon
  | .whileLoop hword hopening hcondition hclosing hbody =>
    .whileLoop hword hopening (hcondition.before more) hclosing hbody.before
  | .block h => .block h.before

theorem Block.before {body : List Stmt} {p q : Place} :
    Block rule p body q → Block rule (p.before more) body (q.before more)
  | .mk hopening h hclosing => .mk hopening h.before hclosing

theorem Declaration.before {s : Stmt} {p q : Place} :
    Declaration rule p s q → Declaration rule (p.before more) s (q.before more)
  | .classDecl hword hname hsuperclass hopening hmethods hclosing =>
    .classDecl hword hname (hsuperclass.before more) hopening hmethods.before hclosing
  | .function hword h => .function hword h.before
  | .varDecl h => .varDecl (h.before more)
  | .statement h => .statement h.before

/-- Declarations are the same ones before other tokens. -/
theorem Declarations.before {body : List Stmt} {p q : Place} :
    Declarations rule p body q → Declarations rule (p.before more) body (q.before more)
  | .done => .done
  | .step h hs => .step h.before hs.before

theorem Routine.before {f : Function} {p q : Place} :
    Routine rule p f q → Routine rule (p.before more) f (q.before more)
  | .mk hname hopening hparameters hclosing h =>
    .mk hname hopening (hparameters.before more) hclosing h.before

theorem Routines.before {methods : List Function} {p q : Place} :
    Routines rule p methods q → Routines rule (p.before more) methods (q.before more)
  | .done => .done
  | .step h hs => .step h.before hs.before

end

end

/-- Each declaration takes a token. -/
theorem Declarations.length_add_le {rule : ElseRule} {body : List Stmt} {p q : Place} :
    Declarations rule p body q → body.length + q.tokens.length ≤ p.tokens.length
  | .done => Nat.le_of_eq (Nat.zero_add _)
  | .step h hs => by
    have := h.length_lt
    have := hs.length_add_le
    rw [List.length_cons]
    omega

end Lox.Grammar
