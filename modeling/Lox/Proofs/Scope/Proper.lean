import Lox.Proofs.Form.Parsed
import Lox.Proofs.Grammar.Stmt
import Lox.Proofs.Scope.Site
import Lox.Proofs.Tree.Numbered
import Lox.Proofs.Value.Operators

/-
  Trees of sources

  What a tree has because it was parsed from a source: its names are not spelled
  like keywords, its operators are operators, a declaration is no branch of a
  conditional and no body of a loop, and a superclass is a variable.
-/

namespace Lox

open Grammar

/-- A name that can be chosen: it is spelled unlike `this` and `super`. -/
def Token.Plain (t : Token) : Prop := t.lexeme ≠ selfName ∧ t.lexeme ≠ superName

mutual

/-- The names of an expression can be chosen, its keywords are spelled as such,
and its operators are operators. -/
def Expr.Proper : Expr → Prop
  | .number _ | .string _ | .boolean _ | .nil => True
  | .group inner => inner.Proper
  | .unary operator operand => operator.kind ∈ Kind.unaryOperators ∧ operand.Proper
  | .binary left operator right =>
    operator.kind ∈ Kind.binaryOperators ∧ left.Proper ∧ right.Proper
  | .logical left _ right => left.Proper ∧ right.Proper
  | .choice condition thenCase elseCase =>
    condition.Proper ∧ thenCase.Proper ∧ elseCase.Proper
  | .comma items => Expr.AllProper items
  | .var _ name => name.Plain
  | .assign _ name value => name.Plain ∧ value.Proper
  | .call callee _ arguments => callee.Proper ∧ Expr.AllProper arguments
  | .get object _ => object.Proper
  | .set object _ value => object.Proper ∧ value.Proper
  | .self _ keyword => keyword.lexeme = selfName
  | .super _ keyword _ => keyword.lexeme = superName

/-- The same for several expressions. -/
def Expr.AllProper : List Expr → Prop
  | [] => True
  | e :: es => e.Proper ∧ Expr.AllProper es

end

mutual

/-- A statement that a source can have. -/
def Stmt.Proper : Stmt → Prop
  | .expression e | .print e => e.Proper
  | .varDecl name initial => name.Plain ∧ ∀ e ∈ initial, e.Proper
  | .block body => Stmt.AllProper body
  | .branch condition thenCase none =>
    condition.Proper ∧ thenCase.Proper ∧ thenCase.declared = []
  | .branch condition thenCase (some elseCase) =>
    condition.Proper ∧ (thenCase.Proper ∧ thenCase.declared = []) ∧
      elseCase.Proper ∧ elseCase.declared = []
  | .loop condition body => condition.Proper ∧ body.Proper ∧ body.declared = []
  | .function declaration => declaration.Proper
  | .yield _ value => ∀ e ∈ value, e.Proper
  | .classDecl name superclass methods =>
    name.Plain ∧ (∀ e ∈ superclass, ∃ id word, e = .var id word ∧ word.Plain) ∧
      Function.AllProper methods

def Stmt.AllProper : List Stmt → Prop
  | [] => True
  | s :: rest => s.Proper ∧ Stmt.AllProper rest

def Function.Proper : Function → Prop
  | .mk name parameters body =>
    name.Plain ∧ (∀ parameter ∈ parameters, parameter.Plain) ∧ Stmt.AllProper body

def Function.AllProper : List Function → Prop
  | [] => True
  | f :: fs => f.Proper ∧ Function.AllProper fs

end

/-! ## Names of genuine tokens -/

/-- A word that is scanned as something else is not the text of a name. -/
theorem Token.Genuine.lexeme_ne {t u : Token} {word : String} (h : t.Genuine)
    (hk : t.kind = .identifier) (hword : plainScan (word.toList ++ []) = .token u :: plainScan [])
    (hu : u.kind ≠ .identifier) : t.lexeme ≠ word := by
  intro hl
  have hscan := h.scans [] (by simp [Stops])
  rw [hl, hword] at hscan
  have hsame : u = t.unlined := ScanItem.token.inj (List.cons.inj hscan).1
  exact hu (by rw [hsame, unlined_kind, hk])

theorem Token.Genuine.plain {t : Token} (h : t.Genuine) (hk : t.kind = .identifier) :
    t.Plain :=
  ⟨h.lexeme_ne (u := ⟨.thisWord, "this", 0⟩) hk (by cbv) (by decide),
    h.lexeme_ne (u := ⟨.superWord, "super", 0⟩) hk (by cbv) (by decide)⟩

namespace Grammar

/-! ## Derived trees are proper -/

theorem Precedence.proper_combine {l : Precedence} {left right : Expr} {operator : Token}
    (ho : operator.kind ∈ l.operators) (hl : left.Proper) (hr : right.Proper) :
    (l.combine left operator right).Proper := by
  cases l with
  | disjunction | conjunction => exact ⟨hl, hr⟩
  | equality | comparison | term | factor =>
    refine ⟨?_, hl, hr⟩
    simp only [operators, List.mem_cons, List.not_mem_nil, or_false] at ho
    simp only [Kind.binaryOperators, List.mem_cons]
    tauto

mutual

theorem Derives.proper {l : Level} {p q : Place} {e : Expr} :
    Derives l p e q → AllGenuine p.tokens → e.Proper
  | .single h, hp | .noAssignment h, hp | .noChoice h, hp | .noUnary h, hp => h.proper hp
  | .comma hfirst hmore _, hp => ⟨hfirst.proper hp, hmore.proper (hp.suffix hfirst.suffix)⟩
  | .assignVariable hname _ h, hp => ⟨hp.head.plain hname, h.proper hp.tail.tail⟩
  | .assignProperty hobject _ _ _ hvalue, hp =>
    ⟨hobject.proper hp, hvalue.proper (hp.suffix hobject.suffix).tail.tail.tail⟩
  | .choice hcondition _ hthen _ helse, hp => by
    have hrest := (hp.suffix hcondition.suffix).tail
    exact ⟨hcondition.proper hp, hthen.proper hrest,
      helse.proper (hrest.suffix hthen.suffix).tail⟩
  | .chain hfirst hchain, hp => hchain.proper (hp.suffix hfirst.suffix) (hfirst.proper hp)
  | .unary ho h, hp => ⟨ho, h.proper hp.tail⟩
  | .call hprimary hsuffixes, hp =>
    hsuffixes.proper (hp.suffix hprimary.suffix) (hprimary.proper hp)
  | .number _, _ | .string _, _ | .trueWord _, _ | .falseWord _, _ | .nilWord _, _ => trivial
  | .thisWord hk, hp => hp.head.spelled _ (by rw [hk]; rfl)
  | .identifier hk, hp => hp.head.plain hk
  | .group _ h _, hp => h.proper hp.tail
  | .superWord hk _ _, hp => hp.head.spelled _ (by rw [hk]; rfl)

theorem Chain.proper {l : Precedence} {left e : Expr} {p q : Place} :
    Chain l left p e q → AllGenuine p.tokens → left.Proper → e.Proper
  | .done, _, hleft => hleft
  | .step ho hright h, hp, hleft =>
    h.proper (hp.tail.suffix hright.suffix) (l.proper_combine ho hleft (hright.proper hp.tail))

theorem More.proper {p q : Place} {items : List Expr} :
    More p items q → AllGenuine p.tokens → Expr.AllProper items
  | .done, _ => trivial
  | .step _ hitem h, hp => ⟨hitem.proper hp.tail, h.proper (hp.tail.suffix hitem.suffix)⟩

theorem Arguments.proper {p q : Place} {arguments : List Expr} :
    Arguments p arguments q → AllGenuine p.tokens → Expr.AllProper arguments
  | .none, _ => trivial
  | .some hfirst hmore _, hp => ⟨hfirst.proper hp, hmore.proper (hp.suffix hfirst.suffix)⟩

theorem Suffixes.proper {left e : Expr} {p q : Place} :
    Suffixes left p e q → AllGenuine p.tokens → left.Proper → e.Proper
  | .done, _, hleft => hleft
  | .call _ harguments _ h, hp, hleft =>
    h.proper (hp.tail.suffix harguments.suffix).tail ⟨hleft, harguments.proper hp.tail⟩
  | .property _ _ h, hp, hleft => h.proper hp.tail.tail hleft

end

/-! ## Statements end at the end of the tokens -/

theorem OptionalExpression.suffix {p q : Place} {e : Option Expr} :
    OptionalExpression p e q → q.tokens <:+ p.tokens
  | .absent => List.suffix_refl _
  | .present h => h.suffix

theorem VariableDeclaration.suffix {p q : Place} {s : Stmt} :
    VariableDeclaration p s q → q.tokens <:+ p.tokens
  | .plain _ _ _ => ⟨[_, _, _], rfl⟩
  | .initialized _ _ _ h _ =>
    (List.suffix_cons _ _).trans (h.suffix.trans ⟨[_, _, _], rfl⟩)

theorem ExpressionStatement.suffix {p q : Place} {s : Stmt} :
    ExpressionStatement p s q → q.tokens <:+ p.tokens
  | .mk h _ => (List.suffix_cons _ _).trans h.suffix

theorem FirstClause.suffix {p q : Place} {s : Option Stmt} :
    FirstClause p s q → q.tokens <:+ p.tokens
  | .absent _ => List.suffix_cons _ _
  | .varDecl h => h.suffix
  | .expression h => h.suffix

theorem MoreNames.suffix {p q : Place} {names : List Token} :
    MoreNames p names q → q.tokens <:+ p.tokens
  | .done => List.suffix_refl _
  | .step _ _ h => h.suffix.trans ⟨[_, _], rfl⟩

theorem Parameters.suffix {p q : Place} {names : List Token} :
    Parameters p names q → q.tokens <:+ p.tokens
  | .none => List.suffix_refl _
  | .some _ h _ => h.suffix.trans (List.suffix_cons _ _)

theorem Superclass.suffix {p q : Place} {e : Option Expr} :
    Superclass p e q → q.tokens <:+ p.tokens
  | .absent => List.suffix_refl _
  | .present _ _ => ⟨[_, _], rfl⟩

variable {rule : ElseRule}

mutual

theorem Statement.suffix {p q : Place} {s : Stmt} {o : Bool} :
    Statement rule p s q o → q.tokens <:+ p.tokens
  | .expression h => h.suffix
  | .forLoop _ _ hfirst hcondition _ hincrement _ hbody =>
    hbody.suffix.trans ((List.suffix_cons _ _).trans (hincrement.suffix.trans
      ((List.suffix_cons _ _).trans (hcondition.suffix.trans
        (hfirst.suffix.trans ⟨[_, _], rfl⟩)))))
  | .ifThen _ _ hcondition _ hthen =>
    hthen.suffix.trans ((List.suffix_cons _ _).trans (hcondition.suffix.trans ⟨[_, _], rfl⟩))
  | .ifElse _ _ hcondition _ hthen _ _ helse =>
    helse.suffix.trans ((List.suffix_cons _ _).trans (hthen.suffix.trans
      ((List.suffix_cons _ _).trans (hcondition.suffix.trans ⟨[_, _], rfl⟩))))
  | .print _ h _ => (List.suffix_cons _ _).trans (h.suffix.trans (List.suffix_cons _ _))
  | .yield _ h _ => (List.suffix_cons _ _).trans (h.suffix.trans (List.suffix_cons _ _))
  | .whileLoop _ _ hcondition _ hbody =>
    hbody.suffix.trans ((List.suffix_cons _ _).trans (hcondition.suffix.trans ⟨[_, _], rfl⟩))
  | .block h => h.suffix

theorem Block.suffix {p q : Place} {body : List Stmt} :
    Block rule p body q → q.tokens <:+ p.tokens
  | .mk _ h _ => (List.suffix_cons _ _).trans (h.suffix.trans (List.suffix_cons _ _))

theorem Declaration.suffix {p q : Place} {s : Stmt} :
    Declaration rule p s q → q.tokens <:+ p.tokens
  | .classDecl _ _ hsuperclass _ hmethods _ =>
    (List.suffix_cons _ _).trans (hmethods.suffix.trans ((List.suffix_cons _ _).trans
      (hsuperclass.suffix.trans ⟨[_, _], rfl⟩)))
  | .function _ h => h.suffix.trans (List.suffix_cons _ _)
  | .varDecl h => h.suffix
  | .statement h => h.suffix

theorem Declarations.suffix {p q : Place} {body : List Stmt} :
    Declarations rule p body q → q.tokens <:+ p.tokens
  | .done => List.suffix_refl _
  | .step h hs => hs.suffix.trans h.suffix

theorem Routine.suffix {p q : Place} {f : Function} :
    Routine rule p f q → q.tokens <:+ p.tokens
  | .mk _ _ hparameters _ h =>
    h.suffix.trans ((List.suffix_cons _ _).trans (hparameters.suffix.trans ⟨[_, _], rfl⟩))

theorem Routines.suffix {p q : Place} {methods : List Function} :
    Routines rule p methods q → q.tokens <:+ p.tokens
  | .done => List.suffix_refl _
  | .step h hs => hs.suffix.trans h.suffix

end

/-! ## Derived statements are proper -/

theorem OptionalExpression.proper {p q : Place} {e : Option Expr} :
    OptionalExpression p e q → AllGenuine p.tokens → ∀ x ∈ e, x.Proper
  | .absent, _ => by simp
  | .present h, hp => by simpa using h.proper hp

theorem VariableDeclaration.proper {p q : Place} {s : Stmt} :
    VariableDeclaration p s q → AllGenuine p.tokens → s.Proper
  | .plain _ hn _, hp => ⟨hp.tail.head.plain hn, by simp⟩
  | .initialized _ hn _ h _, hp =>
    ⟨hp.tail.head.plain hn, by simpa using h.proper hp.tail.tail.tail⟩

theorem ExpressionStatement.proper {p q : Place} {s : Stmt} :
    ExpressionStatement p s q → AllGenuine p.tokens → s.Proper ∧ s.declared = []
  | .mk h _, hp => ⟨h.proper hp, rfl⟩

theorem FirstClause.proper {p q : Place} {s : Option Stmt} :
    FirstClause p s q → AllGenuine p.tokens → ∀ x ∈ s, x.Proper
  | .absent _, _ => by simp
  | .varDecl h, hp => by simpa using h.proper hp
  | .expression h, hp => by simpa using (h.proper hp).1

theorem MoreNames.plain {p q : Place} {names : List Token} :
    MoreNames p names q → AllGenuine p.tokens → ∀ name ∈ names, name.Plain
  | .done, _ => by simp
  | .step _ hn h, hp => by
    intro name hname
    obtain rfl | hname := List.mem_cons.1 hname
    · exact hp.tail.head.plain hn
    · exact h.plain hp.tail.tail name hname

theorem Parameters.plain {p q : Place} {names : List Token} :
    Parameters p names q → AllGenuine p.tokens → ∀ name ∈ names, name.Plain
  | .none, _ => by simp
  | .some hn h _, hp => by
    intro name hname
    obtain rfl | hname := List.mem_cons.1 hname
    · exact hp.head.plain hn
    · exact h.plain hp.tail name hname

theorem Superclass.proper {p q : Place} {e : Option Expr} :
    Superclass p e q → AllGenuine p.tokens →
      ∀ x ∈ e, ∃ id word, x = .var id word ∧ word.Plain
  | .absent, _ => by simp
  | .present _ hn, hp => by simpa using hp.tail.head.plain hn

theorem proper_repeated {body : Stmt} {increment : Option Expr}
    (hbody : body.Proper ∧ body.declared = []) (hincrement : ∀ e ∈ increment, e.Proper) :
    (repeated body increment).Proper ∧ (repeated body increment).declared = [] := by
  cases increment with
  | none => exact hbody
  | some e => exact ⟨⟨hbody.1, hincrement e rfl, trivial⟩, rfl⟩

theorem proper_whileLoop {condition increment : Option Expr} {body : Stmt}
    (hcondition : ∀ e ∈ condition, e.Proper) (hincrement : ∀ e ∈ increment, e.Proper)
    (hbody : body.Proper ∧ body.declared = []) :
    (whileLoop condition increment body).Proper ∧
      (whileLoop condition increment body).declared = [] := by
  have hrepeated := proper_repeated hbody hincrement
  cases condition with
  | none => exact ⟨⟨trivial, hrepeated⟩, hrepeated.2⟩
  | some e => exact ⟨⟨hcondition e rfl, hrepeated⟩, hrepeated.2⟩

theorem proper_forLoop {initial : Option Stmt} {condition increment : Option Expr} {body : Stmt}
    (hinitial : ∀ s ∈ initial, s.Proper) (hcondition : ∀ e ∈ condition, e.Proper)
    (hincrement : ∀ e ∈ increment, e.Proper) (hbody : body.Proper ∧ body.declared = []) :
    (forLoop initial condition increment body).Proper ∧
      (forLoop initial condition increment body).declared = [] := by
  have hloop := proper_whileLoop hcondition hincrement hbody
  cases initial with
  | none => exact hloop
  | some s => exact ⟨⟨hinitial s rfl, hloop.1, trivial⟩, rfl⟩

mutual

/-- A statement that is no declaration declares nothing. -/
theorem Statement.proper {p q : Place} {s : Stmt} {o : Bool} :
    Statement rule p s q o → AllGenuine p.tokens → s.Proper ∧ s.declared = []
  | .expression h, hp => h.proper hp
  | .forLoop _ _ hfirst hcondition _ hincrement _ hbody, hp => by
    have hclauses := hp.tail.tail
    have hrest := hclauses.suffix hfirst.suffix
    have hlast := (hrest.suffix hcondition.suffix).tail
    exact proper_forLoop (hfirst.proper hclauses) (hcondition.proper hrest)
      (hincrement.proper hlast) (hbody.proper (hlast.suffix hincrement.suffix).tail)
  | .ifThen _ _ hcondition _ hthen, hp => by
    have hrest := (hp.tail.tail.suffix hcondition.suffix).tail
    have hbranch := hthen.proper hrest
    exact ⟨⟨hcondition.proper hp.tail.tail, hbranch⟩, hbranch.2⟩
  | .ifElse _ _ hcondition _ hthen _ _ helse, hp => by
    have hrest := (hp.tail.tail.suffix hcondition.suffix).tail
    have hbranch := hthen.proper hrest
    have hother := helse.proper (hrest.suffix hthen.suffix).tail
    refine ⟨⟨hcondition.proper hp.tail.tail, hbranch, hother⟩, ?_⟩
    rw [Stmt.declared, hbranch.2, hother.2, List.append_nil]
  | .print _ h _, hp => ⟨h.proper hp.tail, rfl⟩
  | .yield _ h _, hp => ⟨h.proper hp.tail, rfl⟩
  | .whileLoop _ _ hcondition _ hbody, hp => by
    have hrest := (hp.tail.tail.suffix hcondition.suffix).tail
    have hloop := hbody.proper hrest
    exact ⟨⟨hcondition.proper hp.tail.tail, hloop⟩, hloop.2⟩
  | .block h, hp => ⟨h.proper hp, rfl⟩

theorem Block.proper {p q : Place} {body : List Stmt} :
    Block rule p body q → AllGenuine p.tokens → Stmt.AllProper body
  | .mk _ h _, hp => h.proper hp.tail

theorem Declaration.proper {p q : Place} {s : Stmt} :
    Declaration rule p s q → AllGenuine p.tokens → s.Proper
  | .classDecl _ hn hsuperclass _ hmethods _, hp =>
    ⟨hp.tail.head.plain hn, hsuperclass.proper hp.tail.tail,
      hmethods.proper (hp.tail.tail.suffix hsuperclass.suffix).tail⟩
  | .function _ h, hp => h.proper hp.tail
  | .varDecl h, hp => h.proper hp
  | .statement h, hp => (h.proper hp).1

theorem Declarations.proper {p q : Place} {body : List Stmt} :
    Declarations rule p body q → AllGenuine p.tokens → Stmt.AllProper body
  | .done, _ => trivial
  | .step h hs, hp => ⟨h.proper hp, hs.proper (hp.suffix h.suffix)⟩

theorem Routine.proper {p q : Place} {f : Function} :
    Routine rule p f q → AllGenuine p.tokens → f.Proper
  | .mk hn _ hparameters _ h, hp => by
    have hrest := (hp.tail.tail.suffix hparameters.suffix).tail
    exact ⟨hp.head.plain hn, hparameters.plain hp.tail.tail, h.proper hrest⟩

theorem Routines.proper {p q : Place} {methods : List Function} :
    Routines rule p methods q → AllGenuine p.tokens → Function.AllProper methods
  | .done, _ => trivial
  | .step h hs, hp => ⟨h.proper hp, hs.proper (hp.suffix h.suffix)⟩

end

end Grammar
end Lox
