import Lox.Proofs.Form.Printed
import Lox.Proofs.Grammar.Expr

/-
  Parsed expressions can be written down

  The tokens of a derived tree are tokens of the list it is derived from. If
  those are genuine and the number literals of the tree are finite, the tree is
  readable: its tokens are of the kinds that the grammar asks for, and literals
  have values that a source can spell.
-/

namespace Lox

open Grammar

mutual

/-- Every number literal of an expression is finite. -/
def Expr.Finite : Expr → Prop
  | .number value => Number.IsFinite value
  | .string _ | .boolean _ | .nil | .var _ _ | .self _ _ | .super _ _ _ => True
  | .group inner => inner.Finite
  | .unary _ operand => operand.Finite
  | .binary left _ right | .logical left _ right => left.Finite ∧ right.Finite
  | .choice condition thenCase elseCase =>
    condition.Finite ∧ thenCase.Finite ∧ elseCase.Finite
  | .comma items => Expr.AllFinite items
  | .assign _ _ value => value.Finite
  | .call callee _ arguments => callee.Finite ∧ Expr.AllFinite arguments
  | .get object _ => object.Finite
  | .set object _ value => object.Finite ∧ value.Finite

/-- The same for several expressions. -/
def Expr.AllFinite : List Expr → Prop
  | [] => True
  | e :: es => e.Finite ∧ Expr.AllFinite es

end

/-- All tokens of a list are genuine. -/
def AllGenuine (tokens : List Token) : Prop := ∀ t ∈ tokens, t.Genuine

theorem AllGenuine.suffix {ts us : List Token} (h : AllGenuine ts) (hs : us <:+ ts) :
    AllGenuine us := fun t ht => h t (hs.subset ht)

theorem AllGenuine.head {t : Token} {ts : List Token} (h : AllGenuine (t :: ts)) : t.Genuine :=
  h t List.mem_cons_self

theorem AllGenuine.tail {t : Token} {ts : List Token} (h : AllGenuine (t :: ts)) :
    AllGenuine ts := h.suffix (List.suffix_cons t ts)

/-! ## Genuine literals -/

/-- A genuine number literal can be written down if it is finite. -/
theorem Token.Genuine.readable_number {t : Token} {value : Float} (h : t.Genuine)
    (hk : t.kind = .number value) (hv : Number.IsFinite value) : (Expr.number value).Readable := by
  obtain ⟨whole, fraction, rfl⟩ := h.literal value hk
  exact hv.decode_ofDigits

/-- A genuine text literal has no quote in it. -/
theorem Token.Genuine.readable_string {t : Token} {text : String} (h : t.Genuine)
    (hk : t.kind = .string text) : (Expr.string text).Readable := (h.quoted text hk).2

namespace Grammar

mutual

/-- What is left behind a phrase is the end of the tokens. -/
theorem Derives.suffix {l : Level} {p q : Place} {e : Expr} :
    Derives l p e q → q.tokens <:+ p.tokens
  | .single h | .noAssignment h | .noChoice h | .noUnary h => h.suffix
  | .comma hfirst hmore _ => hmore.suffix.trans hfirst.suffix
  | .assignVariable _ _ h => h.suffix.trans ⟨[_, _], rfl⟩
  | .assignProperty hobject _ _ _ hvalue =>
    hvalue.suffix.trans (.trans ⟨[_, _, _], rfl⟩ hobject.suffix)
  | .choice hcondition _ hthen _ helse =>
    helse.suffix.trans (.trans (List.suffix_cons _ _) (hthen.suffix.trans
      (.trans (List.suffix_cons _ _) hcondition.suffix)))
  | .chain hfirst hchain => hchain.suffix.trans hfirst.suffix
  | .unary _ h => h.suffix.trans (List.suffix_cons _ _)
  | .call hprimary hsuffixes => hsuffixes.suffix.trans hprimary.suffix
  | .number _ | .string _ | .trueWord _ | .falseWord _ | .nilWord _ | .thisWord _
  | .identifier _ => List.suffix_cons _ _
  | .group _ h _ => (List.suffix_cons _ _).trans (h.suffix.trans (List.suffix_cons _ _))
  | .superWord _ _ _ => ⟨[_, _, _], rfl⟩

theorem Chain.suffix {l : Precedence} {left e : Expr} {p q : Place} :
    Chain l left p e q → q.tokens <:+ p.tokens
  | .done => List.suffix_refl _
  | .step _ hright h => h.suffix.trans (hright.suffix.trans (List.suffix_cons _ _))

theorem More.suffix {p q : Place} {items : List Expr} :
    More p items q → q.tokens <:+ p.tokens
  | .done => List.suffix_refl _
  | .step _ hitem h => h.suffix.trans (hitem.suffix.trans (List.suffix_cons _ _))

theorem Arguments.suffix {p q : Place} {arguments : List Expr} :
    Arguments p arguments q → q.tokens <:+ p.tokens
  | .none => List.suffix_refl _
  | .some hfirst hmore _ => hmore.suffix.trans hfirst.suffix

theorem Suffixes.suffix {left e : Expr} {p q : Place} :
    Suffixes left p e q → q.tokens <:+ p.tokens
  | .done => List.suffix_refl _
  | .call _ harguments _ h =>
    h.suffix.trans ((List.suffix_cons _ _).trans (harguments.suffix.trans (List.suffix_cons _ _)))
  | .property _ _ h => h.suffix.trans ⟨[_, _], rfl⟩

end

theorem Precedence.readable_combine {l : Precedence} {left right : Expr} {operator : Token}
    (hl : left.Finite → left.Readable) (ho : operator.Genuine) (hk : operator.kind ∈ l.operators)
    (hr : right.Finite → right.Readable) (h : (l.combine left operator right).Finite) :
    (l.combine left operator right).Readable := by
  have hlogical : ∀ kind ∈ disjunction.operators ++ conjunction.operators,
      kind ∈ [.andWord, .orWord] := by decide
  have hbinary : ∀ kind ∈ equality.operators ++ comparison.operators ++ term.operators ++
      factor.operators, kind ∈ Expr.binaryKinds := by decide
  cases l with
  | disjunction | conjunction => exact ⟨hl h.1, ⟨ho, hlogical _ (by simp [hk])⟩, hr h.2⟩
  | equality | comparison | term | factor =>
    exact ⟨hl h.1, ⟨ho, hbinary _ (by simp [hk])⟩, hr h.2⟩

mutual

/-- A tree that is derived from genuine tokens can be written down. -/
theorem Derives.readable {l : Level} {p q : Place} {e : Expr} :
    Derives l p e q → AllGenuine p.tokens → e.Finite → e.Readable
  | .single h, hp, he | .noAssignment h, hp, he | .noChoice h, hp, he | .noUnary h, hp, he =>
    h.readable hp he
  | .comma hfirst hmore _, hp, he =>
    ⟨hfirst.readable hp he.1, hmore.readable (hp.suffix hfirst.suffix) he.2⟩
  | .assignVariable hname _ h, hp, he =>
    ⟨⟨hp.head, by simp [hname]⟩, h.readable hp.tail.tail he⟩
  | .assignProperty hobject _ hname _ hvalue, hp, he => by
    have hrest := hp.suffix hobject.suffix
    exact ⟨hobject.readable hp he.1, ⟨hrest.tail.head, by simp [hname]⟩,
      hvalue.readable hrest.tail.tail.tail he.2⟩
  | .choice hcondition _ hthen _ helse, hp, he => by
    have hrest := (hp.suffix hcondition.suffix).tail
    exact ⟨hcondition.readable hp he.1, hthen.readable hrest he.2.1,
      helse.readable (hrest.suffix hthen.suffix).tail he.2.2⟩
  | .chain hfirst hchain, hp, he =>
    hchain.readable (hp.suffix hfirst.suffix) (hfirst.readable hp) he
  | .unary hk h, hp, he => ⟨⟨hp.head, hk⟩, h.readable hp.tail he⟩
  | .call hprimary hsuffixes, hp, he =>
    hsuffixes.readable (hp.suffix hprimary.suffix) (hprimary.readable hp) he
  | .number hk, hp, he => hp.head.readable_number hk he
  | .string hk, hp, _ => hp.head.readable_string hk
  | .trueWord _, _, _ | .falseWord _, _, _ | .nilWord _, _, _ => trivial
  | .thisWord hk, hp, _ | .identifier hk, hp, _ => ⟨hp.head, by simp [hk]⟩
  | .group _ h _, hp, he => h.readable hp.tail he
  | .superWord hk _ hm, hp, _ => ⟨⟨hp.head, by simp [hk]⟩, hp.tail.tail.head, by simp [hm]⟩

theorem Chain.readable {l : Precedence} {left e : Expr} {p q : Place} :
    Chain l left p e q → AllGenuine p.tokens → (left.Finite → left.Readable) →
      e.Finite → e.Readable
  | .done, _, hleft, he => hleft he
  | .step hop hright h, hp, hleft, he =>
    h.readable (hp.tail.suffix hright.suffix)
      (l.readable_combine hleft hp.head hop (hright.readable hp.tail)) he

theorem More.readable {p q : Place} {items : List Expr} :
    More p items q → AllGenuine p.tokens → Expr.AllFinite items → Expr.AllReadable items
  | .done, _, _ => trivial
  | .step _ hitem h, hp, he =>
    ⟨hitem.readable hp.tail he.1, h.readable (hp.tail.suffix hitem.suffix) he.2⟩

theorem Arguments.readable {p q : Place} {arguments : List Expr} :
    Arguments p arguments q → AllGenuine p.tokens → Expr.AllFinite arguments →
      Expr.AllReadable arguments
  | .none, _, _ => trivial
  | .some hfirst hmore _, hp, he =>
    ⟨hfirst.readable hp he.1, hmore.readable (hp.suffix hfirst.suffix) he.2⟩

theorem Suffixes.readable {left e : Expr} {p q : Place} :
    Suffixes left p e q → AllGenuine p.tokens → (left.Finite → left.Readable) →
      e.Finite → e.Readable
  | .done, _, hleft, he => hleft he
  | .call _ harguments hclosing h, hp, hleft, he => by
    have hrest := hp.tail.suffix harguments.suffix
    exact h.readable hrest.tail (fun hc => ⟨hleft hc.1, ⟨hrest.head, by simp [hclosing]⟩,
      harguments.readable hp.tail hc.2⟩) he
  | .property _ hname h, hp, hleft, he =>
    h.readable hp.tail.tail (fun hc => ⟨hleft hc, hp.tail.head, by simp [hname]⟩) he

end

end Grammar
end Lox
