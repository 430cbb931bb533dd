import Lox.Proofs.Grammar.Expr
import Lox.Diagnostic

/-
  The relaxed grammar of expressions — texts with faults that do no harm

      assignment → choice ( "=" assignment )?
      arguments  → assignment ( "," assignment )*

  and everything else as in the grammar: anything may stand to the left of an
  equals sign, and lists may be of any length. Where the grammar would not allow
  it the text has a fault. Faults change nothing about how the rest is derived,
  so a derivation only keeps account of them: it leads from one spot of the text
  to another, and a spot knows the faults found on the way to it. An entry that
  is one too many is at fault as soon as it begins, and an assignment whose left
  side is no target once it is over, behind the faults of its right side.
-/

namespace Lox.Grammar

/-- A place in a text that may have faults, with those found so far. -/
structure Spot extends Place where
  faults : List SyntaxError

/-- A place at which the given faults are found so far. -/
def Place.with (p : Place) (faults : List SyntaxError) : Spot := ⟨p, faults⟩

/-- The same spot once another fault is found. -/
def Spot.note (p : Spot) (fault : SyntaxError) : Spot := { p with faults := p.faults ++ [fault] }

/-- The fault of an entry that `count` entries of its list are in front of: there is one
if the list is already as long as it may be. -/
def tooMany (count : Nat) (fault : SyntaxError) : List SyntaxError :=
  if longestList ≤ count then [fault] else []

theorem append_tooMany {count : Nat} (faults : List SyntaxError) (fault : SyntaxError)
    (h : count < longestList) : faults ++ tooMany count fault = faults := by
  rw [tooMany, if_neg (Nat.not_le_of_lt h), List.append_nil]

/-- The trees that a value can be assigned to. -/
def isTarget : Expr → Bool
  | .var .. | .get .. => true
  | _ => false

/-- The trees of expressions in parentheses. -/
def isGroup : Expr → Bool
  | .group _ => true
  | _ => false

namespace Relaxed

mutual

/-- `Derives l p e q`: the tokens between `p` and `q` are a phrase of level `l` whose
tree is `e`, and `q` knows its faults besides those of `p`. -/
inductive Derives : Level → Spot → Expr → Spot → Prop
  | single {p q : Spot} {e : Expr} :
      Derives .assignment p e q → Derives .expression p e q
  | comma {p q r : Spot} {first : Expr} {items : List Expr} :
      Derives .assignment p first q → More q items r → items ≠ [] →
      Derives .expression p (.comma (first :: items)) r
  | assignVariable {equals name : Token} {ts : List Token} {n id : Nat} {fs : List SyntaxError}
      {value : Expr} {p q : Spot} :
      Derives .choice p (.var id name) ⟨⟨equals :: ts, n⟩, fs⟩ → equals.kind = .equal →
      Derives .assignment ⟨⟨ts, n⟩, fs⟩ value q →
      Derives .assignment p (.assign id name value) q
  | assignProperty {equals name : Token} {ts : List Token} {n : Nat} {fs : List SyntaxError}
      {object value : Expr} {p q : Spot} :
      Derives .choice p (.get object name) ⟨⟨equals :: ts, n⟩, fs⟩ → equals.kind = .equal →
      Derives .assignment ⟨⟨ts, n⟩, fs⟩ value q →
      Derives .assignment p (.set object name value) q
  /-- The equals sign is at fault, and the left side stands for the whole. -/
  | assignOther {equals : Token} {ts : List Token} {n : Nat} {fs : List SyntaxError}
      {other value : Expr} {p q : Spot} :
      Derives .choice p other ⟨⟨equals :: ts, n⟩, fs⟩ → equals.kind = .equal →
      isTarget other = false → Derives .assignment ⟨⟨ts, n⟩, fs⟩ value q →
      Derives .assignment p other (q.note ⟨equals, .assignmentTarget⟩)
  | noAssignment {p q : Spot} {e : Expr} :
      Derives .choice p e q → Derives .assignment p e q
  | choice {question colon : Token} {ts us : List Token} {n k : Nat} {fs gs : List SyntaxError}
      {condition thenCase elseCase : Expr} {p q : Spot} :
      Derives (.chain .disjunction) p condition ⟨⟨question :: ts, n⟩, fs⟩ →
      question.kind = .question →
      Derives .expression ⟨⟨ts, n⟩, fs⟩ thenCase ⟨⟨colon :: us, k⟩, gs⟩ →
      colon.kind = .colon →
      Derives .choice ⟨⟨us, k⟩, gs⟩ elseCase q →
      Derives .choice p (.choice condition thenCase elseCase) q
  | noChoice {p q : Spot} {e : Expr} :
      Derives (.chain .disjunction) p e q → Derives .choice p e q
  | chain {l : Precedence} {p q r : Spot} {first e : Expr} :
      Derives l.operand p first q → Chain l first q e r → Derives (.chain l) p e r
  | unary {operator : Token} {ts : List Token} {n : Nat} {fs : List SyntaxError} {operand : Expr}
      {q : Spot} :
      operator.kind ∈ [.bang, .minus] → Derives .unary ⟨⟨ts, n⟩, fs⟩ operand q →
      Derives .unary ⟨⟨operator :: ts, n⟩, fs⟩ (.unary operator operand) q
  | noUnary {p q : Spot} {e : Expr} :
      Derives .call p e q → Derives .unary p e q
  | call {p q r : Spot} {callee e : Expr} :
      Derives .primary p callee q → Suffixes callee q e r → Derives .call p e r
  /-- A primary expression without parts is that of the grammar. -/
  | atom {p q : Place} {e : Expr} {fs : List SyntaxError} :
      Grammar.Derives .primary p e q → isGroup e = false →
      Derives .primary (p.with fs) e (q.with fs)
  | group {opening closing : Token} {ts us : List Token} {n k : Nat} {fs gs : List SyntaxError}
      {inner : Expr} :
      opening.kind = .leftParen →
      Derives .expression ⟨⟨ts, n⟩, fs⟩ inner ⟨⟨closing :: us, k⟩, gs⟩ →
      closing.kind = .rightParen →
      Derives .primary ⟨⟨opening :: ts, n⟩, fs⟩ (.group inner) ⟨⟨us, k⟩, gs⟩

/-- Operators with their right operands, taken together with what stands to the
left of them. -/
inductive Chain : Precedence → Expr → Spot → Expr → Spot → Prop
  | done {l : Precedence} {left : Expr} {p : Spot} : Chain l left p left p
  | step {l : Precedence} {left right e : Expr} {operator : Token} {ts : List Token} {n : Nat}
      {fs : List SyntaxError} {q r : Spot} :
      operator.kind ∈ l.operators → Derives l.operand ⟨⟨ts, n⟩, fs⟩ right q →
      Chain l (l.combine left operator right) q e r →
      Chain l left ⟨⟨operator :: ts, n⟩, fs⟩ e r

/-- Further items, each behind a comma. -/
inductive More : Spot → List Expr → Spot → Prop
  | done {p : Spot} : More p [] p
  | step {separator : Token} {ts : List Token} {n : Nat} {fs : List SyntaxError} {item : Expr}
      {items : List Expr} {q r : Spot} :
      separator.kind = .comma → Derives .assignment ⟨⟨ts, n⟩, fs⟩ item q → More q items r →
      More ⟨⟨separator :: ts, n⟩, fs⟩ (item :: items) r

/-- The arguments of a call, `count` of which are already read. There need not be any, but
behind a comma there has to be one. -/
inductive Arguments : Nat → Spot → List Expr → Spot → Prop
  | none {p : Spot} : Arguments 0 p [] p
  | last {count : Nat} {t : Token} {ts : List Token} {n : Nat} {fs : List SyntaxError}
      {argument : Expr} {q : Spot} :
      Derives .assignment ⟨⟨t :: ts, n⟩, fs ++ tooMany count ⟨t, .tooManyArguments⟩⟩ argument q →
      Arguments count ⟨⟨t :: ts, n⟩, fs⟩ [argument] q
  | step {count : Nat} {t separator : Token} {ts us : List Token} {n k : Nat}
      {fs gs : List SyntaxError} {argument : Expr} {arguments : List Expr} {q : Spot} :
      Derives .assignment ⟨⟨t :: ts, n⟩, fs ++ tooMany count ⟨t, .tooManyArguments⟩⟩ argument
        ⟨⟨separator :: us, k⟩, gs⟩ →
      separator.kind = .comma → Arguments (count + 1) ⟨⟨us, k⟩, gs⟩ arguments q →
      Arguments count ⟨⟨t :: ts, n⟩, fs⟩ (argument :: arguments) q

/-- Calls and property accesses, taken together with what stands to the left of
them. -/
inductive Suffixes : Expr → Spot → Expr → Spot → Prop
  | done {e : Expr} {p : Spot} : Suffixes e p e p
  | call {callee e : Expr} {opening closing : Token} {ts us : List Token} {n k : Nat}
      {fs gs : List SyntaxError} {arguments : List Expr} {r : Spot} :
      opening.kind = .leftParen →
      Arguments 0 ⟨⟨ts, n⟩, fs⟩ arguments ⟨⟨closing :: us, k⟩, gs⟩ →
      closing.kind = .rightParen →
      Suffixes (.call callee closing arguments) ⟨⟨us, k⟩, gs⟩ e r →
      Suffixes callee ⟨⟨opening :: ts, n⟩, fs⟩ e r
  | property {object e : Expr} {dot name : Token} {ts : List Token} {n : Nat}
      {fs : List SyntaxError} {r : Spot} :
      dot.kind = .dot → name.kind = .identifier →
      Suffixes (.get object name) ⟨⟨ts, n⟩, fs⟩ e r →
      Suffixes object ⟨⟨dot :: name :: ts, n⟩, fs⟩ e r

end

/-! ## Phrases take tokens -/

mutual

/-- A phrase has at least one token. -/
theorem Derives.length_lt {l : Level} {p q : Spot} {e : Expr} :
    Derives l p e q → q.tokens.length < p.tokens.length
  | .single h => h.length_lt
  | .comma hfirst hmore _ => Nat.lt_of_le_of_lt hmore.length_le hfirst.length_lt
  | .assignVariable htarget _ hvalue | .assignProperty htarget _ hvalue
  | .assignOther htarget _ _ hvalue => by
    have h₁ := htarget.length_lt
    have h₂ := hvalue.length_lt
    simp only [List.length_cons, Spot.note] at h₁ h₂ ⊢
    omega
  | .noAssignment h => h.length_lt
  | .choice hcondition _ hthen _ helse => by
    have h₁ := hcondition.length_lt
    have h₂ := hthen.length_lt
    have h₃ := helse.length_lt
    simp only [List.length_cons] at h₁ h₂ h₃
    omega
  | .noChoice h => h.length_lt
  | .chain hfirst hchain => Nat.lt_of_le_of_lt hchain.length_le hfirst.length_lt
  | .unary _ h => Nat.lt_succ_of_lt h.length_lt
  | .noUnary h => h.length_lt
  | .call hprimary hsuffixes => Nat.lt_of_le_of_lt hsuffixes.length_le hprimary.length_lt
  | .atom h _ => Grammar.Derives.length_lt h
  | .group _ h _ => Nat.lt_trans (Nat.lt_succ_self _) (Nat.lt_succ_of_lt h.length_lt)

theorem Chain.length_le {l : Precedence} {p q : Spot} {left e : Expr} :
    Chain l left p e q → q.tokens.length ≤ p.tokens.length
  | .done => Nat.le_refl _
  | .step _ hright h =>
    Nat.le_trans h.length_le (Nat.le_of_lt (Nat.lt_succ_of_lt hright.length_lt))

theorem More.length_le {p q : Spot} {items : List Expr} :
    More p items q → q.tokens.length ≤ p.tokens.length
  | .done => Nat.le_refl _
  | .step _ hitem h =>
    Nat.le_trans h.length_le (Nat.le_of_lt (Nat.lt_succ_of_lt hitem.length_lt))

theorem Arguments.length_le {count : Nat} {p q : Spot} {arguments : List Expr} :
    Arguments count p arguments q → q.tokens.length ≤ p.tokens.length
  | .none => Nat.le_refl _
  | .last h => Nat.le_of_lt h.length_lt
  | .step hargument _ h =>
    Nat.le_trans h.length_le (Nat.le_of_lt (Nat.lt_of_succ_lt hargument.length_lt))

theorem Suffixes.length_le {p q : Spot} {left e : Expr} :
    Suffixes left p e q → q.tokens.length ≤ p.tokens.length
  | .done => Nat.le_refl _
  | .call _ harguments _ h => by
    have h₁ := harguments.length_le
    have h₂ := h.length_le
    simp only [List.length_cons] at h₁ h₂ ⊢
    omega
  | .property _ _ h => Nat.le_trans h.length_le (by simp; omega)

end

/-! ## Levels and lists -/

/-- A call level tree is a tree of every level above it. -/
theorem Derives.choice_of_call {p q : Spot} {e : Expr} (h : Derives .call p e q) :
    Derives .choice p e q :=
  have factor := Derives.chain (l := .factor) (.noUnary h) .done
  have term := Derives.chain (l := .term) factor .done
  have comparison := Derives.chain (l := .comparison) term .done
  have equality := Derives.chain (l := .equality) comparison .done
  have conjunction := Derives.chain (l := .conjunction) equality .done
  .noChoice (.chain (l := .disjunction) conjunction .done)

theorem Suffixes.get {e object : Expr} {dot name : Token} {ts : List Token} {n : Nat}
    {fs : List SyntaxError} {p q : Spot} (hdot : dot.kind = .dot)
    (hname : name.kind = .identifier) :
    Suffixes e p object q → q = ⟨⟨dot :: name :: ts, n⟩, fs⟩ →
      Suffixes e p (.get object name) ⟨⟨ts, n⟩, fs⟩
  | .done => by
    rintro rfl
    exact .property hdot hname .done
  | .call hop hargs hc h => fun hq => .call hop hargs hc (h.get hdot hname hq)
  | .property hdot' hname' h => fun hq => .property hdot' hname' (h.get hdot hname hq)

theorem Derives.get {p : Spot} {object : Expr} {dot name : Token} {ts : List Token} {n : Nat}
    {fs : List SyntaxError} (h : Derives .call p object ⟨⟨dot :: name :: ts, n⟩, fs⟩)
    (hdot : dot.kind = .dot) (hname : name.kind = .identifier) :
    Derives .call p (.get object name) ⟨⟨ts, n⟩, fs⟩ := by
  cases h with
  | call hprimary hsuffixes => exact .call hprimary (hsuffixes.get hdot hname rfl)

/-! ## How phrases begin and go on -/

/-- A phrase begins with a token of its first kinds. -/
theorem Derives.begins {l : Level} {p q : Spot} {e : Expr} :
    Derives l p e q → ∃ t ts, p.tokens = t :: ts ∧ l.begins t.kind = true
  | .single h | .comma h _ _ | .noAssignment h | .choice h _ _ _ _ | .noChoice h | .chain h _
  | .assignVariable h _ _ | .assignProperty h _ _ | .assignOther h _ _ _ | .noUnary h
  | .call h _ => by
    obtain ⟨t, ts, hp, ht⟩ := h.begins
    exact ⟨t, ts, hp, Level.begins_mono ht (by first | exact fun _ => rfl | exact nofun)⟩
  | .atom h _ => Grammar.Derives.begins h
  | .group hk _ _ => ⟨_, _, rfl, Level.begins_of_primary (by rw [hk]; rfl)⟩
  | .unary hk _ => by
    refine ⟨_, _, rfl, ?_⟩
    simp only [List.mem_cons, List.not_mem_nil, or_false] at hk
    obtain hk | hk := hk <;> rw [hk] <;> rfl

/-- Arguments begin as the first of them. -/
theorem Arguments.begins {count : Nat} {p q : Spot} {arguments : List Expr} :
    Arguments count p arguments q → arguments ≠ [] →
      ∃ t ts, p.tokens = t :: ts ∧ Level.assignment.begins t.kind = true
  | .none => fun h => absurd rfl h
  | .last h | .step h _ _ => fun _ => h.begins

/-- What cannot begin an expression does not come next before one. -/
theorem Derives.ends {l : Level} {p q : Spot} {e : Expr} (h : Derives l p e q)
    {f : Kind → Bool} (hf : ∀ kind, l.begins kind = true → f kind = false) : p.Ends f :=
  Place.ends_of_begins h.begins hf

/-- An operator ends its left operand, and the operand of a chain that is not
continued ends where the chain does. -/
theorem Chain.ends {l : Precedence} {left e : Expr} {p q : Spot} (h : Chain l left p e q)
    (hq : q.Ends (Level.chain l).continues) : p.Ends l.operand.continues := by
  cases h with
  | done => exact hq.mono (by rw [l.rank_operand]; omega)
  | step hop =>
    refine Place.ends_of_binding ?_
    rw [(l.mem_operators_iff _).1 hop, l.rank_operand]
    omega

/-- Items behind an argument are arguments without faults as long as there are not too many. -/
theorem More.arguments {p q r : Spot} {first : Expr} {items : List Expr} {count : Nat}
    (hcount : count + (first :: items).length ≤ longestList)
    (hfirst : Derives .assignment p first q) :
    More q items r → Arguments count p (first :: items) r := by
  obtain ⟨t, ts, hp, _⟩ := hfirst.begins
  obtain ⟨⟨tokens, n⟩, fs⟩ := p
  cases hp
  rw [List.length_cons] at hcount
  have hlt : count < longestList := by omega
  rw [← append_tooMany fs ⟨t, .tooManyArguments⟩ hlt] at hfirst
  exact fun
  | .done => .last hfirst
  | .step hsep hitem hmore => .step hfirst hsep
      (hmore.arguments (by rw [List.length_cons] at hcount ⊢; omega) hitem)

theorem More.ends {p q : Spot} {items : List Expr} (h : More p items q)
    (hq : q.Ends Level.expression.continues) : p.Ends Level.assignment.continues := by
  cases h with
  | done => exact hq.mono (by decide)
  | step hsep => exact Place.ends_of_binding (by rw [hsep]; decide)

end Relaxed
end Lox.Grammar
