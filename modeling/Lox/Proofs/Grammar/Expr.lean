import Mathlib
import Lox.Expr

/-
  The grammar of expressions — derivations and their trees

      expression → comma
      comma      → assignment ( "," assignment )*
      assignment → ( call "." )? IDENT "=" assignment | choice
      choice     → or ( "?" expression ":" choice )?
      or         → and ( "or" and )*
      and        → equality ( "and" equality )*
      equality   → comparison ( ( "!=" | "==" ) comparison )*
      comparison → term ( ( ">" | ">=" | "<" | "<=" ) term )*
      term       → factor ( ( "-" | "+" ) factor )*
      factor     → unary ( ( "/" | "*" ) unary )*
      unary      → ( "!" | "-" ) unary | call
      call       → primary ( "(" arguments? ")" | "." IDENT )*
      arguments  → assignment ( "," assignment )*
      primary    → NUMBER | STRING | "true" | "false" | "nil" | "this" | IDENT
                 | "(" expression ")" | "super" "." IDENT

  A derivation takes a phrase off the front of a token list, so it leads from
  one place of the list to another. Nodes that have an id get the next one in
  the order of their names in the text. Nothing is said about what follows a
  phrase: this is the grammar and no way of parsing it.
-/

namespace Lox.Grammar

/-- A place in a token list: the tokens from there on, and the id for the next
node that gets one. -/
structure Place where
  tokens : List Token
  nextId : Nat

/-- Whether the next token, if there is one, is outside the given class. -/
def Place.Ends (p : Place) (continues : Kind → Bool) : Prop :=
  ∀ t ∈ p.tokens.head?, continues t.kind = false

/-- The levels of left-associative operators, from the loosest to the tightest. -/
inductive Precedence where
  | disjunction | conjunction | equality | comparison | term | factor

/-- The nonterminals that stand for one expression. -/
inductive Level where
  | expression | assignment | choice
  | chain (p : Precedence)
  | unary | call | primary

/-- The longest parameter or argument list. -/
def longestList : Nat := 255

namespace Precedence

def operators : Precedence → List Kind
  | disjunction => [.orWord]
  | conjunction => [.andWord]
  | equality => [.bangEqual, .equalEqual]
  | comparison => [.greater, .greaterEqual, .less, .lessEqual]
  | term => [.minus, .plus]
  | factor => [.slash, .star]

/-- The level of the operands. -/
def operand : Precedence → Level
  | disjunction => .chain conjunction
  | conjunction => .chain equality
  | equality => .chain comparison
  | comparison => .chain term
  | term => .chain factor
  | factor => .unary

/-- The tree of an operator with its operands. -/
def combine : Precedence → Expr → Token → Expr → Expr
  | disjunction | conjunction => .logical
  | equality | comparison | term | factor => .binary

end Precedence

mutual

/-- `Derives l p e q`: the tokens between `p` and `q` are a phrase of level `l`
whose tree is `e`. -/
inductive Derives : Level → Place → Expr → Place → Prop
  | single {p q : Place} {e : Expr} :
      Derives .assignment p e q → Derives .expression p e q
  | comma {p q r : Place} {first : Expr} {items : List Expr} :
      Derives .assignment p first q → More q items r → items ≠ [] →
      Derives .expression p (.comma (first :: items)) r
  | assignVariable {name equals : Token} {ts : List Token} {n : Nat} {value : Expr} {q : Place} :
      name.kind = .identifier → equals.kind = .equal →
      Derives .assignment ⟨ts, n + 1⟩ value q →
      Derives .assignment ⟨name :: equals :: ts, n⟩ (.assign n name value) q
  | assignProperty {dot name equals : Token} {ts : List Token} {n : Nat} {object value : Expr}
      {p q : Place} :
      Derives .call p object ⟨dot :: name :: equals :: ts, n⟩ →
      dot.kind = .dot → name.kind = .identifier → equals.kind = .equal →
      Derives .assignment ⟨ts, n⟩ value q →
      Derives .assignment p (.set object name value) q
  | noAssignment {p q : Place} {e : Expr} :
      Derives .choice p e q → Derives .assignment p e q
  | choice {question colon : Token} {ts us : List Token} {n k : Nat}
      {condition thenCase elseCase : Expr} {p q : Place} :
      Derives (.chain .disjunction) p condition ⟨question :: ts, n⟩ →
      question.kind = .question →
      Derives .expression ⟨ts, n⟩ thenCase ⟨colon :: us, k⟩ →
      colon.kind = .colon →
      Derives .choice ⟨us, k⟩ elseCase q →
      Derives .choice p (.choice condition thenCase elseCase) q
  | noChoice {p q : Place} {e : Expr} :
      Derives (.chain .disjunction) p e q → Derives .choice p e q
  | chain {l : Precedence} {p q r : Place} {first e : Expr} :
      Derives l.operand p first q → Chain l first q e r → Derives (.chain l) p e r
  | unary {operator : Token} {ts : List Token} {n : Nat} {operand : Expr} {q : Place} :
      operator.kind ∈ [.bang, .minus] → Derives .unary ⟨ts, n⟩ operand q →
      Derives .unary ⟨operator :: ts, n⟩ (.unary operator operand) q
  | noUnary {p q : Place} {e : Expr} :
      Derives .call p e q → Derives .unary p e q
  | call {p q r : Place} {callee e : Expr} :
      Derives .primary p callee q → Suffixes callee q e r → Derives .call p e r
  | number {t : Token} {ts : List Token} {n : Nat} {value : Float} :
      t.kind = .number value → Derives .primary ⟨t :: ts, n⟩ (.number value) ⟨ts, n⟩
  | string {t : Token} {ts : List Token} {n : Nat} {text : String} :
      t.kind = .string text → Derives .primary ⟨t :: ts, n⟩ (.string text) ⟨ts, n⟩
  | trueWord {t : Token} {ts : List Token} {n : Nat} :
      t.kind = .trueWord → Derives .primary ⟨t :: ts, n⟩ (.boolean true) ⟨ts, n⟩
  | falseWord {t : Token} {ts : List Token} {n : Nat} :
      t.kind = .falseWord → Derives .primary ⟨t :: ts, n⟩ (.boolean false) ⟨ts, n⟩
  | nilWord {t : Token} {ts : List Token} {n : Nat} :
      t.kind = .nilWord → Derives .primary ⟨t :: ts, n⟩ .nil ⟨ts, n⟩
  | thisWord {t : Token} {ts : List Token} {n : Nat} :
      t.kind = .thisWord → Derives .primary ⟨t :: ts, n⟩ (.self n t) ⟨ts, n + 1⟩
  | identifier {t : Token} {ts : List Token} {n : Nat} :
      t.kind = .identifier → Derives .primary ⟨t :: ts, n⟩ (.var n t) ⟨ts, n + 1⟩
  | group {opening closing : Token} {ts us : List Token} {n k : Nat} {inner : Expr} :
      opening.kind = .leftParen → Derives .expression ⟨ts, n⟩ inner ⟨closing :: us, k⟩ →
      closing.kind = .rightParen →
      Derives .primary ⟨opening :: ts, n⟩ (.group inner) ⟨us, k⟩
  | superWord {t dot method : Token} {ts : List Token} {n : Nat} :
      t.kind = .superWord → dot.kind = .dot → method.kind = .identifier →
      Derives .primary ⟨t :: dot :: method :: ts, n⟩ (.super n t method) ⟨ts, n + 1⟩

/-- Operators with their right operands, taken together with what stands to the
left of them. -/
inductive Chain : Precedence → Expr → Place → Expr → Place → Prop
  | done {l : Precedence} {left : Expr} {p : Place} : Chain l left p left p
  | step {l : Precedence} {left right e : Expr} {operator : Token} {ts : List Token} {n : Nat}
      {q r : Place} :
      operator.kind ∈ l.operators → Derives l.operand ⟨ts, n⟩ right q →
      Chain l (l.combine left operator right) q e r →
      Chain l left ⟨operator :: ts, n⟩ e r

/-- Further items, each behind a comma. -/
inductive More : Place → List Expr → Place → Prop
  | done {p : Place} : More p [] p
  | step {separator : Token} {ts : List Token} {n : Nat} {item : Expr} {items : List Expr}
      {q r : Place} :
      separator.kind = .comma → Derives .assignment ⟨ts, n⟩ item q → More q items r →
      More ⟨separator :: ts, n⟩ (item :: items) r

/-- The arguments of a call, at most as many as the longest list has. -/
inductive Arguments : Place → List Expr → Place → Prop
  | none {p : Place} : Arguments p [] p
  | some {p q r : Place} {first : Expr} {items : List Expr} :
      Derives .assignment p first q → More q items r →
      (first :: items).length ≤ longestList → Arguments p (first :: items) r

/-- Calls and property accesses, taken together with what stands to the left of
them. -/
inductive Suffixes : Expr → Place → Expr → Place → Prop
  | done {e : Expr} {p : Place} : Suffixes e p e p
  | call {callee e : Expr} {opening closing : Token} {ts us : List Token} {n k : Nat}
      {arguments : List Expr} {r : Place} :
      opening.kind = .leftParen → Arguments ⟨ts, n⟩ arguments ⟨closing :: us, k⟩ →
      closing.kind = .rightParen → Suffixes (.call callee closing arguments) ⟨us, k⟩ e r →
      Suffixes callee ⟨opening :: ts, n⟩ e r
  | property {object e : Expr} {dot name : Token} {ts : List Token} {n : Nat} {r : Place} :
      dot.kind = .dot → name.kind = .identifier →
      Suffixes (.get object name) ⟨ts, n⟩ e r →
      Suffixes object ⟨dot :: name :: ts, n⟩ e r

end

/-! ## Where a tree comes from -/

/-- The trees that are built above the level of calls. -/
def isOperation : Expr → Bool
  | .unary .. | .binary .. | .logical .. | .choice .. => true
  | _ => false

theorem Precedence.isOperation_combine (l : Precedence) (left : Expr) (operator : Token)
    (right : Expr) : isOperation (l.combine left operator right) = true := by
  cases l <;> rfl

/-- A chain is empty, or its tree is an operation. -/
theorem Chain.result {l : Precedence} {left e : Expr} {p q : Place} :
    Chain l left p e q → (e = left ∧ p = q) ∨ isOperation e = true
  | .done => .inl ⟨rfl, rfl⟩
  | .step _ _ h => by
    obtain ⟨rfl, rfl⟩ | he := h.result
    · exact .inr (l.isOperation_combine _ _ _)
    · exact .inr he

theorem Derives.operand_of_chain {l : Precedence} {p q : Place} {e : Expr}
    (h : Derives (.chain l) p e q) (he : isOperation e = false) : Derives l.operand p e q := by
  cases h with
  | chain hfirst hchain =>
    obtain ⟨rfl, rfl⟩ | he' := hchain.result
    · exact hfirst
    · rw [he] at he'; cases he'

theorem Derives.call_of_unary {p q : Place} {e : Expr} (h : Derives .unary p e q)
    (he : isOperation e = false) : Derives .call p e q := by
  cases h with
  | unary => cases he
  | noUnary h => exact h

/-- What is no operation is derived by the rule of calls. -/
theorem Derives.call_of_choice {p q : Place} {e : Expr} (h : Derives .choice p e q)
    (he : isOperation e = false) : Derives .call p e q := by
  cases h with
  | choice => cases he
  | noChoice h =>
    have conjunction := h.operand_of_chain he
    have equality := conjunction.operand_of_chain he
    have comparison := equality.operand_of_chain he
    have term := comparison.operand_of_chain he
    have factor := term.operand_of_chain he
    exact (factor.operand_of_chain he).call_of_unary he

/-- Suffixes that end in a property access can be cut before it, and the others
end in a call. -/
theorem Suffixes.last {e e' : Expr} {p q : Place} :
    Suffixes e p e' q → (e' = e ∧ p = q) ∨
      (∃ callee paren arguments, e' = .call callee paren arguments) ∨
      ∃ object dot name, e' = .get object name ∧ dot.kind = .dot ∧ name.kind = .identifier ∧
        Suffixes e p object ⟨dot :: name :: q.tokens, q.nextId⟩
  | .done => .inl ⟨rfl, rfl⟩
  | .call hop hargs hc h => by
    obtain ⟨rfl, rfl⟩ | hcall | ⟨object, dot, name, rfl, hd, hn, hs⟩ := h.last
    · exact .inr (.inl ⟨_, _, _, rfl⟩)
    · exact .inr (.inl hcall)
    · exact .inr (.inr ⟨object, dot, name, rfl, hd, hn, .call hop hargs hc hs⟩)
  | .property hdot hname h => by
    obtain ⟨rfl, rfl⟩ | hcall | ⟨object, dot, name, rfl, hd, hn, hs⟩ := h.last
    · exact .inr (.inr ⟨_, _, _, rfl, hdot, hname, .done⟩)
    · exact .inr (.inl hcall)
    · exact .inr (.inr ⟨object, dot, name, rfl, hd, hn, .property hdot hname hs⟩)

/-- A variable is derived from its name alone. -/
theorem Derives.of_var {p q : Place} {id : Nat} {name : Token}
    (h : Derives .call p (.var id name) q) :
    name.kind = .identifier ∧ p = ⟨name :: q.tokens, id⟩ ∧ q.nextId = id + 1 := by
  cases h with
  | call hprimary hsuffixes =>
    obtain ⟨rfl, rfl⟩ | ⟨_, _, _, he⟩ | ⟨_, _, _, he, _⟩ := hsuffixes.last
    · cases hprimary with
      | identifier ht => exact ⟨ht, rfl, rfl⟩
    · cases he
    · cases he

/-- A property access is derived from its object, a dot and its name. -/
theorem Derives.of_get {p q : Place} {object : Expr} {name : Token}
    (h : Derives .call p (.get object name) q) :
    ∃ dot : Token, dot.kind = .dot ∧ name.kind = .identifier ∧
      Derives .call p object ⟨dot :: name :: q.tokens, q.nextId⟩ := by
  cases h with
  | call hprimary hsuffixes =>
    obtain ⟨rfl, rfl⟩ | ⟨_, _, _, he⟩ | ⟨_, dot, _, he, hd, hn, hs⟩ := hsuffixes.last
    · cases hprimary
    · cases he
    · cases he
      exact ⟨dot, hd, hn, .call hprimary hs⟩

/-! ## Phrases take tokens -/

mutual

/-- A phrase has at least one token. -/
theorem Derives.length_lt {l : Level} {p q : Place} {e : Expr} :
    Derives l p e q → q.tokens.length < p.tokens.length
  | .single h => h.length_lt
  | .comma hfirst hmore _ => Nat.lt_of_le_of_lt hmore.length_le hfirst.length_lt
  | .assignVariable _ _ h => Nat.lt_of_lt_of_le h.length_lt (by simp; omega)
  | .assignProperty hobject _ _ _ hvalue => by
    have h₁ := hobject.length_lt
    have h₂ := hvalue.length_lt
    simp only [List.length_cons] at h₁ h₂
    omega
  | .noAssignment h => h.length_lt
  | .choice hcondition _ hthen _ helse => by
    have h₁ := hcondition.length_lt
    have h₂ := hthen.length_lt
    have h₃ := helse.length_lt
    simp only [List.length_cons] at h₁ h₂ h₃
    omega
  | .noChoice h => h.length_lt
  | .chain hfirst hchain => Nat.lt_of_le_of_lt hchain.length_le hfirst.length_lt
  | .unary _ h => Nat.lt_succ_of_lt h.length_lt
  | .noUnary h => h.length_lt
  | .call hprimary hsuffixes => Nat.lt_of_le_of_lt hsuffixes.length_le hprimary.length_lt
  | .number _ | .string _ | .trueWord _ | .falseWord _ | .nilWord _ | .thisWord _
  | .identifier _ => Nat.lt_succ_self _
  | .group _ h _ => Nat.lt_trans (Nat.lt_succ_self _) (Nat.lt_succ_of_lt h.length_lt)
  | .superWord _ _ _ => by simp; omega

theorem Chain.length_le {l : Precedence} {p q : Place} {left e : Expr} :
    Chain l left p e q → q.tokens.length ≤ p.tokens.length
  | .done => Nat.le_refl _
  | .step _ hright h =>
    Nat.le_trans h.length_le (Nat.le_of_lt (Nat.lt_succ_of_lt hright.length_lt))

theorem More.length_le {p q : Place} {items : List Expr} :
    More p items q → q.tokens.length ≤ p.tokens.length
  | .done => Nat.le_refl _
  | .step _ hitem h =>
    Nat.le_trans h.length_le (Nat.le_of_lt (Nat.lt_succ_of_lt hitem.length_lt))

theorem Arguments.length_le {p q : Place} {arguments : List Expr} :
    Arguments p arguments q → q.tokens.length ≤ p.tokens.length
  | .none => Nat.le_refl _
  | .some hfirst hmore _ => Nat.le_trans hmore.length_le (Nat.le_of_lt hfirst.length_lt)

theorem Suffixes.length_le {p q : Place} {left e : Expr} :
    Suffixes left p e q → q.tokens.length ≤ p.tokens.length
  | .done => Nat.le_refl _
  | .call _ harguments _ h => by
    have h₁ := harguments.length_le
    have h₂ := h.length_le
    simp only [List.length_cons] at h₁ h₂ ⊢
    omega
  | .property _ _ h => Nat.le_trans h.length_le (by simp; omega)

end

/-! ## How phrases begin and go on -/

/-- The kinds a primary expression begins with. -/
def beginsPrimary : Kind → Bool
  | .number _ | .string _ | .trueWord | .falseWord | .nilWord | .thisWord | .identifier
  | .leftParen | .superWord => true
  | _ => false

/-- Whether operators may stand in front of a phrase. -/
def Level.takesPrefix : Level → Bool
  | .call | .primary => false
  | _ => true

/-- The kinds that a phrase of a level may begin with. -/
def Level.begins (l : Level) (kind : Kind) : Bool :=
  beginsPrimary kind || l.takesPrefix && (kind == .bang || kind == .minus)

theorem Level.begins_of_primary {l : Level} {kind : Kind} (h : beginsPrimary kind = true) :
    l.begins kind = true := by
  rw [begins, h, Bool.true_or]

theorem Level.begins_mono {l m : Level} {kind : Kind} (h : m.begins kind = true)
    (hl : m.takesPrefix = true → l.takesPrefix = true) : l.begins kind = true := by
  rw [begins, Bool.or_eq_true, Bool.and_eq_true] at h ⊢
  exact h.imp_right fun ⟨hm, hk⟩ => ⟨hl hm, hk⟩

/-- How tightly a token binds what stands on both sides of it; zero if no phrase
goes on with it. -/
def binding : Kind → Nat
  | .comma => 1
  | .equal => 2
  | .question => 3
  | .orWord => 4
  | .andWord => 5
  | .bangEqual | .equalEqual => 6
  | .greater | .greaterEqual | .less | .lessEqual => 7
  | .minus | .plus => 8
  | .slash | .star => 9
  | .leftParen | .dot => 10
  | _ => 0

/-- The place of a level in the order from the loosest to the tightest. -/
def Level.rank : Level → Nat
  | expression => 1
  | assignment => 2
  | choice => 3
  | chain .disjunction => 4
  | chain .conjunction => 5
  | chain .equality => 6
  | chain .comparison => 7
  | chain .term => 8
  | chain .factor => 9
  | unary | call => 10
  | primary => 11

/-- The kinds with which a phrase of a level goes on. -/
def Level.continues (l : Level) (kind : Kind) : Bool := l.rank ≤ binding kind

theorem Precedence.rank_operand (l : Precedence) :
    l.operand.rank = (Level.chain l).rank + 1 := by
  cases l <;> rfl

theorem Precedence.mem_operators_iff (l : Precedence) (kind : Kind) :
    kind ∈ l.operators ↔ binding kind = (Level.chain l).rank := by
  cases l <;> cases kind <;> simp [operators, binding, Level.rank]

/-- What a loose phrase does not go on with, a tight one does not either. -/
theorem Place.Ends.mono {p : Place} {l m : Level} (h : p.Ends l.continues)
    (hlm : l.rank ≤ m.rank) : p.Ends m.continues := by
  intro t ht
  have := h t ht
  simp only [Level.continues, decide_eq_false_iff_not] at this ⊢
  omega

/-- A phrase ends before a token that binds less tightly. -/
theorem Place.ends_of_binding {t : Token} {ts : List Token} {n : Nat} {l : Level}
    (h : binding t.kind < l.rank) : Place.Ends ⟨t :: ts, n⟩ l.continues := by
  rintro _ ⟨⟩
  simpa [Level.continues] using h

theorem Place.ends_nil {n : Nat} {c : Kind → Bool} : Place.Ends ⟨[], n⟩ c := nofun

/-- What does not come next after the end of a phrase. -/
theorem Place.Ends.not_mem {p : Place} {l : Level} (h : p.Ends l.continues) {f : Kind → Bool}
    (hf : ∀ kind, f kind = true → l.rank ≤ binding kind) : p.Ends f := by
  intro t ht
  have hn := h t ht
  cases hkind : f t.kind with
  | false => rfl
  | true =>
    have := hf _ hkind
    simp only [Level.continues, decide_eq_false_iff_not] at hn
    omega

/-- A phrase begins with a token of its first kinds. -/
theorem Derives.begins {l : Level} {p q : Place} {e : Expr} :
    Derives l p e q → ∃ t ts, p.tokens = t :: ts ∧ l.begins t.kind = true
  | .single h | .comma h _ _ | .noAssignment h | .choice h _ _ _ _ | .noChoice h | .chain h _
  | .assignProperty h _ _ _ _ | .noUnary h | .call h _ => by
    obtain ⟨t, ts, hp, ht⟩ := h.begins
    exact ⟨t, ts, hp, Level.begins_mono ht (by first | exact fun _ => rfl | exact nofun)⟩
  | .assignVariable hk _ _ | .number hk | .string hk | .trueWord hk | .falseWord hk
  | .nilWord hk | .thisWord hk | .identifier hk | .group hk _ _ | .superWord hk _ _ =>
    ⟨_, _, rfl, Level.begins_of_primary (by rw [hk]; rfl)⟩
  | .unary hk _ => by
    refine ⟨_, _, rfl, ?_⟩
    simp only [List.mem_cons, List.not_mem_nil, or_false] at hk
    obtain hk | hk := hk <;> rw [hk] <;> rfl

/-- A token of one class is outside another. -/
theorem Place.ends_of_begins {p : Place} {begins f : Kind → Bool}
    (h : ∃ t ts, p.tokens = t :: ts ∧ begins t.kind = true)
    (hf : ∀ kind, begins kind = true → f kind = false) : p.Ends f := by
  obtain ⟨t, ts, hp, ht⟩ := h
  rw [Place.Ends, hp]
  rintro _ ⟨⟩
  exact hf _ ht

theorem ne_of_class {f : Kind → Bool} {K : Kind} (hK : f K = false) (kind : Kind)
    (h : f kind = true) : (kind == K) = false := by
  rw [beq_eq_false_iff_ne]
  rintro rfl
  rw [hK] at h
  cases h

/-! ## Whole token lists -/

/-- A token list whose end marker, if it has one, comes last. -/
def MarkedAtEnd (tokens : List Token) : Prop := ∀ t ∈ tokens.dropLast, t.isEof = false

/-- A token list without its end marker. The marker stands for the end of the
list and may be missing. -/
def Unmarked (tokens body : List Token) : Prop :=
  (∀ t ∈ body, t.isEof = false) ∧
    (tokens = body ∨ ∃ t : Token, t.isEof = true ∧ tokens = body ++ [t])

/-- A token list that is an expression from its beginning to its end. -/
def WholeExpression (tokens : List Token) (firstId : Nat) (e : Expr) (nextId : Nat) : Prop :=
  ∃ body, Unmarked tokens body ∧ Derives .expression ⟨body, firstId⟩ e ⟨[], nextId⟩

end Lox.Grammar
