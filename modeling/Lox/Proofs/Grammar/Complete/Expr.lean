import Lox.Proofs.Grammar.Relaxed.Faultless
import Lox.Proofs.Grammar.Sound.Expr

/-
  What is derivable is read by the expression rules

  `Complete k rule R c` is about spots with at most `k` tokens: a phrase of the
  relation `R` that does not go on with a token of the class `c` is read as it
  is, with its own tree, up to its own end, and its faults are recorded as they
  are found. As before each rule is taken apart once, now along the derivation
  in the relaxed grammar; the parts of a phrase end where the grammar says
  (`Chain.ends`, `More.ends`), so no part reads too much. What the grammar itself
  derives is read without any faults (`accepts_expression`).
-/

namespace Lox

open Grammar

/-- A parser at another place of its tokens. -/
def ParseState.at (s : ParseState) (p : Place) : ParseState :=
  { s with rest := p.tokens, nextId := p.nextId }

/-- A parser at a spot of its tokens, with the faults found so far as its errors. -/
abbrev ParseState.on (s : ParseState) (p : Spot) : ParseState :=
  { s with errors := p.faults }.at p.toPlace

namespace Parse

section Steps

variable {s : ParseState} {t : Token} {ts : List Token} {n : Nat} {p : Place}

theorem accept_at {K : Kind} (h : t.kind = K) :
    accept K (s.at ⟨t :: ts, n⟩) = .ok true (s.at ⟨ts, n⟩) := by
  simp only [accept, ParseState.at, h, if_true]

theorem accept_ends {K : Kind} (h : p.Ends (· == K)) : accept K (s.at p) = .ok false (s.at p) := by
  obtain ⟨_ | ⟨t, ts⟩, n⟩ := p
  · rfl
  · have ht : t.kind ≠ K := by simpa using h t rfl
    simp only [accept, ParseState.at, ht, if_false]

theorem take?_at {f : Kind → Bool} (h : f t.kind = true) :
    take? f (s.at ⟨t :: ts, n⟩) = .ok (some t) (s.at ⟨ts, n⟩) := by
  simp only [take?, ParseState.at, h, if_true]

theorem take?_ends {f : Kind → Bool} (h : p.Ends f) : take? f (s.at p) = .ok none (s.at p) := by
  obtain ⟨_ | ⟨t, ts⟩, n⟩ := p
  · rfl
  · have ht : f t.kind = false := h t rfl
    simp only [take?, ParseState.at, ht, Bool.false_eq_true, if_false]

theorem expect_at {K : Kind} {problem : SyntaxProblem} (h : t.kind = K) :
    expect K problem (s.at ⟨t :: ts, n⟩) = .ok t (s.at ⟨ts, n⟩) := by
  simp only [expect, ParseState.at, h, if_true]

theorem check_at {f : Kind → Bool} :
    check f (s.at ⟨t :: ts, n⟩) = .ok (f t.kind) (s.at ⟨t :: ts, n⟩) := rfl

theorem check_ends {f : Kind → Bool} (h : p.Ends f) : check f (s.at p) = .ok false (s.at p) := by
  obtain ⟨_ | ⟨t, ts⟩, n⟩ := p
  · rfl
  · rw [check_at, h t rfl]

theorem freshId_at : freshId (s.at ⟨ts, n⟩) = .ok n (s.at ⟨ts, n + 1⟩) := rfl

/-- An entry that is one too many is recorded as a fault. -/
theorem limit_on {count : Nat} {problem : SyntaxProblem} {fs : List SyntaxError} :
    limit count problem (s.on ⟨⟨t :: ts, n⟩, fs⟩) =
      .ok () (s.on ⟨⟨t :: ts, n⟩, fs ++ tooMany count ⟨t, problem⟩⟩) := by
  by_cases h : longestList ≤ count
  · have hc : maxArity ≤ count := h
    simp only [limit, tooMany, hc, h, if_true]
    rfl
  · have hc : ¬ maxArity ≤ count := h
    simp only [limit, tooMany, hc, h, if_false, List.append_nil]
    rfl

variable {α : Type} {a b : α} {s' : ParseState} {rule : Parser α} {K : Kind}

theorem afterNext_at (h : t.kind = K) (hr : rule (s.at ⟨ts, n⟩) = .ok b s') :
    afterNext K a rule (s.at ⟨t :: ts, n⟩) = .ok b s' :=
  (bind_of_ok (accept_at h)).trans hr

theorem afterNext_ends (h : p.Ends (· == K)) : afterNext K a rule (s.at p) = .ok a (s.at p) :=
  bind_of_ok (accept_ends h)

theorem unlessNext_at (h : t.kind = K) :
    unlessNext K a rule (s.at ⟨t :: ts, n⟩) = .ok a (s.at ⟨t :: ts, n⟩) := by
  refine (bind_of_ok check_at).trans ?_
  rw [if_pos (by simpa using h)]
  rfl

theorem unlessNext_ends (h : p.Ends (· == K)) (hr : rule (s.at p) = .ok b s') :
    unlessNext K a rule (s.at p) = .ok b s' :=
  (bind_of_ok (check_ends h)).trans hr

end Steps

/-- Every phrase on at most `k` tokens that is not continued is read. -/
def Complete {α : Type} (k : Nat) (rule : Parser α) (R : Spot → α → Spot → Prop)
    (continues : Kind → Bool) : Prop :=
  ∀ (s : ParseState) (p : Spot) (a : α) (q : Spot), p.tokens.length ≤ k → R p a q →
    q.Ends continues → rule (s.on p) = .ok a (s.on q)

/-- The same for a level of the expression grammar. -/
abbrev Reads (k : Nat) (rule : Parser Expr) (l : Level) : Prop :=
  Complete k rule (Relaxed.Derives l) l.continues

theorem Complete.le {α : Type} {j k : Nat} {rule : Parser α} {R : Spot → α → Spot → Prop}
    {c : Kind → Bool} (h : Complete k rule R c) (hj : j ≤ k) : Complete j rule R c :=
  fun s p a q hl => h s p a q (Nat.le_trans hl hj)

/-! ## The expression rules -/

theorem complete_leftChain {k : Nat} {l : Precedence} {operand : Parser Expr}
    (ho : Reads k operand l.operand) {f : Kind → Bool}
    (hf : ∀ kind, f kind = true ↔ kind ∈ l.operators) (n : Nat) (hk : k ≤ n) (left : Expr) :
    Complete k (leftChain operand f l.combine n left) (Relaxed.Chain l left)
      (Level.chain l).continues := by
  induction n generalizing left k with
  | zero =>
    intro s p e q hl h hq
    cases h with
    | done => rfl
    | step => simp only [List.length_cons] at hl; omega
  | succ n ih =>
    intro s p e q hl h hq
    rw [leftChain]
    cases h with
    | done =>
      exact bind_of_ok (take?_ends (hq.not_mem fun kind hkind =>
        Nat.le_of_eq ((l.mem_operators_iff kind).1 ((hf kind).1 hkind)).symm))
    | step hop hright h =>
      have hlt := hright.length_lt
      simp only [List.length_cons] at hl hlt
      refine (bind_of_ok (take?_at ((hf _).2 hop))).trans ?_
      refine (bind_of_ok (ho s _ _ _ (Nat.le_of_succ_le hl) hright (h.ends hq))).trans ?_
      exact ih (ho.le (Nat.sub_le k 1)) (by omega) _ s _ _ _ (by omega) h hq

theorem complete_leftLevel {k n : Nat} {l : Precedence} {operand : Parser Expr}
    (ho : Reads k operand l.operand) {f : Kind → Bool}
    (hf : ∀ kind, f kind = true ↔ kind ∈ l.operators) (hk : k ≤ n) :
    Reads k (leftLevel n operand f l.combine) (.chain l) := by
  intro s p e q hl h hq
  cases h with
  | chain hfirst hchain =>
    have hlt := hfirst.length_lt
    refine (bind_of_ok (ho s _ _ _ hl hfirst (hchain.ends hq))).trans ?_
    exact complete_leftChain ho hf n hk _ s _ _ _ (by omega) hchain hq

section Rules

variable {nested : Parser Expr} {k n : Nat}

theorem complete_moreItems (hn : Reads k nested .assignment) (m : Nat) (hk : k ≤ m) :
    Complete k (moreItems nested m) Relaxed.More Level.expression.continues := by
  induction m generalizing k with
  | zero =>
    intro s p items q hl h hq
    cases h with
    | done => rfl
    | step => simp only [List.length_cons] at hl; omega
  | succ m ih =>
    intro s p items q hl h hq
    rw [moreItems]
    cases h with
    | done => exact bind_of_ok (accept_ends (hq.not_mem (by simp [binding, Level.rank])))
    | step hsep hitem h =>
      have hlt := hitem.length_lt
      simp only [List.length_cons] at hl hlt
      refine (bind_of_ok (accept_at hsep)).trans ?_
      refine (bind_of_ok (hn s _ _ _ (by simp only; omega) hitem (h.ends hq))).trans ?_
      exact (bind_of_ok (ih (hn.le (Nat.sub_le k 1)) (by omega) s _ _ _ (by omega) h hq)).trans rfl

theorem complete_expressionOf (hn : Reads k nested .assignment) (hk : k ≤ n) :
    Reads k (expressionOf nested n) .expression := by
  intro s p e q hl h hq
  cases h with
  | single h =>
    refine (bind_of_ok (hn s _ _ _ hl h (Relaxed.More.done.ends hq))).trans ?_
    have hlt := h.length_lt
    exact (bind_of_ok (complete_moreItems hn n hk s _ _ _ (by omega) .done hq)).trans rfl
  | comma hfirst hmore hne =>
    have hlt := hfirst.length_lt
    refine (bind_of_ok (hn s _ _ _ hl hfirst (hmore.ends hq))).trans ?_
    refine (bind_of_ok (complete_moreItems hn n hk s _ _ _ (by omega) hmore hq)).trans ?_
    split
    · exact absurd rfl hne
    · rfl

/-- The arguments of a call, when `count` others are already read and one comes next. -/
theorem complete_arguments (hn : Reads k nested .assignment) (m : Nat) (hk : k ≤ m)
    (s : ParseState) {count : Nat} {args : List Expr} {p q : Spot} (hl : p.tokens.length ≤ k)
    (h : Relaxed.Arguments count p args q) (hne : args ≠ [])
    (hq : q.Ends Level.expression.continues) :
    arguments nested count m (s.on p) = .ok args (s.on q) := by
  induction m generalizing k count args p with
  | zero =>
    cases h with
    | none => exact absurd rfl hne
    | last | step => simp only [List.length_cons] at hl; omega
  | succ m ih =>
    rw [arguments]
    cases h with
    | none => exact absurd rfl hne
    | last h =>
      refine (bind_of_ok limit_on).trans ?_
      refine (bind_of_ok (hn s _ _ _ (by exact hl) h (Relaxed.More.done.ends hq))).trans ?_
      exact (bind_of_ok (accept_ends (hq.not_mem (by simp [binding, Level.rank])))).trans rfl
    | step hargument hsep h =>
      have hlt := hargument.length_lt
      simp only [List.length_cons] at hl hlt
      refine (bind_of_ok limit_on).trans ?_
      refine (bind_of_ok (hn s _ _ _ (by exact hl) hargument
        (Place.ends_of_binding (by rw [hsep]; decide)))).trans ?_
      refine (bind_of_ok (accept_at hsep)).trans ?_
      have hrest := ih (hn.le (Nat.sub_le k 1)) (by omega) (by simp only; omega) h
        (by cases h <;> exact List.cons_ne_nil _ _)
      exact (bind_of_ok hrest).trans rfl

theorem complete_finishCall (hn : Reads k nested .assignment) (hk : k ≤ n) (s : ParseState)
    {callee : Expr} {args : List Expr} {closing : Token} {ts us : List Token} {i j : Nat}
    {fs gs : List SyntaxError} (hl : ts.length ≤ k)
    (h : Relaxed.Arguments 0 ⟨⟨ts, i⟩, fs⟩ args ⟨⟨closing :: us, j⟩, gs⟩)
    (hclosing : closing.kind = .rightParen) :
    finishCall nested n callee (s.on ⟨⟨ts, i⟩, fs⟩) =
      .ok (.call callee closing args) (s.on ⟨⟨us, j⟩, gs⟩) := by
  have hends : Place.Ends ⟨closing :: us, j⟩ Level.expression.continues :=
    Place.ends_of_binding (by rw [hclosing]; decide)
  have hread : unlessNext .rightParen [] (arguments nested 0 n) (s.on ⟨⟨ts, i⟩, fs⟩) =
      .ok args (s.on ⟨⟨closing :: us, j⟩, gs⟩) := by
    by_cases hne : args = []
    · cases h with
      | none => exact unlessNext_at hclosing
      | last | step => cases hne
    · have hargs := complete_arguments hn n hk s hl h hne hends
      exact unlessNext_ends (Place.ends_of_begins (h.begins hne) (ne_of_class rfl)) hargs
  exact (bind_of_ok hread).trans ((bind_of_ok (expect_at hclosing)).trans rfl)

theorem complete_suffixes (hn : Reads (k - 1) nested .assignment) (hk : k ≤ n) (m : Nat)
    (hm : k ≤ m) (e : Expr) :
    Complete k (suffixes nested n m e) (Relaxed.Suffixes e) Level.call.continues := by
  induction m generalizing k e with
  | zero =>
    intro s p e' q hl h hq
    cases h with
    | done => rfl
    | call => simp only [List.length_cons] at hl; omega
    | property => simp only [List.length_cons] at hl; omega
  | succ m ih =>
    intro s p e' q hl h hq
    rw [suffixes]
    cases h with
    | done =>
      refine (bind_of_ok (accept_ends (hq.not_mem (by simp [binding, Level.rank])))).trans ?_
      exact bind_of_ok (accept_ends (hq.not_mem (by simp [binding, Level.rank])))
    | call hop hargs hclosing h =>
      have hlen := hargs.length_le
      simp only [List.length_cons] at hl hlen
      refine (bind_of_ok (accept_at hop)).trans ?_
      refine (bind_of_ok (complete_finishCall hn (by omega) s (by omega) hargs hclosing)).trans ?_
      exact ih (hn.le (Nat.sub_le (k - 1) 1)) (by omega) (by omega) _ s _ _ _ (by simp only; omega) h
        hq
    | property hdot hname h =>
      simp only [List.length_cons] at hl
      refine (bind_of_ok (accept_ends ?_)).trans ?_
      · rintro _ ⟨⟩; simp [hdot]
      · refine (bind_of_ok (accept_at hdot)).trans ((bind_of_ok (expect_at hname)).trans ?_)
        exact ih (hn.le (Nat.sub_le (k - 1) 1)) (by omega) (by omega) _ s _ _ _ (by simp only; omega)
          h hq

theorem startsPrimary_iff (kind : Kind) : startsPrimary kind = beginsPrimary kind := by
  cases kind <;> rfl

/-- Nothing that follows a primary expression belongs to it. -/
theorem complete_primary (hn : Reads (k - 1) nested .assignment) (hk : k ≤ n) (s : ParseState)
    {p q : Spot} {e : Expr} (hl : p.tokens.length ≤ k) (h : Relaxed.Derives .primary p e q) :
    primary nested n (s.on p) = .ok e (s.on q) := by
  obtain ⟨t, ts, hp, ht⟩ := h.begins
  obtain ⟨⟨tokens, i⟩, fs⟩ := p
  cases hp
  have hstart : startsPrimary t.kind = true := by
    simpa [startsPrimary_iff, Level.begins, Level.takesPrefix] using ht
  refine (bind_of_ok (take?_at hstart)).trans ?_
  simp only [List.length_cons] at hl
  cases h with
  | atom h hgroup =>
    cases h with
    | number hkind | string hkind | trueWord hkind | falseWord hkind | nilWord hkind
    | thisWord hkind | identifier hkind => simp only [primaryFrom, hkind]; rfl
    | group => cases hgroup
    | superWord hkind hdot hmethod =>
      simp only [primaryFrom, hkind]
      exact (bind_of_ok (expect_at hdot)).trans ((bind_of_ok (expect_at hmethod)).trans rfl)
  | group hkind h hclosing =>
    simp only [primaryFrom, hkind]
    refine (bind_of_ok (complete_expressionOf hn (by omega) s _ _ _ (by simp only; omega) h
      (Place.ends_of_binding (by rw [hclosing]; decide)))).trans ?_
    exact (bind_of_ok (expect_at hclosing)).trans rfl

theorem complete_call (hn : Reads (k - 1) nested .assignment) (hk : k ≤ n) :
    Reads k (call nested n) .call := by
  intro s p e q hl h hq
  cases h with
  | call hprimary hsuffixes =>
    have hlt := hprimary.length_lt
    refine (bind_of_ok (complete_primary hn hk s hl hprimary)).trans ?_
    exact complete_suffixes hn hk n hk _ s _ _ _ (by omega) hsuffixes hq

theorem complete_unary (hn : Reads (k - 1) nested .assignment) (hk : k ≤ n) (m : Nat)
    (hm : k ≤ m) : Reads k (unary nested n m) .unary := by
  induction m generalizing k with
  | zero =>
    intro s p e q hl h
    exact absurd h.length_lt (by omega)
  | succ m ih =>
    intro s p e q hl h hq
    rw [unary]
    cases h with
    | unary hop h =>
      simp only [List.length_cons] at hl
      refine (bind_of_ok (take?_at ((isUnaryOperator_iff _).2 hop))).trans ?_
      have hoperand := ih (hn.le (Nat.sub_le (k - 1) 1)) (by omega) (by omega) s _ _ _
        (by simp only; omega) h hq
      exact (bind_of_ok hoperand).trans rfl
    | noUnary h =>
      refine (bind_of_ok (take?_ends (h.ends ?_))).trans (complete_call hn hk s _ _ _ hl h hq)
      intro kind; cases kind <;> simp [Level.begins, Level.takesPrefix, beginsPrimary, isUnaryOperator]

/-- All levels of left-associative operators. -/
theorem complete_disjunction (hn : Reads (k - 1) nested .assignment) (hk : k ≤ n) :
    Reads k (disjunction nested n) (.chain .disjunction) := by
  have hfactor : Reads k (factor nested n) (.chain .factor) :=
    complete_leftLevel (l := .factor) (complete_unary hn hk n hk) isFactorOperator_iff hk
  have hterm : Reads k (term nested n) (.chain .term) :=
    complete_leftLevel (l := .term) hfactor isTermOperator_iff hk
  have hcomparison : Reads k (comparison nested n) (.chain .comparison) :=
    complete_leftLevel (l := .comparison) hterm isComparison_iff hk
  have hequality : Reads k (equality nested n) (.chain .equality) :=
    complete_leftLevel (l := .equality) hcomparison isEquality_iff hk
  have hconjunction : Reads k (conjunction nested n) (.chain .conjunction) :=
    complete_leftLevel (l := .conjunction) hequality isConjunction_iff hk
  exact complete_leftLevel (l := .disjunction) hconjunction isDisjunction_iff hk

theorem complete_choice (hn : Reads (k - 1) nested .assignment) (hk : k ≤ n) (m : Nat)
    (hm : k ≤ m) : Reads k (choice nested n m) .choice := by
  induction m generalizing k with
  | zero =>
    intro s p e q hl h
    exact absurd h.length_lt (by omega)
  | succ m ih =>
    intro s p e q hl h hq
    rw [choice]
    cases h with
    | noChoice h =>
      refine (bind_of_ok (complete_disjunction hn hk s _ _ _ hl h (hq.mono (by decide)))).trans ?_
      exact bind_of_ok (accept_ends (hq.not_mem (by simp [binding, Level.rank])))
    | choice hcondition hquestion hthen hcolon helse =>
      have h₁ := hcondition.length_lt
      have h₂ := hthen.length_lt
      simp only [List.length_cons] at h₁ h₂
      refine (bind_of_ok (complete_disjunction hn hk s _ _ _ hl hcondition
        (Place.ends_of_binding (by rw [hquestion]; decide)))).trans ?_
      refine (bind_of_ok (accept_at hquestion)).trans ?_
      refine (bind_of_ok (complete_expressionOf hn (by omega) s _ _ _ (by simp only; omega) hthen
        (Place.ends_of_binding (by rw [hcolon]; decide)))).trans ?_
      refine (bind_of_ok (expect_at hcolon)).trans ?_
      have hread := ih (hn.le (Nat.sub_le (k - 1) 1)) (by omega) (by omega) s _ _ _
        (by simp only; omega) helse hq
      exact (bind_of_ok hread).trans rfl

/-- An assignment is read by reading its left side as an expression. What comes behind the
equals sign is read in the same way whether or not that is a target. -/
theorem complete_assignmentOf (hn : Reads (k - 1) nested .assignment) (hk : k ≤ n) :
    Reads k (assignmentOf nested n) .assignment := by
  have hsides {s : ParseState} {p q : Spot} {left value : Expr} {equals : Token} {ts : List Token}
      {i : Nat} {fs : List SyntaxError} (hl : p.tokens.length ≤ k)
      (hleft : Relaxed.Derives .choice p left ⟨⟨equals :: ts, i⟩, fs⟩)
      (hequals : equals.kind = .equal) (hvalue : Relaxed.Derives .assignment ⟨⟨ts, i⟩, fs⟩ value q)
      (hq : q.Ends Level.assignment.continues) :
      assignmentOf nested n (s.on p) = assignTo nested left equals (s.on ⟨⟨ts, i⟩, fs⟩) ∧
        nested (s.on ⟨⟨ts, i⟩, fs⟩) = .ok value (s.on q) := by
    have hlt := hleft.length_lt
    simp only [List.length_cons] at hlt
    refine ⟨?_, hn s _ _ _ (by simp only; omega) hvalue hq⟩
    refine (bind_of_ok (complete_choice hn hk n hk s _ _ _ hl hleft
      (Place.ends_of_binding (by rw [hequals]; decide)))).trans ?_
    exact bind_of_ok (take?_at (by rw [hequals]; rfl))
  intro s p e q hl h hq
  cases h with
  | noAssignment h =>
    refine (bind_of_ok (complete_choice hn hk n hk s _ _ _ hl h (hq.mono (by decide)))).trans ?_
    exact bind_of_ok (take?_ends (hq.not_mem (by simp [binding, Level.rank])))
  | assignVariable hleft hequals hvalue | assignProperty hleft hequals hvalue =>
    obtain ⟨hrun, hread⟩ := hsides (s := s) hl hleft hequals hvalue hq
    exact hrun.trans ((bind_of_ok hread).trans rfl)
  | assignOther hleft hequals hother hvalue =>
    obtain ⟨hrun, hread⟩ := hsides (s := s) hl hleft hequals hvalue hq
    refine hrun.trans ((bind_of_ok hread).trans ?_)
    cases e <;> first | rfl | cases hother

end Rules

/-- Every assignment that is derivable is read. -/
theorem complete_assignment {k n : Nat} (hk : k ≤ n) : Reads k (assignment n) .assignment := by
  induction n generalizing k with
  | zero =>
    intro s p e q hl h
    exact absurd h.length_lt (by omega)
  | succ n ih => exact complete_assignmentOf (ih (by omega)) hk

theorem complete_expression {k n : Nat} (hk : k ≤ n) : Reads k (expression n) .expression :=
  complete_expressionOf (complete_assignment hk) hk

/-- An expression of the grammar is read, and nothing is recorded. -/
theorem accepts_expression {n : Nat} (s : ParseState) {p q : Place} {e : Expr}
    (hl : p.tokens.length ≤ n) (h : Derives .expression p e q)
    (hq : q.Ends Level.expression.continues) : expression n (s.at p) = .ok e (s.at q) :=
  complete_expression (Nat.le_refl n) s _ _ _ hl (h.relaxed s.errors) hq

end Parse
end Lox
