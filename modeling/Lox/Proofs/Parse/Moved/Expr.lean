import Lox.Proofs.Parse.Lines

/-
  Expressions on other lines

  The rules for expressions, read on other lines and with ids that begin further
  on, under a bound of their own. What is read there is the same tree, relabelled
  (`follows_expression`). Bounds are above the number of tokens throughout, so
  they never stop a rule; a nested rule is only run once a token is taken.
-/

namespace Lox.Parse

variable {g : Nat → Nat} {c : Nat}

/-- Induction on two bounds at once, for numbers that are below both. -/
theorem bounds_induction {P : (k n n' : Nat) → k < n → k < n' → Prop}
    (step : ∀ k n n' (hk : k < n + 1) (hk' : k < n' + 1),
      (∀ {j} (hj : j < n) (hj' : j < n'), P j n n' hj hj') → P k (n + 1) (n' + 1) hk hk')
    {k n n' : Nat} (hk : k < n) (hk' : k < n') : P k n n' hk hk' := by
  induction n generalizing k n' with
  | zero => exact absurd hk (Nat.not_lt_zero k)
  | succ n ih =>
    cases n' with
    | zero => exact absurd hk' (Nat.not_lt_zero k)
    | succ n' => exact step k n n' hk hk' ih

namespace Follows

variable {α β : Type} {k : Nat} {f : α → β}

theorem limit (count : Nat) (problem : SyntaxProblem) :
    Follows g c k (fun u => u) (Parse.limit count problem) (Parse.limit count problem) :=
  .ite .rfl (.bind .peek .peek fun t => .record ⟨t, problem⟩) (.pure rfl)

theorem afterNext {K : Kind} {a : α} {b : β} {x : Parser α} {y : Parser β} (hb : f a = b)
    (h : 0 < k → Follows g c (k - 1) f x y) :
    Follows g c k f (Parse.afterNext K a x) (Parse.afterNext K b y) :=
  .accept K h (.pure hb)

theorem unlessNext {K : Kind} {a : α} {b : β} {x : Parser α} {y : Parser β} (hb : f a = b)
    (h : Follows g c k f x y) :
    Follows g c k f (Parse.unlessNext K a x) (Parse.unlessNext K b y) :=
  .bind (.check _) (.check _) fun _ => .ite .rfl (.pure hb) h

end Follows

/-! ## Expressions -/

theorem follows_leftChain {k n n' : Nat} (hk : k < n) (hk' : k < n') {operand operand' : Parser Expr}
    (fo : Forward operand)
    (ho : Follows g c k (·.relabel g (· + c)) operand operand') (p : Kind → Bool)
    {combine : Expr → Token → Expr → Expr}
    (hc : ∀ a o b, (combine a o b).relabel g (· + c) =
      combine (a.relabel g (· + c)) (o.mapLine g) (b.relabel g (· + c))) (left : Expr) :
    Follows g c k (·.relabel g (· + c)) (leftChain operand p combine n left)
      (leftChain operand' p combine n' (left.relabel g (· + c))) := by
  induction hk, hk' using bounds_induction generalizing left with
  | step k n n' hk hk' ih =>
    rw [leftChain, leftChain]
    refine .take? p (fun operator _ hpos => ?_) (.pure rfl)
    have ho' := ho.le (Nat.sub_le k 1)
    refine .bind fo ho' fun right => ?_
    rw [← hc]
    exact ih (by omega) (by omega) ho' (combine left operator right)

theorem follows_leftLevel {k n n' : Nat} (hk : k < n) (hk' : k < n')
    {operand operand' : Parser Expr} (fo : Forward operand)
    (ho : Follows g c k (·.relabel g (· + c)) operand operand') (p : Kind → Bool)
    {combine : Expr → Token → Expr → Expr}
    (hc : ∀ a o b, (combine a o b).relabel g (· + c) =
      combine (a.relabel g (· + c)) (o.mapLine g) (b.relabel g (· + c))) :
    Follows g c k (·.relabel g (· + c)) (leftLevel n operand p combine)
      (leftLevel n' operand' p combine) :=
  .bind fo ho fun first => follows_leftChain hk hk' fo ho p hc first

section Rules

variable {nested nested' : Parser Expr} (fn : Forward nested) {k n n' : Nat} (hk : k < n)
  (hk' : k < n')
include fn

theorem follows_moreItems {m m' : Nat} (hm : k < m) (hm' : k < m')
    (hn : Follows g c k (·.relabel g (· + c)) nested nested') :
    Follows g c k (Expr.relabelAll g (· + c)) (moreItems nested m) (moreItems nested' m') := by
  induction hm, hm' using bounds_induction with
  | step k m m' hm hm' ih =>
    rw [moreItems, moreItems]
    refine .accept _ (fun hpos => ?_) (.pure rfl)
    have hn' := hn.le (Nat.sub_le k 1)
    exact .bind fn hn' fun _ => .bind (forward_moreItems fn m)
      (ih (by omega) (by omega) hn') fun _ => .pure rfl

include hk hk'

theorem follows_expressionOf (hn : Follows g c k (·.relabel g (· + c)) nested nested') :
    Follows g c k (·.relabel g (· + c)) (expressionOf nested n) (expressionOf nested' n') := by
  refine .bind fn hn fun first => .bind (forward_moreItems fn n)
    (follows_moreItems fn hk hk' hn) fun items => ?_
  cases items with
  | nil => exact .pure rfl
  | cons item items => exact .pure rfl

omit hk hk' in
theorem follows_arguments (count : Nat) {m m' : Nat} (hm : k < m) (hm' : k < m')
    (hn : Follows g c k (·.relabel g (· + c)) nested nested') :
    Follows g c k (Expr.relabelAll g (· + c)) (arguments nested count m)
      (arguments nested' count m') := by
  induction hm, hm' using bounds_induction generalizing count with
  | step k m m' hm hm' ih =>
    rw [arguments, arguments]
    refine .bind (forward_limit _ _) (.limit _ _) fun _ => .bind fn hn fun argument =>
      .accept _ (fun hpos => ?_) (.pure rfl)
    have hn' := hn.le (Nat.sub_le k 1)
    exact .bind (forward_arguments fn _ m) (ih (by omega) (by omega) (count + 1) hn') fun _ =>
      .pure rfl

theorem follows_finishCall (hn : Follows g c k (·.relabel g (· + c)) nested nested')
    (callee : Expr) :
    Follows g c k (·.relabel g (· + c)) (finishCall nested n callee)
      (finishCall nested' n' (callee.relabel g (· + c))) :=
  .bind (.unlessNext _ _ (forward_arguments fn 0 n))
    (.unlessNext rfl (follows_arguments fn 0 hk hk' hn)) fun _ => .expect _ _ fun _ _ _ => .pure rfl

theorem follows_suffixes (hn : Follows g c (k - 1) (·.relabel g (· + c)) nested nested')
    {m m' : Nat} (hm : k < m) (hm' : k < m') (e : Expr) :
    Follows g c k (·.relabel g (· + c)) (suffixes nested n m e)
      (suffixes nested' n' m' (e.relabel g (· + c))) := by
  induction hm, hm' using bounds_induction generalizing e with
  | step k m m' hm hm' ih =>
    rw [suffixes, suffixes]
    have hn' := hn.le (Nat.sub_le (k - 1) 1)
    refine .accept _ (fun hpos => ?_) (.accept _ (fun hpos => ?_) (.pure rfl))
    · exact .bind (forward_finishCall fn n e)
        (follows_finishCall fn (by omega) (by omega) hn e) fun e' =>
          ih (by omega) (by omega) (by omega) (by omega) hn' e'
    · refine .expect _ _ fun name _ hpos' => ?_
      exact (ih (j := k - 1) (by omega) (by omega) (by omega) (by omega) hn' (.get e name)).le
        (Nat.sub_le _ 1)

theorem follows_primaryFrom (hn : Follows g c k (·.relabel g (· + c)) nested nested') (t : Token) :
    Follows g c k (·.relabel g (· + c)) (primaryFrom nested n t)
      (primaryFrom nested' n' (t.mapLine g)) := by
  rw [primaryFrom, primaryFrom, Token.mapLine_kind]
  split
  case h_6 =>
    exact .expect _ _ fun _ _ _ => .expect _ _ fun _ _ _ => .bind .freshId .freshId fun _ =>
      .pure rfl
  case h_7 => exact .bind .freshId .freshId fun _ => .pure rfl
  case h_8 => exact .bind .freshId .freshId fun _ => .pure rfl
  case h_9 =>
    exact .bind (forward_expressionOf fn n) (follows_expressionOf fn hk hk' hn) fun _ =>
      .expect _ _ fun _ _ _ => .pure rfl
  case h_10 => exact .fail _
  all_goals exact .pure rfl

theorem follows_primary (hn : 0 < k → Follows g c (k - 1) (·.relabel g (· + c)) nested nested') :
    Follows g c k (·.relabel g (· + c)) (primary nested n) (primary nested' n') :=
  .take? _ (fun t _ hpos => follows_primaryFrom fn (by omega) (by omega) (hn hpos) t) (.fail _)

theorem follows_call (hn : 0 < k → Follows g c (k - 1) (·.relabel g (· + c)) nested nested') :
    Follows g c k (·.relabel g (· + c)) (call nested n) (call nested' n') := by
  intro s hl
  -- a call on no tokens fails in its first part
  rcases Nat.eq_zero_or_pos k with rfl | hpos
  · have hrest : s.rest = [] := List.eq_nil_of_length_eq_zero (Nat.le_zero.1 hl)
    obtain ⟨rest, eof, errors, id⟩ := s
    cases hrest
    rfl
  · exact Follows.bind (forward_primary fn n) (follows_primary fn hk hk' hn)
      (fun e => follows_suffixes fn hk hk' (hn hpos) hk hk' e) s hl

theorem follows_unary (hn : 0 < k → Follows g c (k - 1) (·.relabel g (· + c)) nested nested')
    {m m' : Nat} (hm : k < m) (hm' : k < m') :
    Follows g c k (·.relabel g (· + c)) (unary nested n m) (unary nested' n' m') := by
  induction hm, hm' using bounds_induction with
  | step k m m' hm hm' ih =>
    rw [unary, unary]
    refine .take? _ (fun operator _ hpos => ?_) (follows_call fn hk hk' hn)
    have hn' : 0 < k - 1 → Follows g c (k - 1 - 1) (·.relabel g (· + c)) nested nested' :=
      fun _ => (hn hpos).le (Nat.sub_le _ 1)
    exact .bind (forward_unary fn n m) (ih (by omega) (by omega) (by omega) (by omega) hn')
      fun _ => .pure rfl

theorem follows_disjunction
    (hn : 0 < k → Follows g c (k - 1) (·.relabel g (· + c)) nested nested') :
    Follows g c k (·.relabel g (· + c)) (disjunction nested n) (disjunction nested' n') := by
  have level : ∀ (p : Kind → Bool) (combine : Expr → Token → Expr → Expr)
      {operand operand' : Parser Expr}, Forward operand →
      Follows g c k (·.relabel g (· + c)) operand operand' →
      (∀ a o b, (combine a o b).relabel g (· + c) =
        combine (a.relabel g (· + c)) (o.mapLine g) (b.relabel g (· + c))) →
      Follows g c k (·.relabel g (· + c)) (leftLevel n operand p combine)
        (leftLevel n' operand' p combine) :=
    fun _ _ _ _ fo ho hc => follows_leftLevel hk hk' fo ho _ hc
  have hunary := follows_unary fn hk hk' hn hk hk'
  have hfactor := level isFactorOperator .binary (forward_unary fn n n) hunary fun _ _ _ => rfl
  have hterm := level isTermOperator .binary (forward_factor fn n) hfactor fun _ _ _ => rfl
  have hcomparison := level isComparison .binary (forward_term fn n) hterm fun _ _ _ => rfl
  have hequality := level isEquality .binary (forward_comparison fn n) hcomparison fun _ _ _ => rfl
  have hconjunction := level (· == .andWord) .logical (forward_equality fn n) hequality
    fun _ _ _ => rfl
  exact level (· == .orWord) .logical (forward_conjunction fn n) hconjunction fun _ _ _ => rfl

theorem follows_choice (hn : 0 < k → Follows g c (k - 1) (·.relabel g (· + c)) nested nested')
    {m m' : Nat} (hm : k < m) (hm' : k < m') :
    Follows g c k (·.relabel g (· + c)) (choice nested n m) (choice nested' n' m') := by
  induction hm, hm' using bounds_induction with
  | step k m m' hm hm' ih =>
    rw [choice, choice]
    refine .bind (forward_disjunction fn n) (follows_disjunction fn hk hk' hn) fun condition =>
      .accept _ (fun hpos => ?_) (.pure rfl)
    have hn' : 0 < k - 1 - 1 → Follows g c (k - 1 - 1 - 1) (·.relabel g (· + c)) nested nested' :=
      fun _ => (hn hpos).le (by omega)
    exact .bind (forward_expressionOf fn n)
      (follows_expressionOf fn (by omega) (by omega) (hn hpos)) fun _ =>
        .expect _ _ fun _ _ _ => .bind (forward_choice fn n m)
          (ih (by omega) (by omega) (by omega) (by omega) hn') fun _ => .pure rfl

omit hk hk' in
theorem follows_assignTo (hn : Follows g c k (·.relabel g (· + c)) nested nested')
    (target : Expr) (equals : Token) :
    Follows g c k (·.relabel g (· + c)) (assignTo nested target equals)
      (assignTo nested' (target.relabel g (· + c)) (equals.mapLine g)) := by
  refine .bind fn hn fun value => ?_
  cases target with
  | var id name => exact .pure rfl
  | get object name => exact .pure rfl
  | _ => exact .bind (.record _) (.record _) fun _ => .pure rfl

theorem follows_assignmentOf
    (hn : 0 < k → Follows g c (k - 1) (·.relabel g (· + c)) nested nested') :
    Follows g c k (·.relabel g (· + c)) (assignmentOf nested n) (assignmentOf nested' n') :=
  .bind (forward_choice fn n n) (follows_choice fn hk hk' hn hk hk') fun target =>
    .take? _ (fun equals _ hpos => follows_assignTo fn (hn hpos) target equals) (.pure rfl)

end Rules

theorem follows_assignment {k n n' : Nat} (hk : k < n) (hk' : k < n') :
    Follows g c k (·.relabel g (· + c)) (assignment n) (assignment n') := by
  induction hk, hk' using bounds_induction with
  | step k n n' hk hk' ih =>
    exact follows_assignmentOf (forward_assignment n) hk hk' fun hpos => ih (by omega) (by omega)

theorem follows_expression {k n n' : Nat} (hk : k < n) (hk' : k < n') :
    Follows g c k (·.relabel g (· + c)) (expression n) (expression n') :=
  follows_expressionOf (forward_assignment n) hk hk' (follows_assignment hk hk')

theorem follows_wholeExpression {k n n' : Nat} (hk : k < n) (hk' : k < n') :
    Follows g c k (·.relabel g (· + c)) (wholeExpression n) (wholeExpression n') := by
  refine .bind (forward_expression n) (follows_expression hk hk') fun e =>
    .bind forward_endOfInput (h := fun u => u) ?_ fun _ => .pure rfl
  exact .bind .atEnd .atEnd fun _ => .ite .rfl (.pure rfl) (.bind .peek .peek fun t =>
    .record ⟨t, _⟩)

end Lox.Parse
