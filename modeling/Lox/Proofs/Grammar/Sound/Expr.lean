import Lox.Proofs.Grammar.Expr
import Lox.Proofs.Parse.Run

/-
  What the expression rules accept is derivable

  `Sound k rule R` is about runs of `rule` on at most `k` tokens that end with a
  result and leave the list of errors empty: such a run had no errors to begin
  with, and its places and its result stand in the relation `R`. A relation is
  established from the back: what is left to show after a part of a rule is the
  relation of the rest (`Sound.bind`, `Sound.expect` and so on), and a token that
  is taken lowers the number of those that are left.
-/

namespace Lox

open Grammar

/-- The place at which a parser stands. -/
def ParseState.place (s : ParseState) : Place := ⟨s.rest, s.nextId⟩

namespace Parse

/-- Every run on at most `k` tokens that ends without any error keeps `R`. -/
def Sound {α : Type} (k : Nat) (rule : Parser α) (R : Place → α → Place → Prop) : Prop :=
  ∀ s a t, s.rest.length ≤ k → rule s = .ok a t → t.errors = [] →
    s.errors = [] ∧ R s.place a t.place

namespace Sound

variable {α β : Type} {k : Nat} {T : Place → β → Place → Prop}

theorem mono {R S : Place → α → Place → Prop} {rule : Parser α} (h : Sound k rule R)
    (hrs : ∀ p a q, R p a q → S p a q) : Sound k rule S := by
  intro s a t hl hr he
  obtain ⟨hs, hR⟩ := h s a t hl hr he
  exact ⟨hs, hrs _ _ _ hR⟩

/-- Fewer tokens are a special case. -/
theorem le {j : Nat} {rule : Parser β} (h : Sound k rule T) (hj : j ≤ k) : Sound j rule T :=
  fun s a t hl => h s a t (Nat.le_trans hl hj)

theorem pure {b : β} (h : ∀ p, T p b p) : Sound k (Pure.pure b : Parser β) T := by
  intro s a t _ hr he
  cases hr
  exact ⟨he, h _⟩

theorem fail (problem : SyntaxProblem) : Sound k (Parse.fail problem : Parser β) T := by
  intro s a t _ hr
  cases hr

/-- What is left to show after the first part may use what is known of it. -/
theorem bind {x : Parser α} {f : α → Parser β} {R : Place → α → Place → Prop} (fx : Forward x)
    (hx : Sound k x R) (hf : ∀ a, Sound k (f a) fun q b r => ∀ p, R p a q → T p b r) :
    Sound k (x >>= f) T := by
  intro s b u hl hr he
  obtain ⟨a, t, h₁, h₂⟩ := ok_of_bind hr
  obtain ⟨et, hT⟩ := hf a t b u (Nat.le_trans (fx.of_ok h₁).length_le hl) h₂ he
  obtain ⟨es, hR⟩ := hx s a t hl h₁ et
  exact ⟨es, hT _ hR⟩

theorem map {x : Parser α} {g : α → β} {R : Place → α → Place → Prop} (hx : Sound k x R)
    (h : ∀ p a q, R p a q → T p (g a) q) : Sound k (g <$> x) T := by
  intro s b t hl hr he
  obtain ⟨a, h₁, rfl⟩ := ok_of_map hr
  obtain ⟨es, hR⟩ := hx s a t hl h₁ he
  exact ⟨es, h _ _ _ hR⟩

theorem ite {c : Prop} [Decidable c] {x y : Parser β} (hx : c → Sound k x T)
    (hy : ¬c → Sound k y T) : Sound k (if c then x else y) T := by
  by_cases h : c
  · rw [if_pos h]; exact hx h
  · rw [if_neg h]; exact hy h

theorem check (p : Kind → Bool) {f : Bool → Parser β} (h : ∀ b, Sound k (f b) T) :
    Sound k (Parse.check p >>= f) T := by
  intro s b u hl hr he
  obtain ⟨a, t, h₁, h₂⟩ := ok_of_bind hr
  have ht : t = s := by
    rw [Parse.check] at h₁
    split at h₁ <;> cases h₁ <;> rfl
  subst ht
  exact h a t b u hl h₂ he

theorem peek {f : Token → Parser β} (h : ∀ t, Sound k (f t) T) :
    Sound k (Parse.peek >>= f) T := by
  intro s b u hl hr he
  obtain ⟨a, t, h₁, h₂⟩ := ok_of_bind hr
  cases h₁
  exact h _ s b u hl h₂ he

theorem atEnd {f : Bool → Parser β}
    (ht : Sound k (f true) fun p b r => p.tokens = [] → T p b r)
    (hf : Sound k (f false) fun p b r => p.tokens ≠ [] → T p b r) :
    Sound k (Parse.atEnd >>= f) T := by
  intro s b u hl hr he
  obtain ⟨a, t, h₁, h₂⟩ := ok_of_bind hr
  cases h₁
  cases hs : s.rest with
  | nil =>
    rw [hs] at h₂
    obtain ⟨es, hT⟩ := ht s b u hl h₂ he
    exact ⟨es, hT hs⟩
  | cons t ts =>
    rw [hs] at h₂
    obtain ⟨es, hT⟩ := hf s b u hl h₂ he
    exact ⟨es, hT (by rw [ParseState.place, hs]; exact List.cons_ne_nil t ts)⟩

/-- A run in which an error is recorded does not end without errors. -/
theorem record (e : SyntaxError) {f : Unit → Parser β} {S : Place → β → Place → Prop}
    (h : Sound k (f ()) S) : Sound k (Parse.record e >>= f) T := by
  intro s b u hl hr he
  obtain ⟨a, t, h₁, h₂⟩ := ok_of_bind hr
  cases h₁
  obtain ⟨es, _⟩ := h { s with errors := s.errors ++ [e] } b u hl h₂ he
  exact absurd es (by simp)

theorem limit {count : Nat} {problem : SyntaxProblem} {f : Unit → Parser β}
    (h : Sound k (f ()) fun p b r => count < longestList → T p b r) :
    Sound k (Parse.limit count problem >>= f) T := by
  intro s b u hl hr he
  obtain ⟨a, t, h₁, h₂⟩ := ok_of_bind hr
  rw [Parse.limit] at h₁
  split at h₁
  · cases h₁
    obtain ⟨es, _⟩ := h { s with errors := s.errors ++ _ } b u hl h₂ he
    exact absurd es (by simp)
  · rename_i hc
    cases h₁
    obtain ⟨es, hT⟩ := h s b u hl h₂ he
    exact ⟨es, hT (Nat.lt_of_not_le hc)⟩

theorem freshId {f : Nat → Parser β}
    (h : ∀ n, Sound k (f n) fun q b r => q.nextId = n + 1 → T ⟨q.tokens, n⟩ b r) :
    Sound k (Parse.freshId >>= f) T := by
  intro s b u hl hr he
  obtain ⟨a, t, h₁, h₂⟩ := ok_of_bind hr
  cases h₁
  obtain ⟨es, hT⟩ := h s.nextId { s with nextId := s.nextId + 1 } b u hl h₂ he
  exact ⟨es, hT rfl⟩

theorem pos_of_cons {s : ParseState} {t : Token} {ts : List Token} (hl : s.rest.length ≤ k)
    (hs : s.rest = t :: ts) : 0 < k := by
  rw [hs, List.length_cons] at hl
  omega

/-- What is known of a run that begins by taking a token. -/
theorem of_tail {s : ParseState} {t : Token} {ts : List Token} {x : Parser β} {b : β}
    {u : ParseState} (h : Sound (k - 1) x fun q b r => T ⟨t :: q.tokens, q.nextId⟩ b r)
    (hl : s.rest.length ≤ k) (hs : s.rest = t :: ts) (hr : x { s with rest := ts } = .ok b u)
    (he : u.errors = []) : s.errors = [] ∧ T s.place b u.place := by
  have hlen : ts.length ≤ k - 1 := by
    rw [hs, List.length_cons] at hl
    omega
  obtain ⟨es, hT⟩ := h { s with rest := ts } b u hlen hr he
  refine ⟨es, ?_⟩
  rw [ParseState.place, hs]
  exact hT

theorem expect {K : Kind} {problem : SyntaxProblem} {f : Token → Parser β}
    (h : ∀ t : Token, t.kind = K → 0 < k →
      Sound (k - 1) (f t) fun q b r => T ⟨t :: q.tokens, q.nextId⟩ b r) :
    Sound k (Parse.expect K problem >>= f) T := by
  intro s b u hl hr he
  obtain ⟨a, v, h₁, h₂⟩ := ok_of_bind hr
  rw [Parse.expect] at h₁
  split at h₁
  · rename_i t ts hs
    split at h₁
    · rename_i hk
      cases h₁
      exact of_tail (h _ hk (pos_of_cons hl hs)) hl hs h₂ he
    · cases h₁
  · cases h₁

theorem take? {p : Kind → Bool} {f : Option Token → Parser β}
    (hs : ∀ t : Token, p t.kind = true → 0 < k →
      Sound (k - 1) (f (some t)) fun q b r => T ⟨t :: q.tokens, q.nextId⟩ b r)
    (hn : Sound k (f none) T) : Sound k (Parse.take? p >>= f) T := by
  intro s b u hl hr he
  obtain ⟨a, v, h₁, h₂⟩ := ok_of_bind hr
  rw [Parse.take?] at h₁
  split at h₁
  · rename_i t ts hr
    split at h₁
    · rename_i hk
      cases h₁
      exact of_tail (hs t hk (pos_of_cons hl hr)) hl hr h₂ he
    · cases h₁
      exact hn s b u hl h₂ he
  · cases h₁
    exact hn s b u hl h₂ he

theorem accept {K : Kind} {f : Bool → Parser β}
    (ht : ∀ t : Token, t.kind = K → 0 < k →
      Sound (k - 1) (f true) fun q b r => T ⟨t :: q.tokens, q.nextId⟩ b r)
    (hf : Sound k (f false) T) : Sound k (Parse.accept K >>= f) T := by
  intro s b u hl hr he
  obtain ⟨a, v, h₁, h₂⟩ := ok_of_bind hr
  rw [Parse.accept] at h₁
  split at h₁
  · rename_i t ts hs
    split at h₁
    · rename_i hk
      cases h₁
      exact of_tail (ht t hk (pos_of_cons hl hs)) hl hs h₂ he
    · cases h₁
      exact hf s b u hl h₂ he
  · cases h₁
    exact hf s b u hl h₂ he

/-- The optional part behind a token. Without it, the token does not come next. -/
theorem afterNext {K : Kind} {absent : α} {rule : Parser α} {R : Place → α → Place → Prop}
    (h : ∀ t : Token, t.kind = K → 0 < k →
      Sound (k - 1) rule fun q b r => R ⟨t :: q.tokens, q.nextId⟩ b r)
    (hn : ∀ p : Place, p.Ends (· == K) → R p absent p) :
    Sound k (Parse.afterNext K absent rule) R := by
  intro s a t hl hr he
  obtain ⟨b, u, h₁, h₂⟩ := ok_of_bind hr
  rw [Parse.accept] at h₁
  split at h₁
  · rename_i v vs hs
    split at h₁
    · rename_i hk
      cases h₁
      exact of_tail (h _ hk (pos_of_cons hl hs)) hl hs h₂ he
    · rename_i hk
      cases h₁
      cases h₂
      exact ⟨he, hn _ (by simpa [Place.Ends, ParseState.place, hs] using hk)⟩
  · rename_i hs
    cases h₁
    cases h₂
    exact ⟨he, hn _ (by simp [Place.Ends, ParseState.place, hs])⟩

/-- The optional part in front of a token. -/
theorem unlessNext {K : Kind} {absent : α} {rule : Parser α} {R : Place → α → Place → Prop}
    (h : Sound k rule R) (hn : ∀ p, R p absent p) : Sound k (unlessNext K absent rule) R :=
  check _ fun _ => ite (fun _ => pure hn) fun _ => h

end Sound

/-! ## The expression rules -/

theorem isFactorOperator_iff (kind : Kind) :
    isFactorOperator kind = true ↔ kind ∈ Precedence.factor.operators := by
  cases kind <;> simp [isFactorOperator, Precedence.operators]

theorem isTermOperator_iff (kind : Kind) :
    isTermOperator kind = true ↔ kind ∈ Precedence.term.operators := by
  cases kind <;> simp [isTermOperator, Precedence.operators]

theorem isComparison_iff (kind : Kind) :
    isComparison kind = true ↔ kind ∈ Precedence.comparison.operators := by
  cases kind <;> simp [isComparison, Precedence.operators]

theorem isEquality_iff (kind : Kind) :
    isEquality kind = true ↔ kind ∈ Precedence.equality.operators := by
  cases kind <;> simp [isEquality, Precedence.operators]

theorem isConjunction_iff (kind : Kind) :
    (kind == .andWord) = true ↔ kind ∈ Precedence.conjunction.operators := by
  simp [Precedence.operators]

theorem isDisjunction_iff (kind : Kind) :
    (kind == .orWord) = true ↔ kind ∈ Precedence.disjunction.operators := by
  simp [Precedence.operators]

theorem isUnaryOperator_iff (kind : Kind) :
    isUnaryOperator kind = true ↔ kind ∈ [.bang, .minus] := by
  cases kind <;> simp [isUnaryOperator]

theorem sound_leftChain {k : Nat} {l : Precedence} {operand : Parser Expr} (fo : Forward operand)
    (ho : Sound k operand (Derives l.operand)) {p : Kind → Bool}
    (hp : ∀ kind, p kind = true ↔ kind ∈ l.operators) (n : Nat) (left : Expr) :
    Sound k (leftChain operand p l.combine n left) (Chain l left) := by
  induction n generalizing left k with
  | zero => exact .pure fun _ => .done
  | succ n ih =>
    rw [leftChain]
    refine .take? (fun operator hop _ => ?_) (.pure fun _ => .done)
    have ho' := ho.le (Nat.sub_le k 1)
    refine .bind fo ho' fun right => (ih ho' _).mono ?_
    intro q e r hc p hd
    exact .step ((hp _).1 hop) hd hc

theorem sound_leftLevel {k : Nat} {l : Precedence} {operand : Parser Expr} (fo : Forward operand)
    (ho : Sound k operand (Derives l.operand)) {p : Kind → Bool}
    (hp : ∀ kind, p kind = true ↔ kind ∈ l.operators) (n : Nat) :
    Sound k (leftLevel n operand p l.combine) (Derives (.chain l)) := by
  refine .bind fo ho fun first => (sound_leftChain fo ho hp n first).mono ?_
  intro q e r hc p hd
  exact .chain hd hc

section Rules

variable {nested : Parser Expr} (fn : Forward nested) {k n : Nat}
include fn

theorem sound_moreItems (hn : Sound k nested (Derives .assignment)) (m : Nat) :
    Sound k (moreItems nested m) More := by
  induction m generalizing k with
  | zero => exact .pure fun _ => .done
  | succ m ih =>
    rw [moreItems]
    refine .accept (fun separator hsep _ => ?_) (.pure fun _ => .done)
    have hn' := hn.le (Nat.sub_le k 1)
    rw [if_pos rfl]
    refine .bind fn hn' fun item => .bind (forward_moreItems fn m) (ih hn') fun items => .pure ?_
    intro r q hmore p hitem
    exact .step hsep hitem hmore

theorem sound_expressionOf (hn : Sound k nested (Derives .assignment)) (m : Nat) :
    Sound k (expressionOf nested m) (Derives .expression) := by
  refine .bind fn hn fun first => .bind (forward_moreItems fn m) (sound_moreItems fn hn m) ?_
  intro items
  cases items with
  | nil =>
    refine .pure fun r q hmore p hfirst => ?_
    cases hmore
    exact .single hfirst
  | cons item items =>
    exact .pure fun r q hmore p hfirst => .comma hfirst hmore (List.cons_ne_nil item items)

/-- The arguments of a call, when `count` others are already read. -/
theorem sound_arguments (hn : Sound k nested (Derives .assignment)) (count m : Nat) (hm : k < m) :
    Sound k (arguments nested count m) fun p args r =>
      ∃ first items q, args = first :: items ∧ Derives .assignment p first q ∧
        More q items r ∧ count + args.length ≤ longestList := by
  induction m generalizing k count with
  | zero => exact absurd hm (Nat.not_lt_zero k)
  | succ m ih =>
    rw [arguments]
    refine .limit (.bind fn hn fun first => .accept (fun separator hsep hpos => ?_) ?_)
    · have hn' := hn.le (Nat.sub_le k 1)
      rw [if_pos rfl]
      refine .bind (forward_arguments fn _ m) (ih hn' (count + 1) (by omega)) fun more => .pure ?_
      rintro r q ⟨second, items, u, rfl, hsecond, hmore, hlen⟩ p hfirst hc
      refine ⟨first, second :: items, _, rfl, hfirst, .step hsep hsecond hmore, ?_⟩
      simp only [List.length_cons] at hlen ⊢
      omega
    · rw [if_neg Bool.false_ne_true]
      exact .pure fun q p hfirst hc => ⟨first, [], q, rfl, hfirst, .done, hc⟩

theorem sound_finishCall (hn : Sound k nested (Derives .assignment)) (hk : k < n)
    (callee : Expr) :
    Sound k (finishCall nested n callee) fun p e r =>
      ∃ args closing, Arguments p args ⟨closing :: r.tokens, r.nextId⟩ ∧
        closing.kind = .rightParen ∧ e = .call callee closing args := by
  refine .bind (R := Arguments) (.unlessNext _ _ (forward_arguments fn 0 n)) ?_ fun args =>
    .expect fun closing hc _ => .pure ?_
  · refine .unlessNext ((sound_arguments fn hn 0 n hk).mono ?_) fun _ => .none
    rintro p args r ⟨first, items, q, rfl, hfirst, hmore, hlen⟩
    exact .some hfirst hmore (by omega)
  · intro r p hargs
    exact ⟨args, closing, hargs, hc, rfl⟩

theorem sound_suffixes (hn : Sound (k - 1) nested (Derives .assignment)) (hk : k ≤ n) (m : Nat)
    (e : Expr) : Sound k (suffixes nested n m e) (Suffixes e) := by
  induction m generalizing k e with
  | zero => exact .pure fun _ => .done
  | succ m ih =>
    have hn' := hn.le (Nat.sub_le (k - 1) 1)
    have hk' : k - 1 ≤ n := Nat.le_trans (Nat.sub_le k 1) hk
    rw [suffixes]
    refine .accept (fun opening hop _ => ?_) ?_
    · rw [if_pos rfl]
      refine .bind (forward_finishCall fn n e) (sound_finishCall fn hn (by omega) e) fun e' =>
        (ih hn' hk' e').mono ?_
      rintro q e'' r hs p ⟨args, closing, hargs, hc, rfl⟩
      exact .call hop hargs hc hs
    · rw [if_neg Bool.false_ne_true]
      refine .accept (fun dot hdot _ => ?_) ?_
      · rw [if_pos rfl]
        refine .expect fun name hname _ => ((ih hn' hk' _).le (Nat.sub_le _ 1)).mono ?_
        intro q e'' r hs
        exact .property hdot hname hs
      · rw [if_neg Bool.false_ne_true]
        exact .pure fun _ => .done

theorem sound_primaryFrom (hn : Sound k nested (Derives .assignment)) (m : Nat) (t : Token) :
    Sound k (primaryFrom nested m t) fun q e r => Derives .primary ⟨t :: q.tokens, q.nextId⟩ e r := by
  rw [primaryFrom]
  split
  case h_1 ht => exact .pure fun q => .falseWord ht
  case h_2 ht => exact .pure fun q => .trueWord ht
  case h_3 ht => exact .pure fun q => .nilWord ht
  case h_4 value ht => exact .pure fun q => .number ht
  case h_5 text ht => exact .pure fun q => .string ht
  case h_6 ht =>
    refine .expect fun dot hdot _ => .expect fun method hmethod _ => .freshId fun id => .pure ?_
    rintro ⟨ts, _⟩ rfl
    exact .superWord ht hdot hmethod
  case h_7 ht =>
    refine .freshId fun id => .pure ?_
    rintro ⟨ts, _⟩ rfl
    exact .thisWord ht
  case h_8 ht =>
    refine .freshId fun id => .pure ?_
    rintro ⟨ts, _⟩ rfl
    exact .identifier ht
  case h_9 ht =>
    refine .bind (forward_expressionOf fn m) (sound_expressionOf fn hn m) fun inner =>
      .expect fun closing hc _ => .pure ?_
    intro r q hinner
    exact .group ht hinner hc
  case h_10 => exact .fail _

theorem sound_primary (hn : Sound (k - 1) nested (Derives .assignment)) (m : Nat) :
    Sound k (primary nested m) (Derives .primary) :=
  .take? (fun t _ _ => sound_primaryFrom fn hn m t) (.fail _)

theorem sound_call (hn : Sound (k - 1) nested (Derives .assignment)) (hk : k ≤ n) :
    Sound k (call nested n) (Derives .call) := by
  refine .bind (forward_primary fn n) (sound_primary fn hn n) fun e =>
    (sound_suffixes fn hn hk n e).mono ?_
  intro q e' r hs p hprimary
  exact .call hprimary hs

theorem sound_unary (hn : Sound (k - 1) nested (Derives .assignment)) (hk : k ≤ n) (m : Nat) :
    Sound k (unary nested n m) (Derives .unary) := by
  induction m generalizing k with
  | zero => exact .fail _
  | succ m ih =>
    rw [unary]
    refine .take? (fun operator hop _ => ?_) ((sound_call fn hn hk).mono fun _ _ _ => .noUnary)
    have hoperand := ih (hn.le (Nat.sub_le (k - 1) 1)) (Nat.le_trans (Nat.sub_le k 1) hk)
    refine .bind (forward_unary fn n m) hoperand fun operand => .pure ?_
    intro r q hderives
    exact .unary ((isUnaryOperator_iff _).1 hop) hderives

/-- All levels of left-associative operators. -/
theorem sound_disjunction (hn : Sound (k - 1) nested (Derives .assignment)) (hk : k ≤ n) :
    Sound k (disjunction nested n) (Derives (.chain .disjunction)) := by
  have hfactor : Sound k (factor nested n) (Derives (.chain .factor)) :=
    sound_leftLevel (l := .factor) (forward_unary fn n n) (sound_unary fn hn hk n)
      isFactorOperator_iff n
  have hterm : Sound k (term nested n) (Derives (.chain .term)) :=
    sound_leftLevel (l := .term) (forward_factor fn n) hfactor isTermOperator_iff n
  have hcomparison : Sound k (comparison nested n) (Derives (.chain .comparison)) :=
    sound_leftLevel (l := .comparison) (forward_term fn n) hterm isComparison_iff n
  have hequality : Sound k (equality nested n) (Derives (.chain .equality)) :=
    sound_leftLevel (l := .equality) (forward_comparison fn n) hcomparison isEquality_iff n
  have hconjunction : Sound k (conjunction nested n) (Derives (.chain .conjunction)) :=
    sound_leftLevel (l := .conjunction) (forward_equality fn n) hequality
      isConjunction_iff n
  exact sound_leftLevel (l := .disjunction) (forward_conjunction fn n) hconjunction
    isDisjunction_iff n

theorem sound_choice (hn : Sound (k - 1) nested (Derives .assignment)) (hk : k ≤ n) (m : Nat) :
    Sound k (choice nested n m) (Derives .choice) := by
  induction m generalizing k with
  | zero => exact .fail _
  | succ m ih =>
    rw [choice]
    refine .bind (forward_disjunction fn n) (sound_disjunction fn hn hk) fun condition =>
      .accept (fun question hq _ => ?_) ?_
    · rw [if_pos rfl]
      refine .bind (forward_expressionOf fn n) (sound_expressionOf fn hn n) fun thenCase =>
        .expect fun colon hc _ => ?_
      have hn' := (hn.le (Nat.sub_le (k - 1) 1)).le (Nat.sub_le _ 1)
      have helse := ih (k := k - 1 - 1) hn' (by omega)
      refine .bind (forward_choice fn n m) helse fun elseCase => .pure ?_
      intro s r helse q hthen p hcondition
      exact .choice hcondition hq hthen hc helse
    · rw [if_neg Bool.false_ne_true]
      exact .pure fun q p hcondition => .noChoice hcondition

/-- An assignment behind its equals sign: the tree of the left side decides
between variables, properties and errors. -/
theorem sound_assignTo (hn : Sound k nested (Derives .assignment)) (target : Expr)
    {equals : Token} (heq : equals.kind = .equal) :
    Sound k (assignTo nested target equals) fun q e r =>
      ∀ p, Derives .choice p target ⟨equals :: q.tokens, q.nextId⟩ → Derives .assignment p e r := by
  refine .bind fn hn fun value => ?_
  split
  · refine .pure ?_
    rintro r ⟨ts, _⟩ hvalue p htarget
    obtain ⟨hname, rfl, rfl⟩ := (htarget.call_of_choice rfl).of_var
    exact .assignVariable hname heq hvalue
  · refine .pure ?_
    rintro r q hvalue p htarget
    obtain ⟨dot, hdot, hname, hobject⟩ := (htarget.call_of_choice rfl).of_get
    exact .assignProperty hobject hdot hname heq hvalue
  · exact .record _ (.pure (T := fun _ _ _ => True) fun _ => trivial)

theorem sound_assignmentOf (hn : Sound (k - 1) nested (Derives .assignment)) (hk : k ≤ n) :
    Sound k (assignmentOf nested n) (Derives .assignment) := by
  refine .bind (forward_choice fn n n) (sound_choice fn hn hk n) fun target =>
    .take? (fun equals heq _ => ?_) (.pure fun q p => .noAssignment)
  exact sound_assignTo fn hn target (by simpa using heq)

end Rules

/-- Every assignment that is read without an error is derivable. -/
theorem sound_assignment {k : Nat} (n : Nat) (hk : k ≤ n) :
    Sound k (assignment n) (Derives .assignment) := by
  induction n generalizing k with
  | zero => exact .fail _
  | succ n ih =>
    exact sound_assignmentOf (forward_assignment n) (ih (by omega)) hk

theorem sound_expression {k n : Nat} (hk : k ≤ n) :
    Sound k (expression n) (Derives .expression) :=
  sound_expressionOf (forward_assignment n) (sound_assignment n hk) n

end Parse
end Lox
