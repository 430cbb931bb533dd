import Lox.Proofs.Form.Lines
import Lox.Proofs.Form.Parsed
import Lox.Proofs.Grammar.Sound.Expr
import Lox.Proofs.Tree.Numbered

/-
  What is read is the printed form

  The tokens that are taken for a form are those of the printed form of the
  expression, apart from their lines and the spelling of numbers; the nodes are
  numbered from left to right; and the expression can be written down if the
  tokens are genuine. `Yields rule R` says that the places and the result of
  every successful run of the rule stand in the relation `R`; relations are
  established from the back.
-/

namespace Lox

open Grammar

/-- Two tokens that a form does not tell apart. -/
def Token.Alike (t u : Token) : Prop :=
  t.kind = u.kind ∧ (t.kind = .identifier → t.lexeme = u.lexeme)

theorem Token.Alike.refl (t : Token) : t.Alike t := ⟨rfl, fun _ => rfl⟩

theorem Token.alike_fixed {t : Token} {kind : Kind} (h : t.kind = kind)
    (hkind : kind ≠ .identifier) : t.Alike (.fixed kind) :=
  ⟨h, fun hid => absurd (h.symm.trans hid) hkind⟩

theorem Token.alike_name {t : Token} {name : String} (h : t.kind = .identifier)
    (hname : (t.lexeme == name) = true) : t.Alike (.name name) :=
  ⟨h, fun _ => eq_of_beq hname⟩

/-- `Consumes expected ts rest`: in front of `rest`, the tokens are like the expected
ones. -/
def Consumes (expected ts rest : List Token) : Prop :=
  ∃ front, ts = front ++ rest ∧ List.Forall₂ Token.Alike front expected

namespace Consumes

theorem nil (ts : List Token) : Consumes [] ts ts := ⟨[], rfl, .nil⟩

theorem cons {t u : Token} {us ts rest : List Token} (h : t.Alike u) (hs : Consumes us ts rest) :
    Consumes (u :: us) (t :: ts) rest := by
  obtain ⟨front, rfl, hfront⟩ := hs
  exact ⟨t :: front, rfl, .cons h hfront⟩

theorem append {us vs ts ts' rest : List Token} (h : Consumes us ts ts')
    (h' : Consumes vs ts' rest) : Consumes (us ++ vs) ts rest := by
  obtain ⟨front, rfl, hfront⟩ := h
  obtain ⟨back, rfl, hback⟩ := h'
  exact ⟨front ++ back, (List.append_assoc ..).symm, List.rel_append hfront hback⟩

theorem suffix {us ts rest : List Token} (h : Consumes us ts rest) : rest <:+ ts := by
  obtain ⟨front, rfl, _⟩ := h
  exact List.suffix_append front rest

end Consumes

namespace Form

open Parse

/-! ## Runs with a result -/

/-- Every run with a result keeps `R`. -/
def Yields {α : Type} (rule : Parser α) (R : Place → α → Place → Prop) : Prop :=
  ∀ s a t, rule s = .ok a t → R s.place a t.place

namespace Yields

variable {α β : Type} {T : Place → β → Place → Prop}

theorem pure {b : β} (h : ∀ p, T p b p) : Yields (Pure.pure b : Parser β) T := by
  intro s a t hr
  cases hr
  exact h _

theorem mono {R : Place → β → Place → Prop} {rule : Parser β} (h : Yields rule R)
    (hrt : ∀ p b q, R p b q → T p b q) : Yields rule T := fun s b t hr => hrt _ _ _ (h s b t hr)

theorem fail (problem : SyntaxProblem) : Yields (Parse.fail problem : Parser β) T := by
  intro s b t hr
  cases hr

theorem throw (e : SyntaxError) : Yields (MonadExcept.throw e : Parser β) T := by
  intro s b t hr
  cases hr

theorem bind {x : Parser α} {f : α → Parser β} {R : Place → α → Place → Prop} (hx : Yields x R)
    (hf : ∀ a, Yields (f a) fun q b r => ∀ p, R p a q → T p b r) : Yields (x >>= f) T := by
  intro s b u hr
  obtain ⟨a, t, h₁, h₂⟩ := ok_of_bind hr
  exact hf a t b u h₂ _ (hx s a t h₁)

theorem ite {c : Prop} [Decidable c] {x y : Parser β} (hx : c → Yields x T)
    (hy : ¬c → Yields y T) : Yields (if c then x else y) T := by
  by_cases h : c
  · rw [if_pos h]; exact hx h
  · rw [if_neg h]; exact hy h

theorem check (p : Kind → Bool) {f : Bool → Parser β} (h : ∀ b, Yields (f b) T) :
    Yields (Parse.check p >>= f) T := by
  intro s b u hr
  obtain ⟨a, t, h₁, h₂⟩ := ok_of_bind hr
  have ht : t = s := by
    rw [Parse.check] at h₁
    split at h₁ <;> cases h₁ <;> rfl
  subst ht
  exact h a t b u h₂

theorem take? {p : Kind → Bool} {f : Option Token → Parser β}
    (hs : ∀ t : Token, p t.kind = true →
      Yields (f (some t)) fun q b r => T ⟨t :: q.tokens, q.nextId⟩ b r)
    (hn : Yields (f none) T) : Yields (Parse.take? p >>= f) T := by
  intro s b u hr
  obtain ⟨a, v, h₁, h₂⟩ := ok_of_bind hr
  rw [Parse.take?] at h₁
  split at h₁
  · rename_i t ts hrest
    split at h₁
    · rename_i hp
      cases h₁
      have := hs t hp _ b u h₂
      rwa [ParseState.place, hrest]
    · cases h₁
      exact hn s b u h₂
  · cases h₁
    exact hn s b u h₂

theorem next {f : Token → Parser β}
    (h : ∀ t, Yields (f t) fun q b r => T ⟨t :: q.tokens, q.nextId⟩ b r) :
    Yields (Form.next >>= f) T := by
  refine .bind (R := fun p t q => p = ⟨t :: q.tokens, q.nextId⟩) ?_ fun t => ?_
  · exact take? (fun t _ => .pure fun _ => rfl) (.fail _)
  · rintro s b u hr _ rfl
    exact h t s b u hr

theorem expect {K : Kind} {problem : SyntaxProblem} {f : Token → Parser β}
    (h : ∀ t : Token, t.kind = K → Yields (f t) fun q b r => T ⟨t :: q.tokens, q.nextId⟩ b r) :
    Yields (Parse.expect K problem >>= f) T := by
  intro s b u hr
  obtain ⟨a, v, h₁, h₂⟩ := ok_of_bind hr
  rw [Parse.expect] at h₁
  split at h₁
  · rename_i t ts hrest
    split at h₁
    · rename_i hk
      cases h₁
      have := h _ hk _ b u h₂
      rwa [ParseState.place, hrest]
    · cases h₁
  · cases h₁

theorem freshId {f : Nat → Parser β}
    (h : ∀ n, Yields (f n) fun q b r => q.nextId = n + 1 → T ⟨q.tokens, n⟩ b r) :
    Yields (Parse.freshId >>= f) T := by
  intro s b u hr
  obtain ⟨a, t, h₁, h₂⟩ := ok_of_bind hr
  cases h₁
  exact h s.nextId { s with nextId := s.nextId + 1 } b u h₂ rfl

end Yields

/-! ## The rules -/

/-- `Covers back p e q`: between `p` and `q` stands the printed form of `e`, except
that its last tokens `back` are still to be read. -/
structure Covers (back : List Token) (p : Place) (e : Expr) (q : Place) : Prop where
  tokens : ∃ front, e.formTokens = front ++ back ∧ Consumes front p.tokens q.tokens
  numbered : e.Numbered p.nextId q.nextId
  readable : AllGenuine p.tokens → e.Finite → e.Readable

/-- A list without its closing parenthesis. -/
abbrev CoversOpen : Place → Expr → Place → Prop := Covers [.fixed .rightParen]

theorem Covers.consumes {p q : Place} {e : Expr} (h : Covers [] p e q) :
    Consumes e.formTokens p.tokens q.tokens := by
  obtain ⟨front, htokens, hfront⟩ := h.tokens
  rwa [htokens, List.append_nil]

/-- What is in parentheses is read but for the closing one. -/
theorem CoversOpen.of_tokens {opening : Token} {ts body : List Token} {n : Nat} {e : Expr}
    {q : Place} (ho : opening.kind = .leftParen) (htokens : e.formTokens = inParens body)
    (hbody : Consumes body ts q.tokens) (hnumbered : e.Numbered n q.nextId)
    (hreadable : AllGenuine ts → e.Finite → e.Readable) : CoversOpen ⟨opening :: ts, n⟩ e q where
  tokens := ⟨_, htokens, .cons (Token.alike_fixed ho (by decide)) hbody⟩
  numbered := hnumbered
  readable hp := hreadable hp.tail

/-- A form of one token. -/
theorem Covers.atom {t : Token} {ts : List Token} {n k : Nat} {e : Expr} {u : Token}
    (htokens : e.formTokens = [u]) (h : t.Alike u) (hnumbered : e.Numbered n k)
    (hreadable : t.Genuine → e.Finite → e.Readable) : Covers [] ⟨t :: ts, n⟩ e ⟨ts, k⟩ where
  tokens := ⟨[u], htokens, .cons h (.nil _)⟩
  numbered := hnumbered
  readable hp := hreadable hp.head

theorem yields_closing (e : Expr) :
    Yields (closing e) fun q a r => ∀ p, CoversOpen p e q → Covers [] p a r := by
  refine .expect fun t ht => .pure fun q p h => ⟨?_, h.numbered, h.readable⟩
  obtain ⟨front, htokens, hfront⟩ := h.tokens
  refine ⟨front ++ [.fixed .rightParen], by rw [htokens, List.append_nil], hfront.append ?_⟩
  exact .cons (Token.alike_fixed ht (by decide)) (.nil _)

theorem mem_binaryKinds_of_isBinaryHead {kind : Kind} (h : isBinaryHead kind = true) :
    kind ∈ Expr.binaryKinds := by
  cases kind <;> simp_all [isBinaryHead, Expr.binaryKinds]

/-- What is read of the last forms of a list and its closing parenthesis. -/
structure CoversRest (p : Place) (rest : List Expr × Token) (q : Place) : Prop where
  tokens : Consumes (Expr.tailTokens rest.1 ++ [.fixed .rightParen]) p.tokens q.tokens
  numbered : Expr.AllNumbered rest.1 p.nextId q.nextId
  readable : AllGenuine p.tokens → Expr.AllFinite rest.1 → Expr.AllReadable rest.1
  paren : AllGenuine p.tokens → Expr.HasToken rest.2 [.rightParen]

section Rules

variable {nested : Parser Expr} (hn : Yields nested (Covers []))
include hn

theorem yields_remaining (n : Nat) :
    Yields (remaining nested n) CoversRest := by
  induction n with
  | zero => exact .fail _
  | succ n ih =>
    rw [remaining]
    refine .take? (fun t ht => .pure fun p => ?_) (.bind hn fun first => .bind ih fun rest => ?_)
    · have hk := eq_of_beq ht
      exact ⟨.cons (Token.alike_fixed hk (by decide)) (.nil _), rfl, fun _ _ => trivial,
        fun hp => ⟨hp.head, by simp [hk]⟩⟩
    · obtain ⟨items, paren⟩ := rest
      refine .pure fun q r hrest p hfirst => ?_
      obtain ⟨htokens, hnumbered, hreadable, hparen⟩ := hrest
      refine ⟨?_, ⟨_, hfirst.numbered, hnumbered⟩, fun hp he => ?_, fun hp => ?_⟩
      · rw [Expr.tailTokens, List.append_assoc]
        exact hfirst.consumes.append htokens
      · exact ⟨hfirst.readable hp he.1, hreadable (hp.suffix hfirst.consumes.suffix) he.2⟩
      · exact hparen (hp.suffix hfirst.consumes.suffix)

theorem yields_assignment {opening equals : Token} (ho : opening.kind = .leftParen)
    (he : equals.kind = .equal) :
    Yields (assignment nested equals) fun p e q =>
      CoversOpen ⟨opening :: equals :: p.tokens, p.nextId⟩ e q := by
  have hequals := Token.alike_fixed he (by decide)
  refine .bind hn fun target => ?_
  cases target with
  | var id name =>
    refine .bind hn fun value => .pure fun r q hvalue p htarget => ?_
    obtain ⟨rfl, hid⟩ := htarget.numbered
    refine .of_tokens ho rfl (.cons hequals (.append htarget.consumes hvalue.consumes))
      ⟨rfl, hid ▸ hvalue.numbered⟩ fun hp hf => ?_
    exact ⟨htarget.readable hp.tail trivial,
      hvalue.readable (hp.tail.suffix htarget.consumes.suffix) hf⟩
  | get object name =>
    refine .bind hn fun value => .pure fun r q hvalue p htarget => ?_
    refine .of_tokens ho rfl (.cons hequals (.append htarget.consumes hvalue.consumes))
      ⟨_, htarget.numbered, hvalue.numbered⟩ fun hp hf => ?_
    obtain ⟨hobject, hname⟩ := htarget.readable hp.tail hf.1
    exact ⟨hobject, hname, hvalue.readable (hp.tail.suffix htarget.consumes.suffix) hf.2⟩
  | _ => exact .throw _

theorem yields_operands {opening operator : Token} {combine : Expr → Expr → Expr}
    (ho : opening.kind = .leftParen)
    (htokens : ∀ a b, (combine a b).formTokens =
      inParens (operator :: (a.formTokens ++ b.formTokens)))
    (hnumbered : ∀ a b n i k, a.Numbered n i → b.Numbered i k → (combine a b).Numbered n k)
    (hreadable : ∀ a b, operator.Genuine → (a.Finite → a.Readable) → (b.Finite → b.Readable) →
      (combine a b).Finite → (combine a b).Readable) :
    Yields (operands nested combine) fun p e q =>
      CoversOpen ⟨opening :: operator :: p.tokens, p.nextId⟩ e q := by
  refine .bind hn fun a => .bind hn fun b => .pure fun r q hb p ha => ?_
  refine .of_tokens ho (htokens a b) (.cons (.refl _) (.append ha.consumes hb.consumes))
    (hnumbered _ _ _ _ _ ha.numbered hb.numbered) fun hp => ?_
  exact hreadable a b hp.head (ha.readable hp.tail)
    (hb.readable (hp.tail.suffix ha.consumes.suffix))

theorem yields_signed {opening operator : Token} (ho : opening.kind = .leftParen)
    (hk : operator.kind ∈ [.bang, .minus]) :
    Yields (signed nested operator) fun p e q =>
      CoversOpen ⟨opening :: operator :: p.tokens, p.nextId⟩ e q := by
  have hbinary : ∀ kind ∈ [Kind.bang, .minus], kind ∈ Expr.binaryKinds := by decide
  refine .bind hn fun first => .check _ fun close => .ite (fun _ => ?_) fun _ => ?_
  · refine .pure fun q p hfirst => ?_
    exact .of_tokens ho rfl (.cons (.refl _) hfirst.consumes) hfirst.numbered fun hp he =>
      ⟨⟨hp.head, hk⟩, hfirst.readable hp.tail he⟩
  · refine .bind hn fun second => .pure fun r q hsecond p hfirst => ?_
    exact .of_tokens ho rfl (.cons (.refl _) (.append hfirst.consumes hsecond.consumes))
      ⟨_, hfirst.numbered, hsecond.numbered⟩ fun hp he =>
      ⟨hfirst.readable hp.tail he.1, ⟨hp.head, hbinary _ hk⟩,
        hsecond.readable (hp.tail.suffix hfirst.consumes.suffix) he.2⟩

theorem yields_list {opening : Token} (ho : opening.kind = .leftParen) (n : Nat) :
    Yields (list nested n) fun p e q => Covers [] ⟨opening :: p.tokens, p.nextId⟩ e q := by
  refine .next fun head => ?_
  dsimp only
  split
  case h_1 hk =>
    refine .ite (fun hgroup => ?_) fun _ => .ite (fun hcall => ?_) fun _ => .throw _
    · refine .bind hn fun inner => (yields_closing _).mono fun q a r h p hinner => h _ ?_
      exact .of_tokens ho rfl (.cons (Token.alike_name hk hgroup) hinner.consumes) hinner.numbered
        fun hp he => hinner.readable hp.tail he
    · refine .bind hn fun callee => .bind (yields_remaining hn n) fun rest => ?_
      obtain ⟨arguments, paren⟩ := rest
      refine .pure fun r q hrest p hcallee => ?_
      obtain ⟨htokens, hnumbered, hreadable, hparen⟩ := hrest
      refine ⟨⟨_, (List.append_nil _).symm, ?_⟩, ⟨_, hcallee.numbered, hnumbered⟩, fun hp he => ?_⟩
      · rw [Expr.formTokens, inParens, List.cons_append, List.append_assoc]
        exact .cons (Token.alike_fixed ho (by decide)) (.cons (Token.alike_name hk hcall)
          (hcallee.consumes.append htokens))
      · have hq := hp.tail.tail.suffix hcallee.consumes.suffix
        exact ⟨hcallee.readable hp.tail.tail he.1, hparen hq, hreadable hq he.2⟩
  case h_2 hk =>
    refine .expect fun method hm => .freshId fun id => (yields_closing _).mono fun q a r h hid =>
      h _ ?_
    exact .of_tokens ho rfl (.cons (Token.alike_fixed hk (by decide)) (.cons (.refl _) (.nil _)))
      ⟨rfl, hid.symm⟩ fun hp _ => ⟨⟨hp.head, by simp [hk]⟩, hp.tail.head, by simp [hm]⟩
  case h_3 hk =>
    refine .bind hn fun object => .expect fun name hname => (yields_closing _).mono
      fun q a r h p hobject => h _ ?_
    exact .of_tokens ho rfl (.cons (Token.alike_fixed hk (by decide)) (.append hobject.consumes
      (.cons (.refl _) (.nil _)))) hobject.numbered fun hp he =>
      ⟨hobject.readable hp.tail he, (hp.tail.suffix hobject.consumes.suffix).head,
        by simp [hname]⟩
  case h_4 hk =>
    exact .bind (yields_assignment hn ho hk) fun e => (yields_closing e).mono
      fun q a r h p => h _
  case h_5 hk =>
    refine .expect fun colon hcolon => .bind hn fun condition => .bind hn fun thenCase =>
      .bind hn fun elseCase => (yields_closing _).mono fun q a r h p₃ helse p₂ hthen p₁ hcondition =>
        h _ ?_
    refine .of_tokens ho rfl (.cons (Token.alike_fixed hk (by decide)) (.cons
      (Token.alike_fixed hcolon (by decide)) (.append hcondition.consumes (.append hthen.consumes
        helse.consumes)))) ⟨_, _, hcondition.numbered, hthen.numbered, helse.numbered⟩
      fun hp he => ?_
    have hp₂ := hp.tail.tail.suffix hcondition.consumes.suffix
    exact ⟨hcondition.readable hp.tail.tail he.1, hthen.readable hp₂ he.2.1,
      helse.readable (hp₂.suffix hthen.consumes.suffix) he.2.2⟩
  case h_6 hk =>
    refine .bind (yields_remaining hn n) fun rest => ?_
    obtain ⟨items, paren⟩ := rest
    refine .pure fun q p hrest => ?_
    obtain ⟨htokens, hnumbered, hreadable, _⟩ := hrest
    refine ⟨⟨_, (List.append_nil _).symm, ?_⟩, hnumbered, fun hp => hreadable hp.tail.tail⟩
    exact .cons (Token.alike_fixed ho (by decide)) (.cons (Token.alike_fixed hk (by decide)) htokens)
  case h_7 hk | h_8 hk =>
    refine .bind (yields_operands hn ho (fun _ _ => rfl) (fun _ _ _ i _ ha hb => ⟨i, ha, hb⟩)
      fun a b hgenuine ha hb he => ⟨ha he.1, ⟨hgenuine, by simp [hk]⟩, hb he.2⟩) fun e =>
      (yields_closing e).mono fun q a r h p => h _
  case h_9 hk | h_10 hk =>
    exact .bind (yields_signed hn ho (by simp [hk])) fun e => (yields_closing e).mono
      fun q a r h p => h _
  case h_11 =>
    refine .ite (fun hk => ?_) fun _ => .throw _
    exact .bind (yields_operands hn ho (fun _ _ => rfl) (fun _ _ _ i _ ha hb => ⟨i, ha, hb⟩)
      fun a b hgenuine ha hb he =>
        ⟨ha he.1, ⟨hgenuine, mem_binaryKinds_of_isBinaryHead hk⟩, hb he.2⟩) fun e =>
      (yields_closing e).mono fun q a r h p => h _

theorem yields_formOf (n : Nat) : Yields (formOf nested n) (Covers []) := by
  refine .next fun t => ?_
  split
  case h_1 value hk =>
    exact .pure fun p => .atom rfl ⟨hk, fun hid => by simp [hk] at hid⟩ rfl
      fun ht => ht.readable_number hk
  case h_2 text hk =>
    exact .pure fun p => .atom rfl ⟨hk, fun hid => by simp [hk] at hid⟩ rfl
      fun ht _ => ht.readable_string hk
  case h_3 hk | h_4 hk | h_5 hk =>
    exact .pure fun p => .atom rfl (Token.alike_fixed hk (by decide)) rfl fun _ _ => trivial
  case h_6 hk =>
    refine .freshId fun id => .pure fun p hid => ?_
    exact .atom rfl (Token.alike_fixed hk (by decide)) ⟨rfl, hid.symm⟩ fun ht _ => ⟨ht, by simp [hk]⟩
  case h_7 hk =>
    refine .freshId fun id => .pure fun p hid => ?_
    exact .atom rfl (.refl t) ⟨rfl, hid.symm⟩ fun ht _ => ⟨ht, by simp [hk]⟩
  case h_8 hk => exact yields_list hn hk n
  case h_9 => exact .throw _

end Rules

/-- What is taken for a form is the printed form of the expression. -/
theorem yields_form (n : Nat) : Yields (form n) (Covers []) := by
  induction n with
  | zero => exact .fail _
  | succ n ih => exact yields_formOf ih (n + 1)

end Form
end Lox
