import Lox.Proofs.Form.Read
import Lox.Proofs.Grammar.Complete.Expr

/-
  Printed forms are read back

  `Rereads tokens e n k`: wherever the tokens stand, they are read as `e`, with
  node ids from `n` up to `k`. Each rule of the forms gives the forms it reads in
  this way; an expression that can be written down, without its lines, is one of
  them.
-/

namespace Lox.Form

open Grammar Parse

section Steps

variable {s : ParseState} {t : Token} {ts rest : List Token} {n k : Nat} {e : Expr}

theorem next_at : next (s.at ⟨t :: ts, n⟩) = .ok t (s.at ⟨ts, n⟩) :=
  (bind_of_ok (take?_at (f := fun _ => true) rfl)).trans rfl

theorem closing_at :
    closing e (s.at ⟨.fixed .rightParen :: ts, n⟩) = .ok e (s.at ⟨ts, n⟩) :=
  (bind_of_ok (expect_at (t := .fixed .rightParen) rfl)).trans rfl

end Steps

/-- Tokens that are read as an expression, with the ids from `n` up to `k`. -/
structure Rereads (tokens : List Token) (e : Expr) (n k : Nat) : Prop where
  begins : ∃ t ts, tokens = t :: ts ∧ t.kind ≠ .rightParen
  run : ∀ (fuel : Nat) (s : ParseState) (rest : List Token), tokens.length ≤ fuel →
    form fuel (s.at ⟨tokens ++ rest, n⟩) = .ok e (s.at ⟨rest, k⟩)

/-- Tokens that are read as the rest of a list. -/
def RereadsAll (tokens : List Token) (items : List Expr) (n k : Nat) : Prop :=
  ∀ (fuel count : Nat) (s : ParseState) (rest : List Token), tokens.length ≤ fuel →
    tokens.length < count →
    remaining (form fuel) count (s.at ⟨tokens ++ .fixed .rightParen :: rest, n⟩) =
      .ok (items, .fixed .rightParen) (s.at ⟨rest, k⟩)

namespace Rereads

variable {ts us vs : List Token} {a b c e : Expr} {n i j k : Nat}

/-- A form of one token. -/
theorem atom {t : Token} (ht : t.kind ≠ .rightParen)
    (h : ∀ (fuel : Nat) (s : ParseState) (rest : List Token),
      formOf (form fuel) (fuel + 1) (s.at ⟨t :: rest, n⟩) = .ok e (s.at ⟨rest, k⟩)) :
    Rereads [t] e n k where
  begins := ⟨t, [], rfl, ht⟩
  run fuel s rest hl := by
    cases fuel with
    | zero => simp at hl
    | succ fuel => exact h fuel s rest

/-- The next token is not the end of a list. -/
theorem ends (h : Rereads ts e n k) (rest : List Token) :
    Place.Ends ⟨ts ++ rest, n⟩ (· == .rightParen) := by
  obtain ⟨t, ts, rfl, ht⟩ := h.begins
  rintro _ ⟨⟩
  simpa using ht

/-- A form in parentheses is a list. -/
theorem parens {head : Token} {body : List Token}
    (h : ∀ (fuel : Nat) (s : ParseState) (rest : List Token), body.length ≤ fuel →
      list (form fuel) (fuel + 1) (s.at ⟨head :: (body ++ .fixed .rightParen :: rest), n⟩) =
        .ok e (s.at ⟨rest, k⟩)) : Rereads (inParens (head :: body)) e n k where
  begins := ⟨_, _, rfl, nofun⟩
  run fuel s rest hl := by
    simp only [inParens, List.length_cons, List.length_append, List.length_nil] at hl
    cases fuel with
    | zero => omega
    | succ fuel =>
      rw [inParens, List.cons_append, List.append_assoc]
      exact (bind_of_ok next_at).trans (h fuel s rest (by omega))

theorem group (h : Rereads ts e n k) :
    Rereads (inParens (.name "group" :: ts)) (.group e) n k := by
  refine parens fun fuel s rest hl => (bind_of_ok next_at).trans ?_
  simp only [Token.name, beq_self_eq_true]
  exact (bind_of_ok (h.run fuel s _ hl)).trans closing_at

theorem property {name : Token} (hname : name.kind = .identifier) (h : Rereads ts e n k) :
    Rereads (inParens (.fixed .dot :: (ts ++ [name]))) (.get e name) n k := by
  refine parens fun fuel s rest hl => (bind_of_ok next_at).trans ?_
  rw [List.length_append] at hl
  rw [List.append_assoc]
  exact (bind_of_ok (h.run fuel s _ (by omega))).trans
    ((bind_of_ok (expect_at hname)).trans closing_at)

theorem super {method : Token} (hm : method.kind = .identifier) :
    Rereads (inParens [.fixed .superWord, method]) (.super n (.fixed .superWord) method) n
      (n + 1) :=
  parens fun _ _ _ _ => (bind_of_ok next_at).trans ((bind_of_ok (expect_at hm)).trans
    ((bind_of_ok freshId_at).trans closing_at))

theorem choice (hc : Rereads ts a n i) (ht : Rereads us b i j) (he : Rereads vs c j k) :
    Rereads (inParens (.fixed .question :: .fixed .colon :: (ts ++ (us ++ vs))))
      (.choice a b c) n k := by
  refine parens fun fuel s rest hl => (bind_of_ok next_at).trans ?_
  simp only [List.length_cons, List.length_append] at hl
  rw [List.cons_append, List.append_assoc, List.append_assoc]
  exact (bind_of_ok (expect_at (t := .fixed .colon) rfl)).trans
    ((bind_of_ok (hc.run fuel s _ (by omega))).trans
      ((bind_of_ok (ht.run fuel s _ (by omega))).trans
        ((bind_of_ok (he.run fuel s _ (by omega))).trans closing_at)))

/-- An assignment behind its equals sign. -/
theorem equals
    (hassign : ∀ (fuel : Nat) (s : ParseState) (rest : List Token), ts.length ≤ fuel →
      assignment (form fuel) (.fixed .equal) (s.at ⟨ts ++ rest, n⟩) = .ok e (s.at ⟨rest, k⟩)) :
    Rereads (inParens (.fixed .equal :: ts)) e n k := by
  refine parens fun fuel s rest hl => (bind_of_ok next_at).trans ?_
  exact (bind_of_ok (hassign fuel s _ hl)).trans closing_at

theorem var {name : Token} (hname : name.kind = .identifier) :
    Rereads [name] (.var n name) n (n + 1) := by
  refine atom (by simp [hname]) fun fuel s rest => (bind_of_ok next_at).trans ?_
  simp only [hname]
  exact (bind_of_ok freshId_at).trans rfl

theorem assign {name : Token} (hname : name.kind = .identifier) (h : Rereads ts e (n + 1) k) :
    Rereads (inParens (.fixed .equal :: name :: ts)) (.assign n name e) n k := by
  refine equals fun fuel s rest hl => ?_
  rw [List.length_cons] at hl
  exact (bind_of_ok ((var hname).run fuel s (ts ++ rest) (by simp; omega))).trans
    ((bind_of_ok (h.run fuel s rest (by omega))).trans rfl)

theorem set {name : Token} (hobject : Rereads ts (.get a name) n i) (h : Rereads us e i k) :
    Rereads (inParens (.fixed .equal :: (ts ++ us))) (.set a name e) n k := by
  refine equals fun fuel s rest hl => ?_
  rw [List.length_append] at hl
  rw [List.append_assoc]
  exact (bind_of_ok (hobject.run fuel s _ (by omega))).trans
    ((bind_of_ok (h.run fuel s _ (by omega))).trans rfl)

/-- Both operands of an operator. -/
theorem operands_at {combine : Expr → Expr → Expr} {fuel : Nat} {s : ParseState}
    {rest : List Token} (ha : Rereads ts a n i) (hb : Rereads us b i k)
    (hl : (ts ++ us).length ≤ fuel) :
    operands (form fuel) combine (s.at ⟨ts ++ (us ++ rest), n⟩) =
      .ok (combine a b) (s.at ⟨rest, k⟩) := by
  rw [List.length_append] at hl
  exact (bind_of_ok (ha.run fuel s _ (by omega))).trans
    ((bind_of_ok (hb.run fuel s _ (by omega))).trans rfl)

theorem logical {operator : Token} (hk : operator.kind ∈ [.andWord, .orWord])
    (ha : Rereads ts a n i) (hb : Rereads us b i k) :
    Rereads (inParens (operator :: (ts ++ us))) (.logical a operator b) n k := by
  refine parens fun fuel s rest hl => (bind_of_ok next_at).trans ?_
  rw [List.append_assoc]
  simp only [List.mem_cons, List.not_mem_nil, or_false] at hk
  obtain hk | hk := hk
  all_goals
    simp only [hk]
    exact (bind_of_ok (operands_at ha hb hl)).trans closing_at

/-- A sign with one operand. -/
theorem unary {operator : Token} (hk : operator.kind ∈ [.bang, .minus]) (h : Rereads ts e n k) :
    Rereads (inParens (operator :: ts)) (.unary operator e) n k := by
  refine parens fun fuel s rest hl => (bind_of_ok next_at).trans ?_
  have hsigned : signed (form fuel) operator (s.at ⟨ts ++ .fixed .rightParen :: rest, n⟩) =
      .ok (.unary operator e) (s.at ⟨.fixed .rightParen :: rest, k⟩) :=
    (bind_of_ok (h.run fuel s _ hl)).trans ((bind_of_ok check_at).trans rfl)
  simp only [List.mem_cons, List.not_mem_nil, or_false] at hk
  obtain hk | hk := hk
  all_goals
    simp only [hk]
    exact (bind_of_ok hsigned).trans closing_at

/-- A sign with two operands: the second one does not end the list. -/
theorem signed_at {operator : Token} {fuel : Nat} {s : ParseState} {rest : List Token}
    (ha : Rereads ts a n i) (hb : Rereads us b i k) (hl : (ts ++ us).length ≤ fuel) :
    signed (form fuel) operator (s.at ⟨ts ++ (us ++ rest), n⟩) =
      .ok (.binary a operator b) (s.at ⟨rest, k⟩) := by
  rw [List.length_append] at hl
  exact (bind_of_ok (ha.run fuel s _ (by omega))).trans ((bind_of_ok (check_ends (hb.ends rest))).trans
    ((bind_of_ok (hb.run fuel s _ (by omega))).trans rfl))

theorem binary {operator : Token} (hk : operator.kind ∈ Expr.binaryKinds)
    (ha : Rereads ts a n i) (hb : Rereads us b i k) :
    Rereads (inParens (operator :: (ts ++ us))) (.binary a operator b) n k := by
  refine parens fun fuel s rest hl => (bind_of_ok next_at).trans ?_
  rw [List.append_assoc]
  simp only [Expr.binaryKinds, List.mem_cons, List.not_mem_nil, or_false] at hk
  rcases hk with hk | hk | hk | hk | hk | hk | hk | hk | hk | hk | hk
  all_goals
    simp only [hk]
    first
    | exact (bind_of_ok (signed_at ha hb hl)).trans closing_at
    | exact (bind_of_ok (operands_at ha hb hl)).trans closing_at

end Rereads

namespace RereadsAll

variable {ts us : List Token} {e : Expr} {es : List Expr} {n i k : Nat}

theorem nil : RereadsAll [] [] n n := by
  intro fuel count s rest _ hcount
  cases count with
  | zero => omega
  | succ count => exact (bind_of_ok (take?_at (f := (· == .rightParen)) rfl)).trans rfl

theorem cons (h : Rereads ts e n i) (hs : RereadsAll us es i k) :
    RereadsAll (ts ++ us) (e :: es) n k := by
  intro fuel count s rest hfuel hcount
  have hpos : 0 < ts.length := by
    obtain ⟨t, ts, rfl, _⟩ := h.begins
    exact Nat.succ_pos _
  rw [List.length_append] at hfuel hcount
  rw [List.append_assoc]
  cases count with
  | zero => omega
  | succ count =>
    exact (bind_of_ok (take?_ends (h.ends _))).trans
      ((bind_of_ok (h.run fuel s _ (by omega))).trans
        ((bind_of_ok (hs fuel count s rest (by omega) (by omega))).trans rfl))

end RereadsAll

namespace Rereads

variable {ts us : List Token} {e : Expr} {es : List Expr} {n i k : Nat}

theorem comma (hs : RereadsAll us es n k) :
    Rereads (inParens (.fixed .comma :: us)) (.comma es) n k :=
  parens fun fuel s rest hl => (bind_of_ok next_at).trans
    ((bind_of_ok (hs fuel (fuel + 1) s rest hl (Nat.lt_succ_of_le hl))).trans rfl)

theorem call (h : Rereads ts e n i) (hs : RereadsAll us es i k) :
    Rereads (inParens (.name "call" :: (ts ++ us))) (.call e (.fixed .rightParen) es) n k := by
  refine parens fun fuel s rest hl => (bind_of_ok next_at).trans ?_
  have hcall : ("call" == "group") = false := by decide
  rw [List.length_append] at hl
  rw [List.append_assoc]
  simp only [Token.name, hcall, beq_self_eq_true, Bool.false_eq_true, if_false, if_true]
  exact (bind_of_ok (h.run fuel s _ (by omega))).trans
    ((bind_of_ok (hs fuel (fuel + 1) s rest (by omega) (by omega))).trans rfl)

end Rereads

/-! ## Expressions that can be written down -/

/-- A token of a kind with one spelling, without its line. -/
theorem unlined_eq_fixed {t : Token} {kind : Kind} (h : Expr.HasToken t [kind]) {text : String}
    (hkind : kind.spelling? = some text) : t.unlined = .fixed kind := by
  have hk : t.kind = kind := by simpa using h.2
  have hlexeme := h.1.spelled text (hk ▸ hkind)
  rw [Token.unlined, Token.mapLine, hlexeme, Token.fixed, hkind, hk]
  rfl

mutual

theorem rereads : (e : Expr) → e.Readable → ∀ {n k : Nat}, e.Numbered n k →
    Rereads e.unlined.formTokens e.unlined n k
  | .number value, _, _, _, rfl => .atom nofun fun _ _ _ => (bind_of_ok next_at).trans rfl
  | .string text, _, _, _, rfl => .atom nofun fun _ _ _ => (bind_of_ok next_at).trans rfl
  | .boolean true, _, _, _, rfl => .atom nofun fun _ _ _ => (bind_of_ok next_at).trans rfl
  | .boolean false, _, _, _, rfl => .atom nofun fun _ _ _ => (bind_of_ok next_at).trans rfl
  | .nil, _, _, _, rfl => .atom nofun fun _ _ _ => (bind_of_ok next_at).trans rfl
  | .group inner, h, _, _, hn => .group (rereads inner h hn)
  | .unary operator operand, ⟨ho, h⟩, _, _, hn => .unary ho.2 (rereads operand h hn)
  | .binary left operator right, ⟨hl, ho, hr⟩, _, _, ⟨_, hln, hrn⟩ =>
    .binary ho.2 (rereads left hl hln) (rereads right hr hrn)
  | .logical left operator right, ⟨hl, ho, hr⟩, _, _, ⟨_, hln, hrn⟩ =>
    .logical ho.2 (rereads left hl hln) (rereads right hr hrn)
  | .choice condition thenCase elseCase, ⟨hc, ht, he⟩, _, _, ⟨_, _, hcn, htn, hen⟩ =>
    .choice (rereads condition hc hcn) (rereads thenCase ht htn) (rereads elseCase he hen)
  | .comma items, h, _, _, hn => .comma (rereadsAll items h hn)
  | .var _ name, h, _, _, ⟨rfl, rfl⟩ => .var (by simpa using h.2)
  | .assign _ name value, ⟨hname, h⟩, _, _, ⟨rfl, hn⟩ =>
    .assign (by simpa using hname.2) (rereads value h hn)
  | .call callee paren arguments, ⟨hc, hp, ha⟩, _, _, ⟨_, hcn, han⟩ => by
    have := Rereads.call (rereads callee hc hcn) (rereadsAll arguments ha han)
    rwa [← unlined_eq_fixed hp rfl] at this
  | .get object name, ⟨ho, hname⟩, _, _, hn =>
    .property (by simpa using hname.2) (rereads object ho hn)
  | .set object name value, ⟨ho, hname, hv⟩, _, _, ⟨_, hon, hvn⟩ =>
    .set (.property (by simpa using hname.2) (rereads object ho hon)) (rereads value hv hvn)
  | .self _ keyword, h, _, _, ⟨rfl, rfl⟩ => by
    rw [Expr.unlined, Expr.relabel, ← Token.unlined, unlined_eq_fixed h rfl]
    exact .atom nofun fun _ _ _ => (bind_of_ok next_at).trans ((bind_of_ok freshId_at).trans rfl)
  | .super id keyword method, ⟨hk, hm⟩, _, _, ⟨rfl, rfl⟩ => by
    show Rereads (inParens [.fixed .superWord, method.unlined])
      (.super id keyword.unlined method.unlined) id (id + 1)
    rw [unlined_eq_fixed hk rfl]
    exact .super (by simpa using hm.2)

theorem rereadsAll : (es : List Expr) → Expr.AllReadable es → ∀ {n k : Nat},
    Expr.AllNumbered es n k →
    RereadsAll (Expr.tailTokens (Expr.relabelAll (fun _ => 0) (fun i => i) es))
      (Expr.relabelAll (fun _ => 0) (fun i => i) es) n k
  | [], _, _, _, rfl => .nil
  | e :: es, ⟨he, hes⟩, _, _, ⟨_, hn, hns⟩ => .cons (rereads e he hn) (rereadsAll es hes hns)

end

end Lox.Form
