import Lox.Proofs.Grammar.Complete.Expr
import Lox.Proofs.Grammar.Sound.Stmt
import Lox.Proofs.Parse.Strict

/-
  What is derivable is read by the statement rules

  Under the rule of the nearest conditional a statement before an `else` is not
  open, so reading it does not take the `else`. A declaration is followed by
  another one, by the end of its block or by the end of the tokens, none of
  which is an `else`. A fault is recorded and nothing more: a declaration with
  faults is read to its end, and the strict parser reads it as well.
-/

namespace Lox.Parse

open Grammar

/-- The end of a list of declarations: a brace or the end of the tokens. -/
def continuesBlock (kind : Kind) : Bool := kind != .rightBrace

/-- The end of a statement. What comes after an open one is part of
`ReadsStatements`. -/
def continuesStatement (_ : Kind) : Bool := false

theorem ends_continuesStatement {p : Place} : p.Ends continuesStatement := fun _ _ => rfl

theorem ends_continuesBlock {t : Token} {ts : List Token} {n : Nat}
    (h : t.kind = .rightBrace) : Place.Ends ⟨t :: ts, n⟩ continuesBlock := by
  rintro _ ⟨⟩
  rw [h]
  rfl

theorem brace_of_ends {p : Place} (h : p.Ends continuesBlock) :
    ∀ t ∈ p.tokens.head?, t.kind = .rightBrace :=
  fun t ht => bne_eq_false_iff_eq.1 (h t ht)

theorem not_else_of_ends {p : Place} (h : p.Ends continuesBlock) :
    p.Ends (· == .elseWord) := by
  intro t ht
  rw [brace_of_ends h t ht]
  rfl

/-! ## Clauses and lists -/

section Clauses

variable {k n : Nat} (s : ParseState)

/-- The parameters of a function, when `count` others are already read and one comes next. -/
theorem complete_parameters (m : Nat) {count : Nat} {names : List Token} {p q : Spot}
    (hm : p.tokens.length < m) (h : Relaxed.Parameters count p names q) (hne : names ≠ [])
    (hq : q.Ends (· == .comma)) : parameters count m (s.on p) = .ok names (s.on q) := by
  induction m generalizing count names p with
  | zero => exact absurd hm (Nat.not_lt_zero _)
  | succ m ih =>
    rw [parameters]
    cases h with
    | none => exact absurd rfl hne
    | last hname =>
      refine (bind_of_ok limit_on).trans ((bind_of_ok (expect_at hname)).trans ?_)
      exact (bind_of_ok (accept_ends hq)).trans rfl
    | step hname hsep h =>
      simp only [List.length_cons] at hm
      refine (bind_of_ok limit_on).trans ((bind_of_ok (expect_at hname)).trans ?_)
      refine (bind_of_ok (accept_at hsep)).trans ?_
      have hrest := ih (by simp only; omega) h (by cases h <;> exact List.cons_ne_nil _ _)
      exact (bind_of_ok hrest).trans rfl

theorem complete_variableRest {p q : Spot} {d : Stmt} (hl : p.tokens.length ≤ k) (hk : k ≤ n)
    (h : Relaxed.VariableDeclaration p d q) :
    ∃ word ts i fs, p = ⟨⟨word :: ts, i⟩, fs⟩ ∧ word.kind = .varWord ∧
      variableRest n (s.on ⟨⟨ts, i⟩, fs⟩) = .ok d (s.on q) := by
  cases h with
  | plain hword hname hsemicolon =>
    refine ⟨_, _, _, _, rfl, hword, (bind_of_ok (expect_at hname)).trans ?_⟩
    refine (bind_of_ok (afterNext_ends ?_)).trans ((bind_of_ok (expect_at hsemicolon)).trans rfl)
    rintro _ ⟨⟩
    simp [hsemicolon]
  | initialized hword hname hequals he hsemicolon =>
    simp only [List.length_cons] at hl
    refine ⟨_, _, _, _, rfl, hword, (bind_of_ok (expect_at hname)).trans ?_⟩
    have hread := complete_expression (k := n) (n := n) (by omega) s _ _ _ (by simp only; omega) he
      (Place.ends_of_binding (by rw [hsemicolon]; decide))
    refine (bind_of_ok (afterNext_at hequals (map_of_ok hread))).trans ?_
    exact (bind_of_ok (expect_at hsemicolon)).trans rfl

theorem complete_expressionStatement (hk : k ≤ n) :
    Complete k (expressionStatement n) Relaxed.ExpressionStatement continuesStatement := by
  intro s p d q hl h _
  cases h with
  | mk he hsemicolon =>
    refine (bind_of_ok (complete_expression hk s _ _ _ hl he
      (Place.ends_of_binding (by rw [hsemicolon]; decide)))).trans ?_
    exact (bind_of_ok (expect_at hsemicolon)).trans rfl

/-- An expression is left out exactly where the token behind it comes next. -/
theorem complete_optional {K : Kind} {closing : Token} {ts : List Token} {i : Nat}
    {fs : List SyntaxError} {p : Spot} {e : Option Expr} (hl : p.tokens.length ≤ n)
    (h : Relaxed.OptionalExpression p e ⟨⟨closing :: ts, i⟩, fs⟩) (hclosing : closing.kind = K)
    (hbinding : binding K = 0) (hK : Level.expression.begins K = false) :
    unlessNext K none (some <$> expression n) (s.on p) =
      .ok e (s.on ⟨⟨closing :: ts, i⟩, fs⟩) := by
  cases h with
  | absent => exact unlessNext_at hclosing
  | present h =>
    have hread := complete_expression (Nat.le_refl n) s _ _ _ hl h
      (Place.ends_of_binding (by rw [hclosing, hbinding]; decide))
    exact unlessNext_ends (h.ends (ne_of_class hK)) (map_of_ok hread)

/-- A condition in parentheses is read, and then what comes behind it. -/
theorem complete_condition {α : Type} {f : Expr → Parser α} {missing unclosed : SyntaxProblem}
    {opening closing : Token} {ts us : List Token} {i j : Nat} {fs gs : List SyntaxError}
    {condition : Expr} (hl : ts.length ≤ n) (hopening : opening.kind = .leftParen)
    (h : Relaxed.Derives .expression ⟨⟨ts, i⟩, fs⟩ condition ⟨⟨closing :: us, j⟩, gs⟩)
    (hclosing : closing.kind = .rightParen) :
    (do
      let _ ← expect .leftParen missing
      let condition ← expression n
      let _ ← expect .rightParen unclosed
      f condition) (s.on ⟨⟨opening :: ts, i⟩, fs⟩) = f condition (s.on ⟨⟨us, j⟩, gs⟩) := by
  have hread := complete_expression (Nat.le_refl n) s _ _ _ hl h
    (Place.ends_of_binding (by rw [hclosing]; decide))
  exact (bind_of_ok (expect_at hopening)).trans
    ((bind_of_ok hread).trans (bind_of_ok (expect_at hclosing)))

theorem complete_forInitial {p q : Spot} {d : Option Stmt} (hl : p.tokens.length ≤ k) (hk : k ≤ n)
    (h : Relaxed.FirstClause p d q) : forInitial n (s.on p) = .ok d (s.on q) := by
  cases h with
  | absent hsemicolon => exact bind_of_ok (accept_at hsemicolon)
  | varDecl h =>
    obtain ⟨word, ts, i, fs, rfl, hword, hread⟩ := complete_variableRest s hl hk h
    refine (bind_of_ok (accept_ends ?_)).trans ((bind_of_ok (accept_at hword)).trans
      (map_of_ok hread))
    rintro _ ⟨⟩
    simp [hword]
  | expression h =>
    have hends : ∀ K, Level.expression.begins K = false → p.Ends (· == K) := fun K hK =>
      Place.ends_of_begins h.begins (ne_of_class hK)
    refine (bind_of_ok (accept_ends (hends _ rfl))).trans
      ((bind_of_ok (accept_ends (hends _ rfl))).trans (map_of_ok ?_))
    exact complete_expressionStatement hk s _ _ _ hl h ends_continuesStatement

end Clauses

/-! ## Statements and declarations -/

section Rules

variable {nestedStatement : Parser Stmt} {nestedDeclaration : Parser (Option Stmt)} {k n : Nat}

/-- Reading nested statements; after an open one there is no `else`. -/
abbrev ReadsStatements (k : Nat) (rule : Parser Stmt) : Prop :=
  Complete k rule (fun p s q => ∃ o, Relaxed.Statement .nearest p s q o ∧
    (o = true → q.Ends (· == .elseWord))) continuesStatement

/-- Reading nested declarations, none of which is left out. -/
abbrev ReadsDeclarations (k : Nat) (rule : Parser (Option Stmt)) : Prop :=
  Complete k rule (fun p o q => ∃ s, o = some s ∧ Relaxed.Declaration .nearest p s q)
    (· == .elseWord)

theorem complete_declarations (hd : ReadsDeclarations k nestedDeclaration) (m : Nat) (hk : k ≤ m) :
    Complete k (declarations nestedDeclaration m) (Relaxed.Declarations .nearest)
      continuesBlock := by
  induction m generalizing k with
  | zero =>
    intro s p body q hl h _
    cases h with
    | done => rfl
    | step h => exact absurd h.length_lt (by omega)
  | succ m ih =>
    intro s p body q hl h hq
    rw [declarations]
    cases h with
    | done => exact untilBrace_stop (brace_of_ends hq)
    | step h hs =>
      obtain ⟨t, ts, hp, ht⟩ := h.begins
      have hlt := h.length_lt
      have hbrace : (t.kind == .rightBrace) = false := ne_of_class rfl _ ht
      refine (untilBrace_next ⟨t, ?_, ne_of_beq_false hbrace⟩).trans ?_
      · exact congrArg List.head? hp
      refine (bind_of_ok (hd s _ _ _ hl ⟨_, rfl, h⟩ (hs.ends_else (not_else_of_ends hq)))).trans ?_
      refine (bind_of_ok (ih (hd.le (Nat.sub_le k 1)) (by omega) s _ _ _ (by omega) hs hq)).trans rfl

theorem complete_blockRest (hd : ReadsDeclarations (k - 1) nestedDeclaration) (hk : k ≤ n)
    (s : ParseState) {p q : Spot} {body : List Stmt} (hl : p.tokens.length ≤ k)
    (h : Relaxed.Block .nearest p body q) :
    ∃ opening ts i fs, p = ⟨⟨opening :: ts, i⟩, fs⟩ ∧ opening.kind = .leftBrace ∧
      blockRest nestedDeclaration n (s.on ⟨⟨ts, i⟩, fs⟩) = .ok body (s.on q) := by
  cases h with
  | mk hopening h hclosing =>
    simp only [List.length_cons] at hl
    refine ⟨_, _, _, _, rfl, hopening, ?_⟩
    refine (bind_of_ok (complete_declarations hd n (by omega) s _ _ _ (by simp only; omega) h
      (ends_continuesBlock hclosing))).trans ?_
    exact (bind_of_ok (expect_at hclosing)).trans rfl

theorem complete_functionOf (hd : ReadsDeclarations (k - 1) nestedDeclaration) (hk : k ≤ n)
    (kind : Routine) (s : ParseState) {p q : Spot} {f : Function} (hl : p.tokens.length ≤ k)
    (h : Relaxed.Routine .nearest p f q) :
    functionOf nestedDeclaration n kind (s.on p) = .ok f (s.on q) := by
  cases h with
  | @mk name opening closing ts us i j fs gs names body _ hname hopening hnames hclosing h =>
    have hlen := hnames.length_le
    simp only [List.length_cons] at hl hlen
    refine (bind_of_ok (expect_at hname)).trans ((bind_of_ok (expect_at hopening)).trans ?_)
    have hends : Place.Ends ⟨closing :: us, j⟩ (· == .comma) := by rintro _ ⟨⟩; simp [hclosing]
    have hread : unlessNext .rightParen [] (parameters 0 n) (s.on ⟨⟨ts, i⟩, fs⟩) =
        .ok names (s.on ⟨⟨closing :: us, j⟩, gs⟩) := by
      by_cases hne : names = []
      · cases hnames with
        | none => exact unlessNext_at hclosing
        | last | step => cases hne
      · have hnext := complete_parameters s n (by simp only; omega) hnames hne hends
        have hstart := Place.ends_of_begins (hnames.begins hne)
          (ne_of_class (f := (· == .identifier)) (K := .rightParen) rfl)
        exact unlessNext_ends hstart hnext
    obtain ⟨brace, vs, m, hs, hp, hbrace, hbody⟩ := complete_blockRest (k := k - 1)
      (hd.le (Nat.sub_le _ 1)) (n := n) (by omega) s (by simp only; omega) h
    cases hp
    refine (bind_of_ok hread).trans ((bind_of_ok (expect_at hclosing)).trans ?_)
    exact (bind_of_ok (expect_at hbrace)).trans ((bind_of_ok hbody).trans rfl)

theorem complete_methods (hd : ReadsDeclarations (k - 1) nestedDeclaration) (hk : k ≤ n)
    (m : Nat) (hm : k ≤ m) :
    Complete k (methods nestedDeclaration n m) (Relaxed.Routines .nearest) continuesBlock := by
  induction m generalizing k with
  | zero =>
    intro s p body q hl h _
    cases h with
    | done => rfl
    | step h => exact absurd h.length_lt (by omega)
  | succ m ih =>
    intro s p body q hl h hq
    rw [methods]
    cases h with
    | done => exact untilBrace_stop (brace_of_ends hq)
    | step h hs =>
      have hlt := h.length_lt
      have hread := complete_functionOf hd hk .method s hl h
      cases h with
      | mk hname hopening hnames hclosing h =>
      refine (untilBrace_next ⟨_, rfl, by rw [hname]; decide⟩).trans ?_
      refine (bind_of_ok hread).trans ?_
      exact (bind_of_ok (ih (hd.le (Nat.sub_le _ 1)) (by omega) (by omega) s _ _ _ (by omega) hs
        hq)).trans rfl

theorem complete_classRest (hd : ReadsDeclarations (k - 1) nestedDeclaration) (hk : k ≤ n)
    (s : ParseState) {name opening closing : Token} {ts us vs : List Token} {i j m : Nat}
    {fs gs : List SyntaxError} {superclass : Option Expr} {methods : List Function}
    (hl : ts.length ≤ k) (hname : name.kind = .identifier)
    (hparent : Superclass ⟨ts, i⟩ superclass ⟨opening :: us, j⟩)
    (hopening : opening.kind = .leftBrace)
    (h : Relaxed.Routines .nearest ⟨⟨us, j⟩, fs⟩ methods ⟨⟨closing :: vs, m⟩, gs⟩)
    (hclosing : closing.kind = .rightBrace) :
    classRest nestedDeclaration n (s.on ⟨⟨name :: ts, i⟩, fs⟩) =
      .ok (.classDecl name superclass methods) (s.on ⟨⟨vs, m⟩, gs⟩) := by
  have hlen := hparent.length_le
  simp only [List.length_cons] at hlen
  refine (bind_of_ok (expect_at hname)).trans ?_
  have hread : afterNext .less none (some <$> Parse.superclass) (s.on ⟨⟨ts, i⟩, fs⟩) =
      .ok superclass (s.on ⟨⟨opening :: us, j⟩, fs⟩) := by
    cases hparent with
    | absent => exact afterNext_ends (by rintro _ ⟨⟩; simp [hopening])
    | present hless hparent =>
      exact afterNext_at hless (map_of_ok (g := some) ((bind_of_ok (expect_at hparent)).trans rfl))
  refine (bind_of_ok hread).trans ((bind_of_ok (expect_at hopening)).trans ?_)
  refine (bind_of_ok (complete_methods hd hk n hk s _ _ _ (by simp only; omega) h
    (ends_continuesBlock hclosing))).trans ?_
  exact (bind_of_ok (expect_at hclosing)).trans rfl

theorem complete_statementOf (hs : ReadsStatements (k - 1) nestedStatement)
    (hd : ReadsDeclarations (k - 1) nestedDeclaration) (hk : k ≤ n) :
    ReadsStatements k (statementOf nestedStatement nestedDeclaration n) := by
  rintro s p d q hl ⟨o, h, hopen⟩ _
  cases h with
  | expression h =>
    refine (bind_of_ok (take?_ends (Place.ends_of_begins h.begins ?_))).trans ?_
    · intro kind; cases kind <;> simp [startsKeywordStatement, Level.begins, beginsPrimary]
    · exact complete_expressionStatement hk s _ _ _ hl h ends_continuesStatement
  | forLoop hword hopening hinitial hcondition hsemicolon hincrement hclosing hbody =>
    have h₁ := hinitial.length_lt
    have h₂ := hcondition.length_le
    have h₃ := hincrement.length_le
    simp only [List.length_cons] at hl h₁ h₂ h₃
    refine (bind_of_ok (take?_at (by rw [hword]; rfl))).trans ?_
    simp only [hword]
    refine (bind_of_ok (expect_at hopening)).trans ?_
    refine (bind_of_ok (complete_forInitial (k := n) s (by simp only; omega) (by omega) hinitial)).trans ?_
    refine (bind_of_ok (complete_optional s (by omega) hcondition hsemicolon rfl rfl)).trans ?_
    refine (bind_of_ok (expect_at hsemicolon)).trans ?_
    refine (bind_of_ok (complete_optional s (by simp only; omega) hincrement hclosing rfl rfl)).trans ?_
    refine (bind_of_ok (expect_at hclosing)).trans ?_
    refine (bind_of_ok (hs s _ _ _ (by simp only; omega) ⟨_, hbody, hopen⟩
      ends_continuesStatement)).trans ?_
    rw [countingLoop_eq]
    rfl
  | ifThen hword hopening hcondition hclosing hthen =>
    have h₁ := hcondition.length_lt
    simp only [List.length_cons] at hl h₁
    refine (bind_of_ok (take?_at (by rw [hword]; rfl))).trans ?_
    simp only [hword]
    refine (complete_condition s (by omega) hopening hcondition hclosing).trans ?_
    refine (bind_of_ok (hs s _ _ _ (by simp only; omega) ⟨_, hthen, fun _ => hopen rfl⟩
      ends_continuesStatement)).trans ?_
    exact (bind_of_ok (afterNext_ends (hopen rfl))).trans rfl
  | ifElse hword hopening hcondition hclosing hthen helse hclosed hrest =>
    have h₁ := hcondition.length_lt
    have h₂ := hthen.length_lt
    simp only [List.length_cons] at hl h₁ h₂
    obtain rfl := hclosed rfl
    refine (bind_of_ok (take?_at (by rw [hword]; rfl))).trans ?_
    simp only [hword]
    refine (complete_condition s (by omega) hopening hcondition hclosing).trans ?_
    refine (bind_of_ok (hs s _ _ _ (by simp only; omega) ⟨_, hthen, fun h => by cases h⟩
      ends_continuesStatement)).trans ?_
    have hread := hs s _ _ _ (by simp only; omega) ⟨_, hrest, hopen⟩ ends_continuesStatement
    exact (bind_of_ok (afterNext_at helse (map_of_ok hread))).trans rfl
  | print hword he hsemicolon =>
    simp only [List.length_cons] at hl
    refine (bind_of_ok (take?_at (by rw [hword]; rfl))).trans ?_
    simp only [hword]
    refine (bind_of_ok (complete_expression (Nat.le_refl n) s _ _ _ (by simp only; omega) he
      (Place.ends_of_binding (by rw [hsemicolon]; decide)))).trans ?_
    exact (bind_of_ok (expect_at hsemicolon)).trans rfl
  | yield hword hvalue hsemicolon =>
    simp only [List.length_cons] at hl
    refine (bind_of_ok (take?_at (by rw [hword]; rfl))).trans ?_
    simp only [hword]
    refine (bind_of_ok (complete_optional s (by simp only; omega) hvalue hsemicolon rfl rfl)).trans ?_
    exact (bind_of_ok (expect_at hsemicolon)).trans rfl
  | whileLoop hword hopening hcondition hclosing hbody =>
    have h₁ := hcondition.length_lt
    simp only [List.length_cons] at hl h₁
    refine (bind_of_ok (take?_at (by rw [hword]; rfl))).trans ?_
    simp only [hword]
    refine (complete_condition s (by omega) hopening hcondition hclosing).trans ?_
    exact (bind_of_ok (hs s _ _ _ (by simp only; omega) ⟨_, hbody, hopen⟩
      ends_continuesStatement)).trans rfl
  | block h =>
    obtain ⟨opening, ts, i, fs, rfl, hopening, hread⟩ := complete_blockRest hd hk s hl h
    refine (bind_of_ok (take?_at (by rw [hopening]; rfl))).trans ?_
    simp only [hopening]
    exact map_of_ok hread

theorem complete_declarationOf (hs : ReadsStatements (k - 1) nestedStatement)
    (hd : ReadsDeclarations (k - 1) nestedDeclaration) (hk : k ≤ n) :
    Complete k (Strict.declarationOf nestedStatement nestedDeclaration n)
      (Relaxed.Declaration .nearest) (· == .elseWord) := by
  intro s p d q hl h hq
  cases h with
  | classDecl hword hname hparent hopening hmethods hclosing =>
    simp only [List.length_cons] at hl
    refine (bind_of_ok (take?_at (by rw [hword]; rfl))).trans ?_
    simp only [hword]
    exact complete_classRest (k := k - 1) (hd.le (Nat.sub_le _ 1)) (by omega) s (by omega) hname
      hparent hopening hmethods hclosing
  | function hword h =>
    simp only [List.length_cons] at hl
    refine (bind_of_ok (take?_at (by rw [hword]; rfl))).trans ?_
    simp only [hword]
    exact map_of_ok (complete_functionOf (k := k - 1) (hd.le (Nat.sub_le _ 1)) (by omega) _ s
      (by simp only; omega) h)
  | varDecl h =>
    obtain ⟨word, ts, i, fs, rfl, hword, hread⟩ := complete_variableRest s hl hk h
    refine (bind_of_ok (take?_at (by rw [hword]; rfl))).trans ?_
    simp only [hword]
    exact hread
  | statement h =>
    refine (bind_of_ok (take?_ends (Place.ends_of_begins h.begins ?_))).trans ?_
    · intro kind
      cases kind <;> simp [startsDeclaration, beginsStatement, Level.begins, beginsPrimary]
    · exact complete_statementOf hs hd hk s _ _ _ hl ⟨_, h, fun _ => hq⟩ ends_continuesStatement

/-- Declarations up to the end of the tokens are read as a program. -/
theorem complete_declarationsToEnd (hd : ReadsDeclarations k nestedDeclaration) (m : Nat)
    (hm : k ≤ m) (s : ParseState) {p : Spot} {body : List Stmt} {i : Nat} {fs : List SyntaxError}
    (hl : p.tokens.length ≤ k) (h : Relaxed.Declarations .nearest p body ⟨⟨[], i⟩, fs⟩) :
    declarationsToEnd nestedDeclaration m (s.on p) = .ok body (s.on ⟨⟨[], i⟩, fs⟩) := by
  induction m generalizing k p body with
  | zero =>
    cases h with
    | done => rfl
    | step h => exact absurd h.length_lt (by omega)
  | succ m ih =>
    rw [declarationsToEnd]
    cases h with
    | done => rfl
    | step h hs =>
      obtain ⟨t, ts, hp, _⟩ := h.begins
      have hlt := h.length_lt
      refine (bind_of_ok (atEnd_of_cons hp)).trans ?_
      refine (bind_of_ok (hd s _ _ _ hl ⟨_, rfl, h⟩ (hs.ends_else Place.ends_nil))).trans ?_
      exact (bind_of_ok (ih (k := k - 1) (hd.le (Nat.sub_le k 1)) (by omega) (by omega) hs)).trans
        rfl

end Rules

/-! ## With and without recovery -/

/-- Rules that nest as those of the parser do read everything if none leaves out a
declaration that the strict rule reads. -/
theorem complete_nested (rule : Nat → Parser Stmt) (outer : Nat → Parser (Option Stmt))
    (hrule : ∀ n, rule (n + 1) = statementOf (rule n) (outer n) (n + 1))
    (houter : ∀ n {s t d}, Strict.declarationOf (rule n) (outer n) (n + 1) s = .ok d t →
      outer (n + 1) s = .ok (some d) t) {k : Nat} (n : Nat) (hk : k ≤ n) :
    ReadsStatements k (rule n) ∧ ReadsDeclarations k (outer n) := by
  induction n generalizing k with
  | zero =>
    -- without tokens there is nothing to read
    refine ⟨?_, ?_⟩
    · rintro s p d q hl ⟨o, h, _⟩
      exact absurd h.length_lt (by omega)
    · rintro s p _ q hl ⟨d, _, h⟩
      exact absurd h.length_lt (by omega)
  | succ n ih =>
    obtain ⟨hs, hd⟩ := ih (k := k - 1) (by omega)
    refine ⟨hrule n ▸ complete_statementOf hs hd hk, ?_⟩
    rintro s p _ q hl ⟨d, rfl, h⟩ hq
    exact houter n (complete_declarationOf hs hd hk s _ _ _ hl h hq)

theorem complete_statement_declaration {k : Nat} (n : Nat) (hk : k ≤ n) :
    ReadsStatements k (statement n) ∧ ReadsDeclarations k (declaration n) :=
  complete_nested statement declaration (fun _ => rfl) (fun _ => recover_of_ok) n hk

theorem complete_strictly {k : Nat} (n : Nat) (hk : k ≤ n) :
    ReadsStatements k (Strict.statement n) ∧
      ReadsDeclarations k (some <$> Strict.declaration n) :=
  complete_nested Strict.statement (fun n => some <$> Strict.declaration n) (fun _ => rfl)
    (fun _ => map_of_ok) n hk

/-- A declaration of the grammar is read, and nothing is recorded. -/
theorem accepts_declaration {n : Nat} (s : ParseState) {p q : Place} {d : Stmt}
    (hl : p.tokens.length ≤ n) (h : Declaration .nearest p d q) (hq : q.Ends (· == .elseWord)) :
    declaration n (s.at p) = .ok (some d) (s.at q) :=
  (complete_statement_declaration n (Nat.le_refl n)).2 s _ _ _ hl ⟨d, rfl, h.relaxed s.errors⟩ hq

/-- A program with faults is read with recovery and without. -/
theorem complete_program {n : Nat} (s : ParseState) {p : Spot} {body : List Stmt} {i : Nat}
    {fs : List SyntaxError} (hl : p.tokens.length ≤ n)
    (h : Relaxed.Declarations .nearest p body ⟨⟨[], i⟩, fs⟩) :
    program n n (s.on p) = .ok body (s.on ⟨⟨[], i⟩, fs⟩) ∧
      Strict.program n n (s.on p) = .ok body (s.on ⟨⟨[], i⟩, fs⟩) := by
  rw [program_eq]
  exact ⟨complete_declarationsToEnd (complete_statement_declaration n (Nat.le_refl n)).2 n
      (Nat.le_refl n) s hl h,
    complete_declarationsToEnd (complete_strictly n (Nat.le_refl n)).2 n
      (Nat.le_refl n) s hl h⟩

/-- An expression with faults is read as a whole. -/
theorem complete_wholeExpression {n : Nat} (s : ParseState) {p : Spot} {e : Expr} {i : Nat}
    {fs : List SyntaxError} (hl : p.tokens.length ≤ n)
    (h : Relaxed.Derives .expression p e ⟨⟨[], i⟩, fs⟩) :
    wholeExpression n (s.on p) = .ok e (s.on ⟨⟨[], i⟩, fs⟩) :=
  (bind_of_ok (complete_expression (Nat.le_refl n) s _ _ _ hl h Place.ends_nil)).trans rfl

end Lox.Parse
