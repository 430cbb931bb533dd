import Lox.Proofs.Grammar.Sound.Expr
import Lox.Proofs.Grammar.Stmt

/-
  What the statement rules accept is derivable

  A statement is read to its end: if it could take an `else`, no `else` follows
  it (`Closed`). So a conditional that does take one has a body that cannot, and
  the derivations found here are those of the nearest conditional. A declaration
  that is left out leaves an error behind, so it is no part of a run without
  errors.
-/

namespace Lox.Parse

open Grammar

/-- What is read as a statement: after an open one there is no `else`. -/
def ReadStatement (p : Place) (s : Stmt) (q : Place) : Prop :=
  ∃ o, Statement .nearest p s q o ∧ (o = true → q.Ends (· == .elseWord))

/-- What is read as a declaration. -/
def ReadDeclaration (p : Place) (o : Option Stmt) (q : Place) : Prop :=
  ∃ s, o = some s ∧ Declaration .nearest p s q

theorem ReadStatement.closed {p q : Place} {s : Stmt} (h : Statement .nearest p s q false) :
    ReadStatement p s q :=
  ⟨false, h, nofun⟩

/-- A declaration that is left out is no part of a run without errors. -/
theorem Sound.recover {k : Nat} {rule : Parser Stmt} {R : Place → Stmt → Place → Prop}
    (h : Sound k rule R) : Sound k (Parse.recover rule) fun p o q => ∃ s, o = some s ∧ R p s q := by
  intro s o t hl hr he
  cases hrule : rule s with
  | ok a u =>
    rw [recover_of_ok hrule] at hr
    cases hr
    obtain ⟨es, hR⟩ := h s a t hl hrule he
    exact ⟨es, a, rfl, hR⟩
  | error e u =>
    rw [recover_of_error hrule] at hr
    obtain ⟨_, v, h₁, h₂⟩ := ok_of_bind hr
    cases h₁
    have hforward := (Forward.bind Forward.resynchronize fun _ => .pure none).of_ok h₂
    exact absurd (hforward.errors_nil he) (by simp)

/-! ## Clauses and lists -/

/-- The parameters of a function, when `count` others are already read. -/
theorem sound_parameters (count : Nat) {k n : Nat} (hk : k < n) :
    Sound k (parameters count n) fun p names r =>
      ∃ first more ts, names = first :: more ∧ p = ⟨first :: ts, p.nextId⟩ ∧
        first.kind = .identifier ∧ MoreNames ⟨ts, p.nextId⟩ more r ∧
        count + names.length ≤ longestList := by
  induction n generalizing k count with
  | zero => exact absurd hk (Nat.not_lt_zero k)
  | succ n ih =>
    rw [parameters]
    refine .limit (.expect fun first hfirst _ => .accept (fun separator hsep _ => ?_) ?_)
    · rw [if_pos rfl]
      refine .bind (forward_parameters _ n) (ih (count + 1) (by omega)) fun more => .pure ?_
      rintro r ⟨_, _⟩ ⟨second, names, ts, rfl, hq, hsecond, hmore, hlen⟩ hc
      cases hq
      refine ⟨first, second :: names, _, rfl, rfl, hfirst, .step hsep hsecond hmore, ?_⟩
      simp only [List.length_cons] at hlen ⊢
      omega
    · rw [if_neg Bool.false_ne_true]
      exact .pure fun q hc => ⟨first, [], _, rfl, rfl, hfirst, .done, hc⟩

/-- An optional part behind a token of the given kind. -/
inductive Behind {α : Type} (K : Kind) (R : Place → α → Place → Prop) :
    Place → Option α → Place → Prop
  | absent {p : Place} : p.Ends (· == K) → Behind K R p none p
  | present {t : Token} {ts : List Token} {n : Nat} {a : α} {q : Place} :
      t.kind = K → R ⟨ts, n⟩ a q → Behind K R ⟨t :: ts, n⟩ (some a) q

theorem sound_behind {α : Type} {k : Nat} {K : Kind} {rule : Parser α}
    {R : Place → α → Place → Prop} (h : Sound (k - 1) rule R) :
    Sound k (afterNext K none (some <$> rule)) (Behind K R) :=
  .afterNext (fun _ ht _ => .map h fun _ _ _ hR => .present ht hR) fun _ hp => .absent hp

theorem sound_variableRest {k n : Nat} (hk : k ≤ n) :
    Sound k (variableRest n) fun q s r =>
      ∀ word : Token, word.kind = .varWord →
        VariableDeclaration ⟨word :: q.tokens, q.nextId⟩ s r := by
  refine .expect fun name hname _ => .bind (.afterNext _ _ (.map _ (forward_expression n)))
    (sound_behind (sound_expression (by omega))) fun initial =>
    .expect fun semicolon hsemicolon _ => .pure ?_
  intro r q hinitial word hword
  cases hinitial with
  | absent => exact .plain hword hname hsemicolon
  | present heq he => exact .initialized hword hname heq he hsemicolon

theorem sound_expressionStatement {k n : Nat} (hk : k ≤ n) :
    Sound k (expressionStatement n) ExpressionStatement :=
  .bind (forward_expression n) (sound_expression hk) fun _ =>
    .expect fun _ hsemicolon _ => .pure fun _ _ he => .mk he hsemicolon

/-- An expression that is left out where a certain token comes next. -/
theorem sound_optional {k n : Nat} (hk : k ≤ n) (K : Kind) :
    Sound k (unlessNext K none (some <$> expression n)) OptionalExpression :=
  .unlessNext (.map (sound_expression hk) fun _ _ _ => .present) fun _ => .absent

theorem forward_optional (n : Nat) (K : Kind) :
    Forward (unlessNext K none (some <$> expression n)) :=
  .unlessNext _ _ (.map _ (forward_expression n))

theorem sound_printRest {k n : Nat} (hk : k ≤ n) :
    Sound k (printRest n) fun q s r =>
      ∀ word : Token, word.kind = .printWord → ReadStatement ⟨word :: q.tokens, q.nextId⟩ s r :=
  .bind (forward_expression n) (sound_expression hk) fun _ =>
    .expect fun _ hsemicolon _ => .pure fun _ _ he _ hword =>
      .closed (.print hword he hsemicolon)

theorem sound_returnRest {k n : Nat} (hk : k ≤ n) {keyword : Token}
    (hkeyword : keyword.kind = .returnWord) :
    Sound k (returnRest n keyword) fun q s r =>
      ReadStatement ⟨keyword :: q.tokens, q.nextId⟩ s r :=
  .bind (forward_optional n _) (sound_optional hk _) fun _ =>
    .expect fun _ hsemicolon _ => .pure fun _ _ hvalue =>
      .closed (.yield hkeyword hvalue hsemicolon)

theorem sound_forInitial {k n : Nat} (hk : k ≤ n) : Sound k (forInitial n) FirstClause := by
  refine .accept (fun semicolon hsemicolon _ => ?_) ?_
  · rw [if_pos rfl]
    exact .pure fun _ => .absent hsemicolon
  · rw [if_neg Bool.false_ne_true]
    refine .accept (fun word hword _ => ?_) ?_
    · rw [if_pos rfl]
      exact .map (sound_variableRest (by omega)) fun _ _ _ h => .varDecl (h word hword)
    · rw [if_neg Bool.false_ne_true]
      exact .map (sound_expressionStatement hk) fun _ _ _ => .expression

/-- Both ways of writing down a counting loop are the same. -/
theorem countingLoop_eq (initial : Option Stmt) (condition increment : Option Expr)
    (body : Stmt) : countingLoop initial condition increment body =
      forLoop initial condition increment body := by
  cases initial <;> cases condition <;> cases increment <;> rfl

/-! ## Statements and declarations -/

section Rules

variable {nestedStatement : Parser Stmt} {nestedDeclaration : Parser (Option Stmt)}
  (fs : Forward nestedStatement) (fd : Forward nestedDeclaration) {k n : Nat}

section
include fd

theorem sound_declarations (hd : Sound k nestedDeclaration ReadDeclaration) (m : Nat) :
    Sound k (declarations nestedDeclaration m) (Declarations .nearest) := by
  induction m with
  | zero => exact .pure fun _ => .done
  | succ m ih =>
    have hstep : Sound k (nestedDeclaration >>= fun first =>
        declarations nestedDeclaration m >>= fun more => pure (first.toList ++ more))
        (Declarations .nearest) := by
      refine .bind fd hd fun first => .bind (forward_declarations fd m) ih fun more => .pure ?_
      rintro r q hmore p ⟨s, rfl, hs⟩
      exact .step hs hmore
    rw [declarations]
    refine .check _ fun atBrace => ?_
    cases atBrace with
    | true => exact .pure fun _ => .done
    | false =>
      exact .atEnd (.pure fun _ _ => .done) (hstep.mono fun _ _ _ h _ => h)

theorem sound_blockRest (hd : Sound k nestedDeclaration ReadDeclaration) (m : Nat) :
    Sound k (blockRest nestedDeclaration m) fun q body r =>
      ∀ opening : Token, opening.kind = .leftBrace →
        Block .nearest ⟨opening :: q.tokens, q.nextId⟩ body r :=
  .bind (forward_declarations fd m) (sound_declarations fd hd m) fun _ =>
    .expect fun _ hclosing _ => .pure fun _ _ hbody _ hopening => .mk hopening hbody hclosing

theorem sound_functionOf (hd : Sound (k - 1) nestedDeclaration ReadDeclaration) (hk : k ≤ n)
    (kind : Routine) : Sound k (functionOf nestedDeclaration n kind) (Grammar.Routine .nearest) := by
  refine .expect fun name hname _ => .expect fun opening hopening _ => .bind (R := Parameters)
    (.unlessNext _ _ (forward_parameters 0 n)) (.unlessNext ?_ fun _ => .none) fun names =>
    .expect fun closing hclosing _ => .expect fun brace hbrace _ => ?_
  · refine (sound_parameters 0 (by omega)).mono ?_
    rintro ⟨_, _⟩ names r ⟨first, more, ts, rfl, hp, hfirst, hmore, hlen⟩
    cases hp
    exact .some hfirst hmore (by omega)
  · have hd' : Sound (k - 1 - 1 - 1 - 1) nestedDeclaration ReadDeclaration := hd.le (by omega)
    refine .bind (forward_blockRest fd n) (sound_blockRest fd hd' n) fun body => .pure ?_
    intro r q hbody p hnames
    exact .mk hname hopening hnames hclosing (hbody brace hbrace)

theorem sound_methods (hd : Sound (k - 1) nestedDeclaration ReadDeclaration) (hk : k ≤ n)
    (m : Nat) : Sound k (methods nestedDeclaration n m) (Routines .nearest) := by
  induction m with
  | zero => exact .pure fun _ => .done
  | succ m ih =>
    have hstep : Sound k (functionOf nestedDeclaration n .method >>= fun first =>
        methods nestedDeclaration n m >>= fun more => pure (first :: more))
        (Routines .nearest) := by
      refine .bind (forward_functionOf fd n _) (sound_functionOf fd hd hk _) fun first =>
        .bind (forward_methods fd n m) ih fun more => .pure ?_
      intro r q hmore p hfirst
      exact .step hfirst hmore
    rw [methods]
    refine .check _ fun atBrace => ?_
    cases atBrace with
    | true => exact .pure fun _ => .done
    | false =>
      exact .atEnd (.pure fun _ _ => .done) (hstep.mono fun _ _ _ h _ => h)

theorem sound_classRest (hd : Sound k nestedDeclaration ReadDeclaration) (hk : k ≤ n) :
    Sound k (classRest nestedDeclaration n) fun q s r =>
      ∀ word : Token, word.kind = .classWord →
        Declaration .nearest ⟨word :: q.tokens, q.nextId⟩ s r := by
  refine .expect fun name hname _ => .bind (R := Superclass)
    (.afterNext _ _ (.map _ forward_superclass)) (.afterNext ?_ fun _ _ => .absent) fun parent =>
    .expect fun opening hopening _ => ?_
  · refine fun less hless _ => .map (R := fun q e r => Superclass ⟨less :: q.tokens, q.nextId⟩
      (some e) r) ?_ fun _ _ _ h => h
    refine .expect fun name hname _ => .freshId fun id => .pure ?_
    rintro ⟨ts, _⟩ rfl
    exact .present hless hname
  · have hd' : Sound (k - 1 - 1 - 1) nestedDeclaration ReadDeclaration := hd.le (by omega)
    refine .bind (forward_methods fd n n) (sound_methods fd hd' (by omega) n) fun methods =>
      .expect fun closing hclosing _ => .pure ?_
    intro r q hmethods p hparent word hword
    exact .classDecl hword hname hparent hopening hmethods hclosing

end

section
include fs

theorem sound_forRest (hs : Sound (k - 1) nestedStatement ReadStatement) (hk : k ≤ n) :
    Sound k (forRest nestedStatement n) fun q s r =>
      ∀ word : Token, word.kind = .forWord →
        ReadStatement ⟨word :: q.tokens, q.nextId⟩ s r := by
  have hs' : Sound (k - 1 - 1 - 1) nestedStatement ReadStatement := hs.le (by omega)
  refine .expect fun opening hopening _ =>
    .bind (forward_forInitial n) (sound_forInitial (by omega)) fun initial =>
    .bind (forward_optional n _) (sound_optional (by omega) _) fun condition =>
    .expect fun semicolon hsemicolon _ =>
    .bind (forward_optional n _) (sound_optional (by omega) _) fun increment =>
    .expect fun closing hclosing _ => .bind fs hs' fun body => .pure ?_
  rintro r q ⟨o, hbody, hopen⟩ p hincrement p₁ hcondition p₂ hinitial word hword
  refine ⟨o, ?_, hopen⟩
  rw [countingLoop_eq]
  exact .forLoop hword hopening hinitial hcondition hsemicolon hincrement hclosing hbody

/-- An `else` is taken if there is one, so the statement before it is closed. -/
theorem sound_ifRest (hs : Sound (k - 1) nestedStatement ReadStatement) (hk : k ≤ n) :
    Sound k (ifRest nestedStatement n) fun q s r =>
      ∀ word : Token, word.kind = .ifWord →
        ReadStatement ⟨word :: q.tokens, q.nextId⟩ s r := by
  have hs' : Sound (k - 1 - 1) nestedStatement ReadStatement := hs.le (by omega)
  refine .expect fun opening hopening _ =>
    .bind (forward_expression n) (sound_expression (by omega)) fun condition =>
    .expect fun closing hclosing _ => .bind fs hs' fun thenCase =>
    .bind (.afterNext _ _ (.map _ fs)) (sound_behind (hs'.le (Nat.sub_le _ 1))) fun elseCase =>
    .pure ?_
  intro r q helse p hthen p₁ hcondition word hword
  obtain ⟨o, hthen, hopen⟩ := hthen
  cases helse with
  | absent hends =>
    exact ⟨true, .ifThen hword hopening hcondition hclosing hthen, fun _ => hends⟩
  | present hkind hcase =>
    obtain ⟨o', hcase, hopen'⟩ := hcase
    have hclosed : o = false := by
      cases o with
      | false => rfl
      | true =>
        have hends := hopen rfl
        simp [Place.Ends, hkind] at hends
    exact ⟨o', .ifElse hword hopening hcondition hclosing hthen hkind (fun _ => hclosed) hcase,
      hopen'⟩

theorem sound_whileRest (hs : Sound (k - 1) nestedStatement ReadStatement) (hk : k ≤ n) :
    Sound k (whileRest nestedStatement n) fun q s r =>
      ∀ word : Token, word.kind = .whileWord →
        ReadStatement ⟨word :: q.tokens, q.nextId⟩ s r := by
  have hs' : Sound (k - 1 - 1) nestedStatement ReadStatement := hs.le (by omega)
  refine .expect fun opening hopening _ =>
    .bind (forward_expression n) (sound_expression (by omega)) fun condition =>
    .expect fun closing hclosing _ => .bind fs hs' fun body => .pure ?_
  rintro r q ⟨o, hbody, hopen⟩ p hcondition word hword
  exact ⟨o, .whileLoop hword hopening hcondition hclosing hbody, hopen⟩

end

include fs fd

theorem sound_statementOf (hs : 0 < k → Sound (k - 1) nestedStatement ReadStatement)
    (hd : 0 < k → Sound (k - 1) nestedDeclaration ReadDeclaration) (hk : k ≤ n) :
    Sound k (statementOf nestedStatement nestedDeclaration n) ReadStatement := by
  refine .take? (fun t ht hpos => ?_) ?_
  · have hs' : Sound (k - 1 - 1) nestedStatement ReadStatement := (hs hpos).le (by omega)
    dsimp only
    split
    case h_1 hkind => exact (sound_forRest fs hs' (by omega)).mono fun _ _ _ h => h t hkind
    case h_2 hkind => exact (sound_ifRest fs hs' (by omega)).mono fun _ _ _ h => h t hkind
    case h_3 hkind => exact (sound_whileRest fs hs' (by omega)).mono fun _ _ _ h => h t hkind
    case h_4 hkind => exact sound_returnRest (by omega) hkind
    case h_5 hkind =>
      exact .map (sound_blockRest fd (hd hpos) n) fun _ _ _ h => .closed (.block (h t hkind))
    case h_6 h₁ h₂ h₃ h₄ h₅ =>
      have hkind : t.kind = .printWord := by
        revert ht
        cases hk : t.kind <;> simp_all [startsKeywordStatement]
      exact (sound_printRest (by omega)).mono fun _ _ _ h => h t hkind
  · exact (sound_expressionStatement hk).mono fun _ _ _ h => .closed (.expression h)

theorem sound_declarationOf (hs : 0 < k → Sound (k - 1) nestedStatement ReadStatement)
    (hd : 0 < k → Sound (k - 1) nestedDeclaration ReadDeclaration) (hk : k ≤ n) :
    Sound k (declarationOf nestedStatement nestedDeclaration n) ReadDeclaration := by
  refine .recover (.take? (fun t ht hpos => ?_) ?_)
  · dsimp only
    split
    case h_1 hkind => exact (sound_classRest fd (hd hpos) (by omega)).mono fun _ _ _ h => h t hkind
    case h_2 hkind =>
      exact .map (sound_functionOf fd ((hd hpos).le (by omega)) (by omega) _) fun _ _ _ h =>
        .function hkind h
    case h_3 h₁ h₂ =>
      have hkind : t.kind = .varWord := by
        revert ht
        cases hk : t.kind <;> simp_all [startsDeclaration]
      exact (sound_variableRest (by omega)).mono fun _ _ _ h => .varDecl (h t hkind)
  · refine (sound_statementOf fs fd hs hd hk).mono ?_
    rintro p s q ⟨o, h, _⟩
    exact .statement h

end Rules

theorem sound_statement_declaration {k : Nat} (n : Nat) (hk : k < n) :
    Sound k (statement n) ReadStatement ∧ Sound k (declaration n) ReadDeclaration := by
  induction n generalizing k with
  | zero => exact absurd hk (Nat.not_lt_zero k)
  | succ n ih =>
    have fs := forward_statement n
    have fd := forward_declaration n
    have hs : 0 < k → Sound (k - 1) (statement n) ReadStatement := fun _ => (ih (by omega)).1
    have hd : 0 < k → Sound (k - 1) (declaration n) ReadDeclaration := fun _ => (ih (by omega)).2
    refine ⟨?_, ?_⟩
    · rw [statement]
      exact sound_statementOf fs fd hs hd (Nat.le_of_lt hk)
    · rw [declaration]
      exact sound_declarationOf fs fd hs hd (Nat.le_of_lt hk)

/-- All tokens of a program that is read without an error are declarations. -/
theorem sound_program {k n : Nat} (hk : k < n) (m : Nat) (hm : k < m) :
    Sound k (program n m) fun p body q => Declarations .nearest p body q ∧ q.tokens = [] := by
  induction m generalizing k with
  | zero => exact absurd hm (Nat.not_lt_zero k)
  | succ m ih =>
    rw [program]
    refine .atEnd (.pure fun p hp => ⟨.done, hp⟩) ?_
    show Sound k (declaration n >>= fun first => program n m >>= fun more =>
      pure (first.toList ++ more)) _
    intro s body u hl hr he
    obtain ⟨o, t, h₁, h₂⟩ := ok_of_bind hr
    obtain ⟨more, v, h₃, h₄⟩ := ok_of_bind h₂
    cases h₄
    -- the first declaration is without errors and takes a token
    have et : t.errors = [] := ((forward_program n m).of_ok h₃).errors_nil he
    obtain ⟨es, first, rfl, hfirst⟩ := (sound_statement_declaration n hk).2 s o t hl h₁ et
    have hlt : t.rest.length < s.rest.length := hfirst.length_lt
    obtain ⟨_, hmore, hend⟩ := ih (k := k - 1) (by omega) (by omega) t more u (by omega) h₃ he
    exact ⟨es, fun _ => ⟨.step hfirst hmore, hend⟩⟩

end Lox.Parse
