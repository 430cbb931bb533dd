import Lox.Proofs.Grammar.Relaxed.Expr
import Lox.Proofs.Grammar.Stmt

/-
  The relaxed grammar of statements

      parameters → IDENT ( "," IDENT )*

  of any length, over relaxed expressions, and everything else as in the grammar.
  A parameter that is one too many is at fault as an argument is. Which
  conditional an `else` belongs to makes no difference for the faults of a text,
  as they come in the order of the text (`Statement.nearest`).
-/

namespace Lox.Grammar.Relaxed

/-- An expression that may be left out. -/
inductive OptionalExpression : Spot → Option Expr → Spot → Prop
  | absent {p : Spot} : OptionalExpression p none p
  | present {p q : Spot} {e : Expr} :
      Derives .expression p e q → OptionalExpression p (some e) q

inductive VariableDeclaration : Spot → Stmt → Spot → Prop
  | plain {word name semicolon : Token} {ts : List Token} {n : Nat} {fs : List SyntaxError} :
      word.kind = .varWord → name.kind = .identifier → semicolon.kind = .semicolon →
      VariableDeclaration ⟨⟨word :: name :: semicolon :: ts, n⟩, fs⟩ (.varDecl name none)
        ⟨⟨ts, n⟩, fs⟩
  | initialized {word name equals semicolon : Token} {ts us : List Token} {n k : Nat}
      {fs gs : List SyntaxError} {e : Expr} :
      word.kind = .varWord → name.kind = .identifier → equals.kind = .equal →
      Derives .expression ⟨⟨ts, n⟩, fs⟩ e ⟨⟨semicolon :: us, k⟩, gs⟩ →
      semicolon.kind = .semicolon →
      VariableDeclaration ⟨⟨word :: name :: equals :: ts, n⟩, fs⟩ (.varDecl name (some e))
        ⟨⟨us, k⟩, gs⟩

inductive ExpressionStatement : Spot → Stmt → Spot → Prop
  | mk {semicolon : Token} {us : List Token} {k : Nat} {gs : List SyntaxError} {e : Expr}
      {p : Spot} :
      Derives .expression p e ⟨⟨semicolon :: us, k⟩, gs⟩ → semicolon.kind = .semicolon →
      ExpressionStatement p (.expression e) ⟨⟨us, k⟩, gs⟩

/-- The first clause of a counting loop. -/
inductive FirstClause : Spot → Option Stmt → Spot → Prop
  | absent {semicolon : Token} {ts : List Token} {n : Nat} {fs : List SyntaxError} :
      semicolon.kind = .semicolon →
      FirstClause ⟨⟨semicolon :: ts, n⟩, fs⟩ none ⟨⟨ts, n⟩, fs⟩
  | varDecl {p q : Spot} {s : Stmt} :
      VariableDeclaration p s q → FirstClause p (some s) q
  | expression {p q : Spot} {s : Stmt} :
      ExpressionStatement p s q → FirstClause p (some s) q

/-- The parameters of a function, `count` of which are already read. There need not be
any, but behind a comma there has to be one. -/
inductive Parameters : Nat → Spot → List Token → Spot → Prop
  | none {p : Spot} : Parameters 0 p [] p
  | last {count : Nat} {name : Token} {ts : List Token} {n : Nat} {fs : List SyntaxError} :
      name.kind = .identifier →
      Parameters count ⟨⟨name :: ts, n⟩, fs⟩ [name]
        ⟨⟨ts, n⟩, fs ++ tooMany count ⟨name, .tooManyParameters⟩⟩
  | step {count : Nat} {name separator : Token} {ts : List Token} {n : Nat}
      {fs : List SyntaxError} {names : List Token} {q : Spot} :
      name.kind = .identifier → separator.kind = .comma →
      Parameters (count + 1) ⟨⟨ts, n⟩, fs ++ tooMany count ⟨name, .tooManyParameters⟩⟩ names q →
      Parameters count ⟨⟨name :: separator :: ts, n⟩, fs⟩ (name :: names) q

mutual

/-- `Statement rule p s q open`: the tokens between `p` and `q` are a statement
whose tree is `s`. It is open if it ends with a conditional that could take an
`else`. -/
inductive Statement (rule : ElseRule) : Spot → Stmt → Spot → Bool → Prop
  | expression {p q : Spot} {s : Stmt} :
      ExpressionStatement p s q → Statement rule p s q false
  | forLoop {word opening semicolon closing : Token} {ts us vs : List Token} {n m k : Nat}
      {fs gs hs : List SyntaxError} {initial : Option Stmt} {condition increment : Option Expr}
      {body : Stmt} {p q : Spot} {o : Bool} :
      word.kind = .forWord → opening.kind = .leftParen →
      FirstClause ⟨⟨ts, n⟩, fs⟩ initial p →
      OptionalExpression p condition ⟨⟨semicolon :: us, m⟩, gs⟩ →
      semicolon.kind = .semicolon →
      OptionalExpression ⟨⟨us, m⟩, gs⟩ increment ⟨⟨closing :: vs, k⟩, hs⟩ →
      closing.kind = .rightParen →
      Statement rule ⟨⟨vs, k⟩, hs⟩ body q o →
      Statement rule ⟨⟨word :: opening :: ts, n⟩, fs⟩ (forLoop initial condition increment body)
        q o
  | ifThen {word opening closing : Token} {ts us : List Token} {n k : Nat}
      {fs gs : List SyntaxError} {condition : Expr} {thenCase : Stmt} {q : Spot} {o : Bool} :
      word.kind = .ifWord → opening.kind = .leftParen →
      Derives .expression ⟨⟨ts, n⟩, fs⟩ condition ⟨⟨closing :: us, k⟩, gs⟩ →
      closing.kind = .rightParen →
      Statement rule ⟨⟨us, k⟩, gs⟩ thenCase q o →
      Statement rule ⟨⟨word :: opening :: ts, n⟩, fs⟩ (.branch condition thenCase none) q true
  | ifElse {word opening closing elseWord : Token} {ts us vs : List Token} {n k m : Nat}
      {fs gs hs : List SyntaxError} {condition : Expr} {thenCase elseCase : Stmt} {q : Spot}
      {o o' : Bool} :
      word.kind = .ifWord → opening.kind = .leftParen →
      Derives .expression ⟨⟨ts, n⟩, fs⟩ condition ⟨⟨closing :: us, k⟩, gs⟩ →
      closing.kind = .rightParen →
      Statement rule ⟨⟨us, k⟩, gs⟩ thenCase ⟨⟨elseWord :: vs, m⟩, hs⟩ o →
      elseWord.kind = .elseWord → (rule = .nearest → o = false) →
      Statement rule ⟨⟨vs, m⟩, hs⟩ elseCase q o' →
      Statement rule ⟨⟨word :: opening :: ts, n⟩, fs⟩ (.branch condition thenCase (some elseCase))
        q o'
  | print {word semicolon : Token} {ts us : List Token} {n k : Nat} {fs gs : List SyntaxError}
      {e : Expr} :
      word.kind = .printWord →
      Derives .expression ⟨⟨ts, n⟩, fs⟩ e ⟨⟨semicolon :: us, k⟩, gs⟩ →
      semicolon.kind = .semicolon →
      Statement rule ⟨⟨word :: ts, n⟩, fs⟩ (.print e) ⟨⟨us, k⟩, gs⟩ false
  | yield {word semicolon : Token} {ts us : List Token} {n k : Nat} {fs gs : List SyntaxError}
      {value : Option Expr} :
      word.kind = .returnWord →
      OptionalExpression ⟨⟨ts, n⟩, fs⟩ value ⟨⟨semicolon :: us, k⟩, gs⟩ →
      semicolon.kind = .semicolon →
      Statement rule ⟨⟨word :: ts, n⟩, fs⟩ (.yield word value) ⟨⟨us, k⟩, gs⟩ false
  | whileLoop {word opening closing : Token} {ts us : List Token} {n k : Nat}
      {fs gs : List SyntaxError} {condition : Expr} {body : Stmt} {q : Spot} {o : Bool} :
      word.kind = .whileWord → opening.kind = .leftParen →
      Derives .expression ⟨⟨ts, n⟩, fs⟩ condition ⟨⟨closing :: us, k⟩, gs⟩ →
      closing.kind = .rightParen →
      Statement rule ⟨⟨us, k⟩, gs⟩ body q o →
      Statement rule ⟨⟨word :: opening :: ts, n⟩, fs⟩ (.loop condition body) q o
  | block {p q : Spot} {body : List Stmt} :
      Block rule p body q → Statement rule p (.block body) q false

/-- Declarations between braces. -/
inductive Block (rule : ElseRule) : Spot → List Stmt → Spot → Prop
  | mk {opening closing : Token} {ts us : List Token} {n k : Nat} {fs gs : List SyntaxError}
      {body : List Stmt} :
      opening.kind = .leftBrace →
      Declarations rule ⟨⟨ts, n⟩, fs⟩ body ⟨⟨closing :: us, k⟩, gs⟩ →
      closing.kind = .rightBrace → Block rule ⟨⟨opening :: ts, n⟩, fs⟩ body ⟨⟨us, k⟩, gs⟩

inductive Declaration (rule : ElseRule) : Spot → Stmt → Spot → Prop
  | classDecl {word name opening closing : Token} {ts us vs : List Token} {n m k : Nat}
      {fs gs : List SyntaxError} {superclass : Option Expr} {methods : List Function} :
      word.kind = .classWord → name.kind = .identifier →
      Superclass ⟨ts, n⟩ superclass ⟨opening :: us, m⟩ → opening.kind = .leftBrace →
      Routines rule ⟨⟨us, m⟩, fs⟩ methods ⟨⟨closing :: vs, k⟩, gs⟩ →
      closing.kind = .rightBrace →
      Declaration rule ⟨⟨word :: name :: ts, n⟩, fs⟩ (.classDecl name superclass methods)
        ⟨⟨vs, k⟩, gs⟩
  | function {word : Token} {ts : List Token} {n : Nat} {fs : List SyntaxError} {f : Function}
      {q : Spot} :
      word.kind = .funWord → Routine rule ⟨⟨ts, n⟩, fs⟩ f q →
      Declaration rule ⟨⟨word :: ts, n⟩, fs⟩ (.function f) q
  | varDecl {p q : Spot} {s : Stmt} :
      VariableDeclaration p s q → Declaration rule p s q
  | statement {p q : Spot} {s : Stmt} {o : Bool} :
      Statement rule p s q o → Declaration rule p s q

inductive Declarations (rule : ElseRule) : Spot → List Stmt → Spot → Prop
  | done {p : Spot} : Declarations rule p [] p
  | step {p q r : Spot} {s : Stmt} {body : List Stmt} :
      Declaration rule p s q → Declarations rule q body r → Declarations rule p (s :: body) r

/-- A function or method, from its name on. -/
inductive Routine (rule : ElseRule) : Spot → Function → Spot → Prop
  | mk {name opening closing : Token} {ts us : List Token} {n m : Nat} {fs gs : List SyntaxError}
      {parameters : List Token} {body : List Stmt} {q : Spot} :
      name.kind = .identifier → opening.kind = .leftParen →
      Parameters 0 ⟨⟨ts, n⟩, fs⟩ parameters ⟨⟨closing :: us, m⟩, gs⟩ →
      closing.kind = .rightParen → Block rule ⟨⟨us, m⟩, gs⟩ body q →
      Routine rule ⟨⟨name :: opening :: ts, n⟩, fs⟩ ⟨name, parameters, body⟩ q

inductive Routines (rule : ElseRule) : Spot → List Function → Spot → Prop
  | done {p : Spot} : Routines rule p [] p
  | step {p q r : Spot} {f : Function} {methods : List Function} :
      Routine rule p f q → Routines rule q methods r → Routines rule p (f :: methods) r

end

/-- A token list that is a program from its beginning to its end, with its faults. -/
def Program (rule : ElseRule) (tokens : List Token) (firstId : Nat) (program : List Stmt)
    (nextId : Nat) (faults : List SyntaxError) : Prop :=
  ∃ body, Unmarked tokens body ∧
    Declarations rule ⟨⟨body, firstId⟩, []⟩ program ⟨⟨[], nextId⟩, faults⟩

/-- A token list that is an expression from its beginning to its end, with its faults. -/
def WholeExpression (tokens : List Token) (firstId : Nat) (e : Expr) (nextId : Nat)
    (faults : List SyntaxError) : Prop :=
  ∃ body, Unmarked tokens body ∧
    Derives .expression ⟨⟨body, firstId⟩, []⟩ e ⟨⟨[], nextId⟩, faults⟩

/-! ## Phrases take tokens -/

theorem OptionalExpression.length_le {p q : Spot} {e : Option Expr} :
    OptionalExpression p e q → q.tokens.length ≤ p.tokens.length
  | .absent => Nat.le_refl _
  | .present h => Nat.le_of_lt h.length_lt

theorem VariableDeclaration.length_lt {p q : Spot} {s : Stmt} :
    VariableDeclaration p s q → q.tokens.length < p.tokens.length
  | .plain _ _ _ => Nat.lt_succ_of_lt (Nat.lt_succ_of_lt (Nat.lt_succ_self _))
  | .initialized _ _ _ h _ =>
    Nat.lt_succ_of_lt (Nat.lt_succ_of_lt (Nat.lt_succ_of_lt (Nat.lt_of_succ_lt h.length_lt)))

theorem ExpressionStatement.length_lt {p q : Spot} {s : Stmt} :
    ExpressionStatement p s q → q.tokens.length < p.tokens.length
  | .mk h _ => Nat.lt_trans (Nat.lt_succ_self _) h.length_lt

theorem FirstClause.length_lt {p q : Spot} {s : Option Stmt} :
    FirstClause p s q → q.tokens.length < p.tokens.length
  | .absent _ => Nat.lt_succ_self _
  | .varDecl h => h.length_lt
  | .expression h => h.length_lt

theorem Parameters.length_le {count : Nat} {p q : Spot} {names : List Token} :
    Parameters count p names q → q.tokens.length ≤ p.tokens.length := by
  intro h
  induction h with
  | none => exact Nat.le_refl _
  | last => exact Nat.le_succ _
  | step _ _ _ ih => exact Nat.le_trans ih (by simp; omega)

section

variable {rule : ElseRule}

mutual

theorem Statement.length_lt {p q : Spot} {s : Stmt} {o : Bool} :
    Statement rule p s q o → q.tokens.length < p.tokens.length
  | .expression h => h.length_lt
  | .forLoop _ _ hfirst hcondition _ hincrement _ hbody => by
    have h₁ := hfirst.length_lt
    have h₂ := hcondition.length_le
    have h₃ := hincrement.length_le
    have h₄ := hbody.length_lt
    simp only [List.length_cons] at h₁ h₂ h₃ h₄ ⊢
    omega
  | .ifThen _ _ hcondition _ hthen => by
    have h₁ := hcondition.length_lt
    have h₂ := hthen.length_lt
    simp only [List.length_cons] at h₁ h₂ ⊢
    omega
  | .ifElse _ _ hcondition _ hthen _ _ helse => by
    have h₁ := hcondition.length_lt
    have h₂ := hthen.length_lt
    have h₃ := helse.length_lt
    simp only [List.length_cons] at h₁ h₂ h₃ ⊢
    omega
  | .print _ h _ => Nat.lt_trans (Nat.lt_succ_self _) (Nat.lt_succ_of_lt h.length_lt)
  | .yield _ h _ => Nat.lt_succ_of_le (Nat.le_trans (Nat.le_succ _) h.length_le)
  | .whileLoop _ _ hcondition _ hbody => by
    have h₁ := hcondition.length_lt
    have h₂ := hbody.length_lt
    simp only [List.length_cons] at h₁ h₂ ⊢
    omega
  | .block h => h.length_lt

theorem Block.length_lt {p q : Spot} {body : List Stmt} :
    Block rule p body q → q.tokens.length < p.tokens.length
  | .mk _ h _ => Nat.lt_succ_of_le (Nat.le_trans (Nat.le_succ _) h.length_le)

theorem Declaration.length_lt {p q : Spot} {s : Stmt} :
    Declaration rule p s q → q.tokens.length < p.tokens.length
  | .classDecl _ _ hsuperclass _ hmethods _ =>
    have hlt := Nat.lt_of_le_of_lt hmethods.length_le (Nat.lt_of_succ_le hsuperclass.length_le)
    Nat.lt_succ_of_lt (Nat.lt_succ_of_lt (Nat.lt_of_succ_lt hlt))
  | .function _ h => Nat.lt_succ_of_lt h.length_lt
  | .varDecl h => h.length_lt
  | .statement h => h.length_lt

theorem Declarations.length_le {p q : Spot} {body : List Stmt} :
    Declarations rule p body q → q.tokens.length ≤ p.tokens.length
  | .done => Nat.le_refl _
  | .step h hs => Nat.le_trans hs.length_le (Nat.le_of_lt h.length_lt)

theorem Routine.length_lt {p q : Spot} {f : Function} :
    Routine rule p f q → q.tokens.length < p.tokens.length
  | .mk _ _ hparameters _ h => by
    have h₁ := hparameters.length_le
    have h₂ := h.length_lt
    simp only [List.length_cons] at h₁ h₂ ⊢
    omega

theorem Routines.length_le {p q : Spot} {methods : List Function} :
    Routines rule p methods q → q.tokens.length ≤ p.tokens.length
  | .done => Nat.le_refl _
  | .step h hs => Nat.le_trans hs.length_le (Nat.le_of_lt h.length_lt)

end

end

/-! ## How statements begin -/

/-- Parameters begin with the first of them. -/
theorem Parameters.begins {count : Nat} {p q : Spot} {names : List Token} :
    Parameters count p names q → names ≠ [] →
      ∃ t ts, p.tokens = t :: ts ∧ (t.kind == .identifier) = true
  | .none => fun h => absurd rfl h
  | .last hname | .step hname _ _ => fun _ => ⟨_, _, rfl, by rw [hname]; rfl⟩

theorem VariableDeclaration.begins {p q : Spot} {s : Stmt} :
    VariableDeclaration p s q → ∃ t ts, p.tokens = t :: ts ∧ t.kind = .varWord
  | .plain hw _ _ | .initialized hw _ _ _ _ => ⟨_, _, rfl, hw⟩

theorem ExpressionStatement.begins {p q : Spot} {s : Stmt} :
    ExpressionStatement p s q → ∃ t ts, p.tokens = t :: ts ∧ Level.expression.begins t.kind = true
  | .mk h _ => h.begins

section

variable {rule : ElseRule}

theorem Statement.begins {p q : Spot} {s : Stmt} {o : Bool} :
    Statement rule p s q o → ∃ t ts, p.tokens = t :: ts ∧ beginsStatement t.kind = true
  | .expression h => by
    obtain ⟨t, ts, hp, ht⟩ := h.begins
    exact ⟨t, ts, hp, by rw [beginsStatement, ht, Bool.true_or]⟩
  | .forLoop hw _ _ _ _ _ _ _ | .ifThen hw _ _ _ _ | .ifElse hw _ _ _ _ _ _ _
  | .print hw _ _ | .yield hw _ _ | .whileLoop hw _ _ _ _ | .block (.mk hw _ _) =>
    ⟨_, _, rfl, by rw [hw]; rfl⟩

theorem Declaration.begins {p q : Spot} {s : Stmt} :
    Declaration rule p s q → ∃ t ts, p.tokens = t :: ts ∧ beginsDeclaration t.kind = true
  | .classDecl hw _ _ _ _ _ | .function hw _ => ⟨_, _, rfl, by rw [hw]; rfl⟩
  | .varDecl h => by
    obtain ⟨t, ts, hp, ht⟩ := h.begins
    exact ⟨t, ts, hp, by rw [ht]; rfl⟩
  | .statement h => by
    obtain ⟨t, ts, hp, ht⟩ := h.begins
    exact ⟨t, ts, hp, by rw [beginsDeclaration, ht, Bool.true_or]⟩

/-- No declaration begins with `else`. -/
theorem Declarations.ends_else {p q : Spot} {body : List Stmt}
    (h : Declarations rule p body q) (hq : q.Ends (· == .elseWord)) :
    p.Ends (· == .elseWord) := by
  cases h with
  | done => exact hq
  | step h _ => exact Place.ends_of_begins h.begins (ne_of_class rfl)

end

/-! ## The nearest conditional -/

/-- An open statement can take an `else` with its statement, which goes to the
last conditional that has none. -/
theorem Statement.attach {elseWord : Token} {ts : List Token} {n : Nat} {fs : List SyntaxError}
    {s elseCase : Stmt} {p q r : Spot} {o o' : Bool} (hword : elseWord.kind = .elseWord)
    (helse : Statement .nearest ⟨⟨ts, n⟩, fs⟩ elseCase q o') :
    Statement .nearest p s r o → (o = true → r = ⟨⟨elseWord :: ts, n⟩, fs⟩ →
      ∃ s' o, Statement .nearest p s' q o)
  | .expression _ | .print .. | .yield .. | .block _ => nofun
  | .forLoop hw ho hfirst hcondition hs hincrement hc hbody => by
    intro hopen hr
    obtain ⟨body', o, hbody'⟩ := Statement.attach hword helse hbody hopen hr
    exact ⟨_, o, .forLoop hw ho hfirst hcondition hs hincrement hc hbody'⟩
  | .ifThen (o := o) hw ho hcondition hc hthen => by
    intro _ hr
    have ih := Statement.attach hword helse hthen
    cases o with
    | true =>
      obtain ⟨then', o, hthen'⟩ := ih rfl hr
      exact ⟨_, true, .ifThen hw ho hcondition hc hthen'⟩
    | false =>
      subst hr
      exact ⟨_, o', .ifElse hw ho hcondition hc hthen hword (fun _ => rfl) helse⟩
  | .ifElse hw ho hcondition hc hthen hword' hclosed hrest => by
    intro hopen hr
    obtain ⟨rest', o, hrest'⟩ := Statement.attach hword helse hrest hopen hr
    exact ⟨_, o, .ifElse hw ho hcondition hc hthen hword' hclosed hrest'⟩
  | .whileLoop hw ho hcondition hc hbody => by
    intro hopen hr
    obtain ⟨body', o, hbody'⟩ := Statement.attach hword helse hbody hopen hr
    exact ⟨_, o, .whileLoop hw ho hcondition hc hbody'⟩

mutual

/-- What has a derivation has one under the rule of the nearest conditional, with the same
faults. -/
theorem Statement.nearest {rule : ElseRule} {p q : Spot} {s : Stmt} {o : Bool} :
    Statement rule p s q o → ∃ s' o', Statement .nearest p s' q o'
  | .expression h => ⟨_, _, .expression h⟩
  | .forLoop hw ho hfirst hcondition hs hincrement hc hbody => by
    obtain ⟨body', o', hbody'⟩ := hbody.nearest
    exact ⟨_, o', .forLoop hw ho hfirst hcondition hs hincrement hc hbody'⟩
  | .ifThen hw ho hcondition hc hthen => by
    obtain ⟨then', o', hthen'⟩ := hthen.nearest
    exact ⟨_, true, .ifThen hw ho hcondition hc hthen'⟩
  | .ifElse hw ho hcondition hc hthen hword _ hrest => by
    obtain ⟨then', o₁, hthen'⟩ := hthen.nearest
    obtain ⟨rest', o₂, hrest'⟩ := hrest.nearest
    cases o₁ with
    | false => exact ⟨_, o₂, .ifElse hw ho hcondition hc hthen' hword (fun _ => rfl) hrest'⟩
    | true =>
      obtain ⟨then'', o₃, hthen''⟩ := Statement.attach hword hrest' hthen' rfl rfl
      exact ⟨_, true, .ifThen hw ho hcondition hc hthen''⟩
  | .print hw h hs => ⟨_, _, .print hw h hs⟩
  | .yield hw h hs => ⟨_, _, .yield hw h hs⟩
  | .whileLoop hw ho hcondition hc hbody => by
    obtain ⟨body', o', hbody'⟩ := hbody.nearest
    exact ⟨_, o', .whileLoop hw ho hcondition hc hbody'⟩
  | .block h => by
    obtain ⟨body', hbody'⟩ := h.nearest
    exact ⟨_, _, .block hbody'⟩

theorem Block.nearest {rule : ElseRule} {p q : Spot} {body : List Stmt} :
    Block rule p body q → ∃ body', Block .nearest p body' q
  | .mk ho h hc => by
    obtain ⟨body', hbody'⟩ := h.nearest
    exact ⟨body', .mk ho hbody' hc⟩

theorem Declaration.nearest {rule : ElseRule} {p q : Spot} {s : Stmt} :
    Declaration rule p s q → ∃ s', Declaration .nearest p s' q
  | .classDecl hw hn hsuperclass ho hmethods hc => by
    obtain ⟨methods', hmethods'⟩ := hmethods.nearest
    exact ⟨_, .classDecl hw hn hsuperclass ho hmethods' hc⟩
  | .function hw h => by
    obtain ⟨f', hf'⟩ := h.nearest
    exact ⟨_, .function hw hf'⟩
  | .varDecl h => ⟨_, .varDecl h⟩
  | .statement h => by
    obtain ⟨s', _, hs'⟩ := h.nearest
    exact ⟨s', .statement hs'⟩

theorem Declarations.nearest {rule : ElseRule} {p q : Spot} {body : List Stmt} :
    Declarations rule p body q → ∃ body', Declarations .nearest p body' q
  | .done => ⟨[], .done⟩
  | .step h hs => by
    obtain ⟨s', h'⟩ := h.nearest
    obtain ⟨body', hs'⟩ := hs.nearest
    exact ⟨s' :: body', .step h' hs'⟩

theorem Routine.nearest {rule : ElseRule} {p q : Spot} {f : Function} :
    Routine rule p f q → ∃ f', Routine .nearest p f' q
  | .mk hn ho hparameters hc h => by
    obtain ⟨body', hbody'⟩ := h.nearest
    exact ⟨_, .mk hn ho hparameters hc hbody'⟩

theorem Routines.nearest {rule : ElseRule} {p q : Spot} {methods : List Function} :
    Routines rule p methods q → ∃ methods', Routines .nearest p methods' q
  | .done => ⟨[], .done⟩
  | .step h hs => by
    obtain ⟨f', h'⟩ := h.nearest
    obtain ⟨methods', hs'⟩ := hs.nearest
    exact ⟨f' :: methods', .step h' hs'⟩

end

end Lox.Grammar.Relaxed
