import Lox.Proofs.Grammar.Expr
import Lox.Stmt

/-
  The grammar of statements — derivations and their trees

      program     → declaration* EOF
      declaration → class | "fun" function | variable | statement
      class       → "class" IDENT ( "<" IDENT )? "{" function* "}"
      function    → IDENT "(" parameters? ")" block
      variable    → "var" IDENT ( "=" expression )? ";"
      statement   → expression ";" | for | if | "print" expression ";"
                  | "return" expression? ";" | while | block
      for         → "for" "(" ( variable | expression ";" | ";" )
                    expression? ";" expression? ")" statement
      if          → "if" "(" expression ")" statement ( "else" statement )?
      while       → "while" "(" expression ")" statement
      block       → "{" declaration* "}"
      parameters  → IDENT ( "," IDENT )*

  By itself the grammar leaves open to which of several conditionals an `else`
  belongs. `ElseRule.any` is the grammar as it stands, and under
  `ElseRule.nearest` an `else` belongs to the nearest conditional before it that
  can take it. The second is a choice among the derivations of the first: every
  token list with a derivation of one kind has one of the other.
-/

namespace Lox.Grammar

/-- To which conditionals an `else` may belong. -/
inductive ElseRule where
  | any | nearest

/-- An expression that may be left out. -/
inductive OptionalExpression : Place → Option Expr → Place → Prop
  | absent {p : Place} : OptionalExpression p none p
  | present {p q : Place} {e : Expr} :
      Derives .expression p e q → OptionalExpression p (some e) q

inductive VariableDeclaration : Place → Stmt → Place → Prop
  | plain {word name semicolon : Token} {ts : List Token} {n : Nat} :
      word.kind = .varWord → name.kind = .identifier → semicolon.kind = .semicolon →
      VariableDeclaration ⟨word :: name :: semicolon :: ts, n⟩ (.varDecl name none) ⟨ts, n⟩
  | initialized {word name equals semicolon : Token} {ts us : List Token} {n k : Nat} {e : Expr} :
      word.kind = .varWord → name.kind = .identifier → equals.kind = .equal →
      Derives .expression ⟨ts, n⟩ e ⟨semicolon :: us, k⟩ → semicolon.kind = .semicolon →
      VariableDeclaration ⟨word :: name :: equals :: ts, n⟩ (.varDecl name (some e)) ⟨us, k⟩

inductive ExpressionStatement : Place → Stmt → Place → Prop
  | mk {semicolon : Token} {us : List Token} {k : Nat} {e : Expr} {p : Place} :
      Derives .expression p e ⟨semicolon :: us, k⟩ → semicolon.kind = .semicolon →
      ExpressionStatement p (.expression e) ⟨us, k⟩

/-- The first clause of a counting loop. -/
inductive FirstClause : Place → Option Stmt → Place → Prop
  | absent {semicolon : Token} {ts : List Token} {n : Nat} :
      semicolon.kind = .semicolon → FirstClause ⟨semicolon :: ts, n⟩ none ⟨ts, n⟩
  | varDecl {p q : Place} {s : Stmt} :
      VariableDeclaration p s q → FirstClause p (some s) q
  | expression {p q : Place} {s : Stmt} :
      ExpressionStatement p s q → FirstClause p (some s) q

/-- Further parameters, each behind a comma. -/
inductive MoreNames : Place → List Token → Place → Prop
  | done {p : Place} : MoreNames p [] p
  | step {separator name : Token} {ts : List Token} {n : Nat} {names : List Token} {q : Place} :
      separator.kind = .comma → name.kind = .identifier → MoreNames ⟨ts, n⟩ names q →
      MoreNames ⟨separator :: name :: ts, n⟩ (name :: names) q

/-- The parameters of a function, at most as many as the longest list has. -/
inductive Parameters : Place → List Token → Place → Prop
  | none {p : Place} : Parameters p [] p
  | some {name : Token} {ts : List Token} {n : Nat} {names : List Token} {q : Place} :
      name.kind = .identifier → MoreNames ⟨ts, n⟩ names q →
      (name :: names).length ≤ longestList →
      Parameters ⟨name :: ts, n⟩ (name :: names) q

/-- The superclass of a class is a variable. -/
inductive Superclass : Place → Option Expr → Place → Prop
  | absent {p : Place} : Superclass p none p
  | present {less name : Token} {ts : List Token} {n : Nat} :
      less.kind = .less → name.kind = .identifier →
      Superclass ⟨less :: name :: ts, n⟩ (some (.var n name)) ⟨ts, n + 1⟩

/-! ## Counting loops -/

/-- The body of a counting loop, after which the increment is evaluated. -/
def repeated (body : Stmt) : Option Expr → Stmt
  | none => body
  | some increment => .block [body, .expression increment]

/-- A counting loop without its first clause. Without a condition it goes on
until it is left. -/
def whileLoop (condition increment : Option Expr) (body : Stmt) : Stmt :=
  match condition with
  | none => .loop (.boolean true) (repeated body increment)
  | some condition => .loop condition (repeated body increment)

/-- A counting loop is a block that begins with its first clause. -/
def forLoop (initial : Option Stmt) (condition increment : Option Expr) (body : Stmt) : Stmt :=
  match initial with
  | none => whileLoop condition increment body
  | some initial => .block [initial, whileLoop condition increment body]

/-! ## Statements and declarations -/

mutual

/-- `Statement rule p s q open`: the tokens between `p` and `q` are a statement
whose tree is `s`. It is open if it ends with a conditional that could take an
`else`. -/
inductive Statement (rule : ElseRule) : Place → Stmt → Place → Bool → Prop
  | expression {p q : Place} {s : Stmt} :
      ExpressionStatement p s q → Statement rule p s q false
  | forLoop {word opening semicolon closing : Token} {ts us vs : List Token} {n m k : Nat}
      {initial : Option Stmt} {condition increment : Option Expr} {body : Stmt} {p q : Place}
      {o : Bool} :
      word.kind = .forWord → opening.kind = .leftParen →
      FirstClause ⟨ts, n⟩ initial p →
      OptionalExpression p condition ⟨semicolon :: us, m⟩ → semicolon.kind = .semicolon →
      OptionalExpression ⟨us, m⟩ increment ⟨closing :: vs, k⟩ → closing.kind = .rightParen →
      Statement rule ⟨vs, k⟩ body q o →
      Statement rule ⟨word :: opening :: ts, n⟩ (forLoop initial condition increment body) q o
  | ifThen {word opening closing : Token} {ts us : List Token} {n k : Nat} {condition : Expr}
      {thenCase : Stmt} {q : Place} {o : Bool} :
      word.kind = .ifWord → opening.kind = .leftParen →
      Derives .expression ⟨ts, n⟩ condition ⟨closing :: us, k⟩ → closing.kind = .rightParen →
      Statement rule ⟨us, k⟩ thenCase q o →
      Statement rule ⟨word :: opening :: ts, n⟩ (.branch condition thenCase none) q true
  | ifElse {word opening closing elseWord : Token} {ts us vs : List Token} {n k m : Nat}
      {condition : Expr} {thenCase elseCase : Stmt} {q : Place} {o o' : Bool} :
      word.kind = .ifWord → opening.kind = .leftParen →
      Derives .expression ⟨ts, n⟩ condition ⟨closing :: us, k⟩ → closing.kind = .rightParen →
      Statement rule ⟨us, k⟩ thenCase ⟨elseWord :: vs, m⟩ o → elseWord.kind = .elseWord →
      (rule = .nearest → o = false) →
      Statement rule ⟨vs, m⟩ elseCase q o' →
      Statement rule ⟨word :: opening :: ts, n⟩ (.branch condition thenCase (some elseCase)) q o'
  | print {word semicolon : Token} {ts us : List Token} {n k : Nat} {e : Expr} :
      word.kind = .printWord → Derives .expression ⟨ts, n⟩ e ⟨semicolon :: us, k⟩ →
      semicolon.kind = .semicolon → Statement rule ⟨word :: ts, n⟩ (.print e) ⟨us, k⟩ false
  | yield {word semicolon : Token} {ts us : List Token} {n k : Nat} {value : Option Expr} :
      word.kind = .returnWord → OptionalExpression ⟨ts, n⟩ value ⟨semicolon :: us, k⟩ →
      semicolon.kind = .semicolon →
      Statement rule ⟨word :: ts, n⟩ (.yield word value) ⟨us, k⟩ false
  | whileLoop {word opening closing : Token} {ts us : List Token} {n k : Nat} {condition : Expr}
      {body : Stmt} {q : Place} {o : Bool} :
      word.kind = .whileWord → opening.kind = .leftParen →
      Derives .expression ⟨ts, n⟩ condition ⟨closing :: us, k⟩ → closing.kind = .rightParen →
      Statement rule ⟨us, k⟩ body q o →
      Statement rule ⟨word :: opening :: ts, n⟩ (.loop condition body) q o
  | block {p q : Place} {body : List Stmt} :
      Block rule p body q → Statement rule p (.block body) q false

/-- Declarations between braces. -/
inductive Block (rule : ElseRule) : Place → List Stmt → Place → Prop
  | mk {opening closing : Token} {ts us : List Token} {n k : Nat} {body : List Stmt} :
      opening.kind = .leftBrace → Declarations rule ⟨ts, n⟩ body ⟨closing :: us, k⟩ →
      closing.kind = .rightBrace → Block rule ⟨opening :: ts, n⟩ body ⟨us, k⟩

inductive Declaration (rule : ElseRule) : Place → Stmt → Place → Prop
  | classDecl {word name opening closing : Token} {ts us vs : List Token} {n m k : Nat}
      {superclass : Option Expr} {methods : List Function} :
      word.kind = .classWord → name.kind = .identifier →
      Superclass ⟨ts, n⟩ superclass ⟨opening :: us, m⟩ → opening.kind = .leftBrace →
      Routines rule ⟨us, m⟩ methods ⟨closing :: vs, k⟩ → closing.kind = .rightBrace →
      Declaration rule ⟨word :: name :: ts, n⟩ (.classDecl name superclass methods) ⟨vs, k⟩
  | function {word : Token} {ts : List Token} {n : Nat} {f : Function} {q : Place} :
      word.kind = .funWord → Routine rule ⟨ts, n⟩ f q →
      Declaration rule ⟨word :: ts, n⟩ (.function f) q
  | varDecl {p q : Place} {s : Stmt} :
      VariableDeclaration p s q → Declaration rule p s q
  | statement {p q : Place} {s : Stmt} {o : Bool} :
      Statement rule p s q o → Declaration rule p s q

inductive Declarations (rule : ElseRule) : Place → List Stmt → Place → Prop
  | done {p : Place} : Declarations rule p [] p
  | step {p q r : Place} {s : Stmt} {body : List Stmt} :
      Declaration rule p s q → Declarations rule q body r → Declarations rule p (s :: body) r

/-- A function or method, from its name on. -/
inductive Routine (rule : ElseRule) : Place → Function → Place → Prop
  | mk {name opening closing : Token} {ts us : List Token} {n m : Nat} {parameters : List Token}
      {body : List Stmt} {q : Place} :
      name.kind = .identifier → opening.kind = .leftParen →
      Parameters ⟨ts, n⟩ parameters ⟨closing :: us, m⟩ → closing.kind = .rightParen →
      Block rule ⟨us, m⟩ body q →
      Routine rule ⟨name :: opening :: ts, n⟩ ⟨name, parameters, body⟩ q

inductive Routines (rule : ElseRule) : Place → List Function → Place → Prop
  | done {p : Place} : Routines rule p [] p
  | step {p q r : Place} {f : Function} {methods : List Function} :
      Routine rule p f q → Routines rule q methods r → Routines rule p (f :: methods) r

end

/-- A token list that is a program from its beginning to its end. -/
def Program (rule : ElseRule) (tokens : List Token) (firstId : Nat) (program : List Stmt)
    (nextId : Nat) : Prop :=
  ∃ body, Unmarked tokens body ∧ Declarations rule ⟨body, firstId⟩ program ⟨[], nextId⟩

/-! ## Phrases take tokens -/

theorem OptionalExpression.length_le {p q : Place} {e : Option Expr} :
    OptionalExpression p e q → q.tokens.length ≤ p.tokens.length
  | .absent => Nat.le_refl _
  | .present h => Nat.le_of_lt h.length_lt

theorem VariableDeclaration.length_lt {p q : Place} {s : Stmt} :
    VariableDeclaration p s q → q.tokens.length < p.tokens.length
  | .plain _ _ _ => by simp; omega
  | .initialized _ _ _ h _ => by
    have := h.length_lt
    simp only [List.length_cons] at this ⊢
    omega

theorem ExpressionStatement.length_lt {p q : Place} {s : Stmt} :
    ExpressionStatement p s q → q.tokens.length < p.tokens.length
  | .mk h _ => Nat.lt_trans (Nat.lt_succ_self _) h.length_lt

theorem FirstClause.length_lt {p q : Place} {s : Option Stmt} :
    FirstClause p s q → q.tokens.length < p.tokens.length
  | .absent _ => Nat.lt_succ_self _
  | .varDecl h => h.length_lt
  | .expression h => h.length_lt

theorem MoreNames.length_le {p q : Place} {names : List Token} :
    MoreNames p names q → q.tokens.length ≤ p.tokens.length := by
  intro h
  induction h with
  | done => exact Nat.le_refl _
  | step _ _ _ ih => exact Nat.le_trans ih (by simp; omega)

theorem Parameters.length_le {p q : Place} {names : List Token} :
    Parameters p names q → q.tokens.length ≤ p.tokens.length
  | .none => Nat.le_refl _
  | .some _ h _ => Nat.le_trans h.length_le (Nat.le_succ _)

theorem Superclass.length_le {p q : Place} {e : Option Expr} :
    Superclass p e q → q.tokens.length ≤ p.tokens.length
  | .absent => Nat.le_refl _
  | .present _ _ => by simp; omega

section

variable {rule : ElseRule}

mutual

theorem Statement.length_lt {p q : Place} {s : Stmt} {o : Bool} :
    Statement rule p s q o → q.tokens.length < p.tokens.length
  | .expression h => h.length_lt
  | .forLoop _ _ hfirst hcondition _ hincrement _ hbody => by
    have h₁ := hfirst.length_lt
    have h₂ := hcondition.length_le
    have h₃ := hincrement.length_le
    have h₄ := hbody.length_lt
    simp only [List.length_cons] at h₁ h₂ h₃ h₄ ⊢
    omega
  | .ifThen _ _ hcondition _ hthen => by
    have h₁ := hcondition.length_lt
    have h₂ := hthen.length_lt
    simp only [List.length_cons] at h₁ h₂ ⊢
    omega
  | .ifElse _ _ hcondition _ hthen _ _ helse => by
    have h₁ := hcondition.length_lt
    have h₂ := hthen.length_lt
    have h₃ := helse.length_lt
    simp only [List.length_cons] at h₁ h₂ h₃ ⊢
    omega
  | .print _ h _ => Nat.lt_trans (Nat.lt_succ_self _) (Nat.lt_succ_of_lt h.length_lt)
  | .yield _ h _ => Nat.lt_succ_of_le (Nat.le_trans (Nat.le_succ _) h.length_le)
  | .whileLoop _ _ hcondition _ hbody => by
    have h₁ := hcondition.length_lt
    have h₂ := hbody.length_lt
    simp only [List.length_cons] at h₁ h₂ ⊢
    omega
  | .block h => h.length_lt

theorem Block.length_lt {p q : Place} {body : List Stmt} :
    Block rule p body q → q.tokens.length < p.tokens.length
  | .mk _ h _ => Nat.lt_succ_of_le (Nat.le_trans (Nat.le_succ _) h.length_le)

theorem Declaration.length_lt {p q : Place} {s : Stmt} :
    Declaration rule p s q → q.tokens.length < p.tokens.length
  | .classDecl _ _ hsuperclass _ hmethods _ => by
    have h₁ := hsuperclass.length_le
    have h₂ := hmethods.length_le
    simp only [List.length_cons] at h₁ h₂ ⊢
    omega
  | .function _ h => Nat.lt_succ_of_lt h.length_lt
  | .varDecl h => h.length_lt
  | .statement h => h.length_lt

theorem Declarations.length_le {p q : Place} {body : List Stmt} :
    Declarations rule p body q → q.tokens.length ≤ p.tokens.length
  | .done => Nat.le_refl _
  | .step h hs => Nat.le_trans hs.length_le (Nat.le_of_lt h.length_lt)

theorem Routine.length_lt {p q : Place} {f : Function} :
    Routine rule p f q → q.tokens.length < p.tokens.length
  | .mk _ _ hparameters _ h => by
    have h₁ := hparameters.length_le
    have h₂ := h.length_lt
    simp only [List.length_cons] at h₁ h₂ ⊢
    omega

theorem Routines.length_le {p q : Place} {methods : List Function} :
    Routines rule p methods q → q.tokens.length ≤ p.tokens.length
  | .done => Nat.le_refl _
  | .step h hs => Nat.le_trans hs.length_le (Nat.le_of_lt h.length_lt)

end

end

/-! ## How statements begin -/

/-- The kinds that a statement may begin with. -/
def beginsStatement (kind : Kind) : Bool :=
  Level.expression.begins kind ||
    [.forWord, .ifWord, .printWord, .returnWord, .whileWord, .leftBrace].contains kind

/-- The kinds that a declaration may begin with. -/
def beginsDeclaration (kind : Kind) : Bool :=
  beginsStatement kind || [.classWord, .funWord, .varWord].contains kind

theorem VariableDeclaration.begins {p q : Place} {s : Stmt} :
    VariableDeclaration p s q → ∃ t ts, p.tokens = t :: ts ∧ t.kind = .varWord
  | .plain hw _ _ | .initialized hw _ _ _ _ => ⟨_, _, rfl, hw⟩

theorem ExpressionStatement.begins {p q : Place} {s : Stmt} :
    ExpressionStatement p s q → ∃ t ts, p.tokens = t :: ts ∧ Level.expression.begins t.kind = true
  | .mk h _ => h.begins

section

variable {rule : ElseRule}

theorem Statement.begins {p q : Place} {s : Stmt} {o : Bool} :
    Statement rule p s q o → ∃ t ts, p.tokens = t :: ts ∧ beginsStatement t.kind = true
  | .expression h => by
    obtain ⟨t, ts, hp, ht⟩ := h.begins
    exact ⟨t, ts, hp, by rw [beginsStatement, ht, Bool.true_or]⟩
  | .forLoop hw _ _ _ _ _ _ _ | .ifThen hw _ _ _ _ | .ifElse hw _ _ _ _ _ _ _
  | .print hw _ _ | .yield hw _ _ | .whileLoop hw _ _ _ _ | .block (.mk hw _ _) =>
    ⟨_, _, rfl, by rw [hw]; rfl⟩

theorem Declaration.begins {p q : Place} {s : Stmt} :
    Declaration rule p s q → ∃ t ts, p.tokens = t :: ts ∧ beginsDeclaration t.kind = true
  | .classDecl hw _ _ _ _ _ | .function hw _ => ⟨_, _, rfl, by rw [hw]; rfl⟩
  | .varDecl h => by
    obtain ⟨t, ts, hp, ht⟩ := h.begins
    exact ⟨t, ts, hp, by rw [ht]; rfl⟩
  | .statement h => by
    obtain ⟨t, ts, hp, ht⟩ := h.begins
    exact ⟨t, ts, hp, by rw [beginsDeclaration, ht, Bool.true_or]⟩

/-- No declaration begins with `else`. -/
theorem Declarations.ends_else {p q : Place} {body : List Stmt}
    (h : Declarations rule p body q) (hq : q.Ends (· == .elseWord)) :
    p.Ends (· == .elseWord) := by
  cases h with
  | done => exact hq
  | step h _ => exact Place.ends_of_begins h.begins (ne_of_class rfl)

end

/-! ## The nearest conditional -/

mutual

/-- The rule of the nearest conditional only leaves derivations out. -/
theorem Statement.any {p q : Place} {s : Stmt} {o : Bool} :
    Statement .nearest p s q o → Statement .any p s q o
  | .expression h => .expression h
  | .forLoop hw ho hfirst hcondition hs hincrement hc hbody =>
    .forLoop hw ho hfirst hcondition hs hincrement hc hbody.any
  | .ifThen hw ho hcondition hc hthen => .ifThen hw ho hcondition hc hthen.any
  | .ifElse hw ho hcondition hc hthen hword _ hrest =>
    .ifElse hw ho hcondition hc hthen.any hword (fun h => nomatch h) hrest.any
  | .print hw h hs => .print hw h hs
  | .yield hw h hs => .yield hw h hs
  | .whileLoop hw ho hcondition hc hbody => .whileLoop hw ho hcondition hc hbody.any
  | .block h => .block h.any

theorem Block.any {p q : Place} {body : List Stmt} :
    Block .nearest p body q → Block .any p body q
  | .mk ho h hc => .mk ho h.any hc

theorem Declaration.any {p q : Place} {s : Stmt} :
    Declaration .nearest p s q → Declaration .any p s q
  | .classDecl hw hn hsuperclass ho hmethods hc => .classDecl hw hn hsuperclass ho hmethods.any hc
  | .function hw h => .function hw h.any
  | .varDecl h => .varDecl h
  | .statement h => .statement h.any

theorem Declarations.any {p q : Place} {body : List Stmt} :
    Declarations .nearest p body q → Declarations .any p body q
  | .done => .done
  | .step h hs => .step h.any hs.any

theorem Routine.any {p q : Place} {f : Function} :
    Routine .nearest p f q → Routine .any p f q
  | .mk hn ho hparameters hc h => .mk hn ho hparameters hc h.any

theorem Routines.any {p q : Place} {methods : List Function} :
    Routines .nearest p methods q → Routines .any p methods q
  | .done => .done
  | .step h hs => .step h.any hs.any

end

end Lox.Grammar
