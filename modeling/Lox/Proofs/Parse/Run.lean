import Mathlib
import Lox.Proofs.Parse.Strict

/-
  Runs of grammar rules

  A rule that is run takes tokens off the front of the list, appends to the
  errors, hands out ids upwards and leaves the end marker alone, whether it ends
  with a tree or with an error (`Forward`). The property passes through
  sequencing, choice and recovery, so every rule of the grammar has it, whatever
  number bounds its nesting.
-/

namespace Lox.Parse

section Sequences

variable {α β : Type} {x : Parser α} {f : α → Parser β} {s t : ParseState}

theorem bind_of_ok {a : α} (h : x s = .ok a t) : (x >>= f) s = f a t := by
  show EStateM.bind x f s = f a t
  simp only [EStateM.bind, h]

theorem bind_of_error {e : SyntaxError} (h : x s = .error e t) : (x >>= f) s = .error e t := by
  show EStateM.bind x f s = .error e t
  simp only [EStateM.bind, h]

/-- A sequence that ends with a result went through both parts. -/
theorem ok_of_bind {b : β} (h : (x >>= f) s = .ok b t) :
    ∃ a u, x s = .ok a u ∧ f a u = .ok b t := by
  cases hx : x s with
  | ok a u => exact ⟨a, u, rfl, by rwa [bind_of_ok hx] at h⟩
  | error e u => rw [bind_of_error hx] at h; cases h

theorem map_of_ok {g : α → β} {a : α} (h : x s = .ok a t) : (g <$> x) s = .ok (g a) t := by
  show EStateM.map g x s = _
  simp only [EStateM.map, h]

theorem map_of_error {g : α → β} {e : SyntaxError} (h : x s = .error e t) :
    (g <$> x) s = .error e t := by
  show EStateM.map g x s = _
  simp only [EStateM.map, h]

theorem ok_of_map {g : α → β} {b : β} (h : (g <$> x) s = .ok b t) :
    ∃ a, x s = .ok a t ∧ g a = b := by
  cases hx : x s with
  | ok a u => rw [map_of_ok hx] at h; cases h; exact ⟨a, rfl, rfl⟩
  | error e u => rw [map_of_error hx] at h; cases h

/-- What is done with the result of a run is done with that of an equal run. -/
theorem bind_pure_eq_map {y : Parser α} {g : α → β} (h : x s = y t) :
    (x >>= fun a => pure (g a)) s = (g <$> y) t := by
  cases hy : y t with
  | ok a u => rw [map_of_ok hy, bind_of_ok (h.trans hy)]; rfl
  | error e u => rw [map_of_error hy, bind_of_error (h.trans hy)]

theorem recover_of_ok {rule : Parser Stmt} {a : Stmt} (h : rule s = .ok a t) :
    recover rule s = .ok (some a) t := by
  show EStateM.tryCatch _ _ s = _
  simp only [EStateM.tryCatch, bind_of_ok h]
  rfl

/-- After an error the error is recorded and the rule goes on. -/
theorem recover_of_error {rule : Parser Stmt} {e : SyntaxError} (h : rule s = .error e t) :
    recover rule s = (record e >>= fun _ => resynchronize >>= fun _ => pure none) t := by
  show EStateM.tryCatch _ _ s = _
  simp only [EStateM.tryCatch, bind_of_error h]
  rfl

end Sequences

section Loops

variable {α : Type} {s : ParseState} {more : Parser (List α)}

/-- A loop up to the end of a block stops at a brace and at the end of the tokens. -/
theorem untilBrace_stop (h : ∀ t ∈ s.rest.head?, t.kind = .rightBrace) :
    (do if (← check (· == .rightBrace)) || (← atEnd) then pure [] else more : Parser (List α)) s =
      .ok [] s := by
  obtain ⟨_ | ⟨t, ts⟩, eof, errors, nextId⟩ := s
  · rfl
  · have hinside : check (· == .rightBrace) ⟨t :: ts, eof, errors, nextId⟩ =
        .ok true ⟨t :: ts, eof, errors, nextId⟩ := by
      simp only [check, h t rfl]
      rfl
    exact (bind_of_ok hinside).trans rfl

/-- Before any other token it goes on. -/
theorem untilBrace_next (h : ∃ t ∈ s.rest.head?, t.kind ≠ .rightBrace) :
    (do if (← check (· == .rightBrace)) || (← atEnd) then pure [] else more : Parser (List α)) s =
      more s := by
  obtain ⟨t, ht, hkind⟩ := h
  obtain ⟨_ | ⟨t, ts⟩, eof, errors, nextId⟩ := s
  · cases ht
  · cases ht
    have hinside : check (· == .rightBrace) ⟨t :: ts, eof, errors, nextId⟩ =
        .ok false ⟨t :: ts, eof, errors, nextId⟩ := by
      simp only [check, beq_false_of_ne hkind]
    exact (bind_of_ok hinside).trans rfl

/-- A loop up to the end of the tokens goes on before any of them. -/
theorem atEnd_of_cons {t : Token} {ts : List Token} (h : s.rest = t :: ts) :
    atEnd s = .ok false s := by
  rw [atEnd, h]
  rfl

end Loops

/-! ## Going forward -/

/-- The state in which a rule ends. -/
def stateAfter {α : Type} (rule : Parser α) (s : ParseState) : ParseState :=
  match rule s with
  | .ok _ t => t
  | .error _ t => t

/-- What lies between the states before and after some parsing. -/
structure Advances (s t : ParseState) : Prop where
  rest : t.rest <:+ s.rest
  errors : s.errors <+: t.errors
  eof : t.eof = s.eof
  nextId : s.nextId ≤ t.nextId

namespace Advances

theorem refl (s : ParseState) : Advances s s :=
  ⟨List.suffix_refl _, List.prefix_refl _, rfl, Nat.le_refl _⟩

theorem trans {s t u : ParseState} (h₁ : Advances s t) (h₂ : Advances t u) : Advances s u :=
  ⟨h₂.rest.trans h₁.rest, h₁.errors.trans h₂.errors, h₂.eof.trans h₁.eof,
    Nat.le_trans h₁.nextId h₂.nextId⟩

theorem length_le {s t : ParseState} (h : Advances s t) : t.rest.length ≤ s.rest.length :=
  h.rest.length_le

/-- Without an error at the end there was none before. -/
theorem errors_nil {s t : ParseState} (h : Advances s t) (ht : t.errors = []) : s.errors = [] :=
  List.prefix_nil.1 (ht ▸ h.errors)

end Advances

/-- However a run of the rule ends, it went forward. -/
def Forward {α : Type} (rule : Parser α) : Prop := ∀ s, Advances s (stateAfter rule s)

namespace Forward

theorem of_ok {α : Type} {rule : Parser α} (h : Forward rule) {s t : ParseState} {a : α}
    (hs : rule s = .ok a t) : Advances s t := by
  have := h s
  rwa [stateAfter, hs] at this

theorem of_error {α : Type} {rule : Parser α} (h : Forward rule) {s t : ParseState}
    {e : SyntaxError} (hs : rule s = .error e t) : Advances s t := by
  have := h s
  rwa [stateAfter, hs] at this

theorem pure {α : Type} (a : α) : Forward (Pure.pure a : Parser α) := .refl

theorem throw {α : Type} (e : SyntaxError) : Forward (MonadExcept.throw e : Parser α) :=
  .refl

theorem bind {α β : Type} {x : Parser α} {f : α → Parser β} (hx : Forward x)
    (hf : ∀ a, Forward (f a)) : Forward (x >>= f) := by
  intro s
  cases h : x s with
  | ok a t =>
    have h₂ := hf a t
    rw [stateAfter, bind_of_ok h]
    exact (hx.of_ok h).trans h₂
  | error e t =>
    rw [stateAfter, bind_of_error h]
    exact hx.of_error h

theorem map {α β : Type} {x : Parser α} (g : α → β) (hx : Forward x) : Forward (g <$> x) := by
  intro s
  cases h : x s with
  | ok a t => rw [stateAfter, map_of_ok h]; exact hx.of_ok h
  | error e t => rw [stateAfter, map_of_error h]; exact hx.of_error h

theorem ite {α : Type} {c : Prop} [Decidable c] {x y : Parser α} (hx : Forward x)
    (hy : Forward y) : Forward (if c then x else y) := by
  split
  · exact hx
  · exact hy

theorem peek : Forward peek := .refl

theorem atEnd : Forward atEnd := .refl

theorem fail {α : Type} (problem : SyntaxProblem) : Forward (fail problem : Parser α) :=
  .refl

theorem record (e : SyntaxError) : Forward (record e) := fun _ =>
  ⟨List.suffix_refl _, List.prefix_append _ _, rfl, Nat.le_refl _⟩

theorem freshId : Forward freshId := fun _ =>
  ⟨List.suffix_refl _, List.prefix_refl _, rfl, Nat.le_succ _⟩

theorem check (p : Kind → Bool) : Forward (check p) := by
  intro s
  simp only [stateAfter, Parse.check]
  cases s.rest <;> exact .refl s

/-- Taking the next token goes forward. -/
theorem advances_tail {s : ParseState} {t : Token} {ts : List Token} (h : s.rest = t :: ts) :
    Advances s { s with rest := ts } :=
  ⟨h ▸ List.suffix_cons t ts, List.prefix_refl _, rfl, Nat.le_refl _⟩

theorem take? (p : Kind → Bool) : Forward (take? p) := by
  intro s
  simp only [stateAfter, Parse.take?]
  cases h : s.rest with
  | nil => exact .refl s
  | cons t ts =>
    by_cases hp : p t.kind
    · simpa only [hp, if_true] using advances_tail h
    · simpa only [hp, if_false] using .refl s

theorem accept (k : Kind) : Forward (accept k) := by
  intro s
  simp only [stateAfter, Parse.accept]
  cases h : s.rest with
  | nil => exact .refl s
  | cons t ts =>
    by_cases hk : t.kind = k
    · simpa only [hk, if_true] using advances_tail h
    · simpa only [hk, if_false] using .refl s

theorem expect (k : Kind) (problem : SyntaxProblem) : Forward (expect k problem) := by
  intro s
  simp only [stateAfter, Parse.expect]
  cases h : s.rest with
  | nil => exact .refl s
  | cons t ts =>
    by_cases hk : t.kind = k
    · simpa only [hk, if_true] using advances_tail h
    · simpa only [hk, if_false] using .refl s

theorem afterNext {α : Type} (k : Kind) (absent : α) {rule : Parser α} (h : Forward rule) :
    Forward (afterNext k absent rule) :=
  .bind (.accept k) fun _ => .ite h (.pure absent)

theorem unlessNext {α : Type} (k : Kind) (absent : α) {rule : Parser α} (h : Forward rule) :
    Forward (unlessNext k absent rule) :=
  .bind (.check _) fun _ => .ite (.pure absent) h

theorem skipToStatement_suffix (previous : Token) (ts : List Token) :
    skipToStatement previous ts <:+ ts := by
  induction ts generalizing previous with
  | nil => exact List.suffix_refl _
  | cons t ts ih =>
    rw [skipToStatement]
    split
    · exact List.suffix_refl _
    · split
      · exact List.suffix_refl _
      · exact (ih t).trans (List.suffix_cons t ts)

theorem resynchronize : Forward resynchronize := by
  intro s
  simp only [stateAfter, Parse.resynchronize]
  cases h : s.rest with
  | nil => exact .refl s
  | cons t ts =>
    refine ⟨?_, List.prefix_refl _, rfl, Nat.le_refl _⟩
    rw [h]
    exact (skipToStatement_suffix t ts).trans (List.suffix_cons t ts)

theorem recover {rule : Parser Stmt} (h : Forward rule) : Forward (recover rule) := by
  intro s
  cases hs : rule s with
  | ok a t =>
    rw [stateAfter, recover_of_ok hs]
    exact h.of_ok hs
  | error e t =>
    have hc : Forward (Parse.record e >>= fun _ => Parse.resynchronize >>= fun _ =>
        (Pure.pure none : Parser (Option Stmt))) :=
      .bind (.record e) fun _ => .bind .resynchronize fun _ => .pure none
    rw [stateAfter, recover_of_error hs]
    exact (h.of_error hs).trans (hc t)

end Forward

/-! ## Every rule of the grammar goes forward -/

theorem forward_limit (count : Nat) (problem : SyntaxProblem) : Forward (limit count problem) :=
  .ite (.bind .peek fun _ => .record _) (.pure ())

theorem forward_leftChain {operand : Parser Expr} (h : Forward operand) (p : Kind → Bool)
    (combine : Expr → Token → Expr → Expr) (n : Nat) (left : Expr) :
    Forward (leftChain operand p combine n left) := by
  induction n generalizing left with
  | zero => exact .pure left
  | succ n ih =>
    rw [leftChain]
    refine .bind (.take? p) fun next => ?_
    cases next with
    | none => exact .pure left
    | some operator => exact .bind h fun right => ih _

theorem forward_leftLevel {operand : Parser Expr} (h : Forward operand) (p : Kind → Bool)
    (combine : Expr → Token → Expr → Expr) (n : Nat) :
    Forward (leftLevel n operand p combine) :=
  .bind h fun first => forward_leftChain h p combine n first

section Expressions

variable {nested : Parser Expr} (hn : Forward nested)
include hn

theorem forward_moreItems (n : Nat) : Forward (moreItems nested n) := by
  induction n with
  | zero => exact .pure []
  | succ n ih =>
    rw [moreItems]
    exact .bind (.accept _) fun _ =>
      .ite (.bind hn fun _ => .bind ih fun _ => .pure _) (.pure [])

theorem forward_expressionOf (n : Nat) : Forward (expressionOf nested n) := by
  refine .bind hn fun first => .bind (forward_moreItems hn n) fun items => ?_
  split
  · exact .pure _
  · exact .pure _

theorem forward_arguments (count n : Nat) : Forward (arguments nested count n) := by
  induction n generalizing count with
  | zero => exact .pure []
  | succ n ih =>
    rw [arguments]
    exact .bind (forward_limit _ _) fun _ => .bind hn fun _ => .bind (.accept _) fun _ =>
      .ite (.bind (ih _) fun _ => .pure _) (.pure _)

theorem forward_finishCall (n : Nat) (callee : Expr) : Forward (finishCall nested n callee) :=
  .bind (.unlessNext _ _ (forward_arguments hn 0 n)) fun _ =>
    .bind (.expect _ _) fun _ => .pure _

theorem forward_suffixes (n k : Nat) (e : Expr) : Forward (suffixes nested n k e) := by
  induction k generalizing e with
  | zero => exact .pure e
  | succ k ih =>
    rw [suffixes]
    exact .bind (.accept _) fun _ =>
      .ite (.bind (forward_finishCall hn n e) fun e => ih e)
        (.bind (.accept _) fun _ => .ite (.bind (.expect _ _) fun _ => ih _) (.pure e))

theorem forward_primaryFrom (n : Nat) (t : Token) : Forward (primaryFrom nested n t) := by
  rw [primaryFrom]
  split
  case h_6 =>
    exact .bind (.expect _ _) fun _ => .bind (.expect _ _) fun _ =>
      .bind .freshId fun _ => .pure _
  case h_7 => exact .bind .freshId fun _ => .pure _
  case h_8 => exact .bind .freshId fun _ => .pure _
  case h_9 => exact .bind (forward_expressionOf hn n) fun _ => .bind (.expect _ _) fun _ => .pure _
  case h_10 => exact .fail _
  all_goals exact .pure _

theorem forward_primary (n : Nat) : Forward (primary nested n) := by
  refine .bind (.take? _) fun next => ?_
  cases next with
  | none => exact .fail _
  | some t => exact forward_primaryFrom hn n t

theorem forward_call (n : Nat) : Forward (call nested n) :=
  .bind (forward_primary hn n) fun e => forward_suffixes hn n n e

theorem forward_unary (n k : Nat) : Forward (unary nested n k) := by
  induction k with
  | zero => exact .fail _
  | succ k ih =>
    rw [unary]
    refine .bind (.take? _) fun next => ?_
    cases next with
    | none => exact forward_call hn n
    | some operator => exact .bind ih fun _ => .pure _

theorem forward_factor (n : Nat) : Forward (factor nested n) :=
  forward_leftLevel (forward_unary hn n n) _ _ n

theorem forward_term (n : Nat) : Forward (term nested n) :=
  forward_leftLevel (forward_factor hn n) _ _ n

theorem forward_comparison (n : Nat) : Forward (comparison nested n) :=
  forward_leftLevel (forward_term hn n) _ _ n

theorem forward_equality (n : Nat) : Forward (equality nested n) :=
  forward_leftLevel (forward_comparison hn n) _ _ n

theorem forward_conjunction (n : Nat) : Forward (conjunction nested n) :=
  forward_leftLevel (forward_equality hn n) _ _ n

theorem forward_disjunction (n : Nat) : Forward (disjunction nested n) :=
  forward_leftLevel (forward_conjunction hn n) _ _ n

theorem forward_choice (n k : Nat) : Forward (choice nested n k) := by
  induction k with
  | zero => exact .fail _
  | succ k ih =>
    rw [choice]
    exact .bind (forward_disjunction hn n) fun _ => .bind (.accept _) fun _ =>
      .ite (.bind (forward_expressionOf hn n) fun _ => .bind (.expect _ _) fun _ =>
        .bind ih fun _ => .pure _) (.pure _)

theorem forward_assignTo (target : Expr) (equals : Token) :
    Forward (assignTo nested target equals) := by
  refine .bind hn fun value => ?_
  split
  · exact .pure _
  · exact .pure _
  · exact .bind (.record _) fun _ => .pure _

theorem forward_assignmentOf (n : Nat) : Forward (assignmentOf nested n) := by
  refine .bind (forward_choice hn n n) fun target => .bind (.take? _) fun next => ?_
  cases next with
  | none => exact .pure _
  | some equals => exact forward_assignTo hn target equals

end Expressions

theorem forward_assignment (n : Nat) : Forward (assignment n) := by
  induction n with
  | zero => exact .fail _
  | succ n ih => exact forward_assignmentOf ih (n + 1)

theorem forward_expression (n : Nat) : Forward (expression n) :=
  forward_expressionOf (forward_assignment n) n

theorem forward_parameters (count n : Nat) : Forward (parameters count n) := by
  induction n generalizing count with
  | zero => exact .pure []
  | succ n ih =>
    rw [parameters]
    exact .bind (forward_limit _ _) fun _ => .bind (.expect _ _) fun _ => .bind (.accept _) fun _ =>
      .ite (.bind (ih _) fun _ => .pure _) (.pure _)

theorem forward_variableRest (n : Nat) : Forward (variableRest n) :=
  .bind (.expect _ _) fun _ => .bind (.afterNext _ _ (.map _ (forward_expression n))) fun _ =>
    .bind (.expect _ _) fun _ => .pure _

theorem forward_expressionStatement (n : Nat) : Forward (expressionStatement n) :=
  .bind (forward_expression n) fun _ => .bind (.expect _ _) fun _ => .pure _

theorem forward_printRest (n : Nat) : Forward (printRest n) :=
  .bind (forward_expression n) fun _ => .bind (.expect _ _) fun _ => .pure _

theorem forward_returnRest (n : Nat) (keyword : Token) : Forward (returnRest n keyword) :=
  .bind (.unlessNext _ _ (.map _ (forward_expression n))) fun _ =>
    .bind (.expect _ _) fun _ => .pure _

theorem forward_forInitial (n : Nat) : Forward (forInitial n) :=
  .bind (.accept _) fun _ => .ite (.pure none) (.bind (.accept _) fun _ =>
    .map _ (.ite (forward_variableRest n) (forward_expressionStatement n)))

theorem forward_superclass : Forward superclass :=
  .bind (.expect _ _) fun _ => .bind .freshId fun _ => .pure _

section Statements

variable {nestedStatement : Parser Stmt} {nestedDeclaration : Parser (Option Stmt)}

theorem forward_declarations (hd : Forward nestedDeclaration) (n : Nat) :
    Forward (declarations nestedDeclaration n) := by
  induction n with
  | zero => exact .pure []
  | succ n ih =>
    rw [declarations]
    exact .bind (.check _) fun _ => .bind .atEnd fun _ =>
      .ite (.pure []) (.bind hd fun _ => .bind ih fun _ => .pure _)

theorem forward_blockRest (hd : Forward nestedDeclaration) (n : Nat) :
    Forward (blockRest nestedDeclaration n) :=
  .bind (forward_declarations hd n) fun _ => .bind (.expect _ _) fun _ => .pure _

theorem forward_functionOf (hd : Forward nestedDeclaration) (n : Nat) (r : Routine) :
    Forward (functionOf nestedDeclaration n r) :=
  .bind (.expect _ _) fun _ => .bind (.expect _ _) fun _ =>
    .bind (.unlessNext _ _ (forward_parameters 0 n)) fun _ => .bind (.expect _ _) fun _ =>
      .bind (.expect _ _) fun _ => .bind (forward_blockRest hd n) fun _ => .pure _

theorem forward_methods (hd : Forward nestedDeclaration) (n k : Nat) :
    Forward (methods nestedDeclaration n k) := by
  induction k with
  | zero => exact .pure []
  | succ k ih =>
    rw [methods]
    exact .bind (.check _) fun _ => .bind .atEnd fun _ =>
      .ite (.pure []) (.bind (forward_functionOf hd n _) fun _ => .bind ih fun _ => .pure _)

theorem forward_classRest (hd : Forward nestedDeclaration) (n : Nat) :
    Forward (classRest nestedDeclaration n) :=
  .bind (.expect _ _) fun _ => .bind (.afterNext _ _ (.map _ forward_superclass)) fun _ =>
    .bind (.expect _ _) fun _ => .bind (forward_methods hd n n) fun _ =>
      .bind (.expect _ _) fun _ => .pure _

theorem forward_forRest (hs : Forward nestedStatement) (n : Nat) :
    Forward (forRest nestedStatement n) :=
  .bind (.expect _ _) fun _ => .bind (forward_forInitial n) fun _ =>
    .bind (.unlessNext _ _ (.map _ (forward_expression n))) fun _ => .bind (.expect _ _) fun _ =>
      .bind (.unlessNext _ _ (.map _ (forward_expression n))) fun _ => .bind (.expect _ _) fun _ =>
        .bind hs fun _ => .pure _

theorem forward_ifRest (hs : Forward nestedStatement) (n : Nat) :
    Forward (ifRest nestedStatement n) :=
  .bind (.expect _ _) fun _ => .bind (forward_expression n) fun _ => .bind (.expect _ _) fun _ =>
    .bind hs fun _ => .bind (.afterNext _ _ (.map _ hs)) fun _ => .pure _

theorem forward_whileRest (hs : Forward nestedStatement) (n : Nat) :
    Forward (whileRest nestedStatement n) :=
  .bind (.expect _ _) fun _ => .bind (forward_expression n) fun _ => .bind (.expect _ _) fun _ =>
    .bind hs fun _ => .pure _

theorem forward_statementOf (hs : Forward nestedStatement) (hd : Forward nestedDeclaration)
    (n : Nat) : Forward (statementOf nestedStatement nestedDeclaration n) := by
  refine .bind (.take? _) fun next => ?_
  cases next with
  | none => exact forward_expressionStatement n
  | some t =>
    dsimp only
    split
    · exact forward_forRest hs n
    · exact forward_ifRest hs n
    · exact forward_whileRest hs n
    · exact forward_returnRest n t
    · exact .map _ (forward_blockRest hd n)
    · exact forward_printRest n

theorem forward_strictly (hs : Forward nestedStatement) (hd : Forward nestedDeclaration) (n : Nat) :
    Forward (Strict.declarationOf nestedStatement nestedDeclaration n) := by
  refine .bind (.take? _) fun next => ?_
  cases next with
  | none => exact forward_statementOf hs hd n
  | some t =>
    dsimp only
    split
    · exact forward_classRest hd n
    · exact .map _ (forward_functionOf hd n _)
    · exact forward_variableRest n

theorem forward_declarationOf (hs : Forward nestedStatement) (hd : Forward nestedDeclaration)
    (n : Nat) : Forward (declarationOf nestedStatement nestedDeclaration n) :=
  .recover (forward_strictly hs hd n)

end Statements

theorem forward_statement_declaration (n : Nat) :
    Forward (statement n) ∧ Forward (declaration n) := by
  induction n with
  | zero => exact ⟨.fail _, .pure none⟩
  | succ n ih =>
    obtain ⟨hs, hd⟩ := ih
    exact ⟨forward_statementOf hs hd (n + 1), forward_declarationOf hs hd (n + 1)⟩

theorem forward_statement (n : Nat) : Forward (statement n) := (forward_statement_declaration n).1

theorem forward_declaration (n : Nat) : Forward (declaration n) :=
  (forward_statement_declaration n).2

theorem forward_program (n k : Nat) : Forward (program n k) := by
  induction k with
  | zero => exact .pure []
  | succ k ih =>
    rw [program]
    exact .bind .atEnd fun _ =>
      .ite (.pure []) (.bind (forward_declaration n) fun _ => .bind ih fun _ => .pure _)

theorem forward_endOfInput : Forward endOfInput :=
  .bind .atEnd fun _ => .ite (.pure ()) (.bind .peek fun _ => .record _)

theorem forward_wholeExpression (n : Nat) : Forward (wholeExpression n) :=
  .bind (forward_expression n) fun _ => .bind forward_endOfInput fun _ => .pure _

end Lox.Parse
