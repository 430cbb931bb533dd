import Lox.Proofs.Parse.Run

/-
  Position — where among the tokens the parser stands

  The rules take tokens off a list that ends before the first end marker. Here the
  parser is an index into all the tokens, the end markers and what follows them
  included (`Cursor`). It looks at the token under the index and at the one in
  front, and it moves by `advance` alone. A state is `At` a cursor if the list is what
  the cursor has before it up to the next end marker. Then what the rules are built
  from does to the state what the operation of the same purpose does to the cursor, and
  every rule leaves off where some number of advances leads. An index may be anywhere,
  so that none passes the first end marker (`Within`) is a property of `advance`.
-/

namespace Lox

/-- The position of the first end marker; a list without one has it behind its last token. -/
def endPosition (tokens : List Token) : Nat := tokens.findIdx Token.isEof

namespace Parse

theorem endPosition_le (tokens : List Token) : endPosition tokens ≤ tokens.length :=
  List.findIdx_le_length

theorem endPosition_drop {tokens : List Token} {i : Nat} (h : i ≤ endPosition tokens) :
    endPosition (tokens.drop i) = endPosition tokens - i := by
  have hlen : (tokens.take i).length = i :=
    List.length_take_of_le (Nat.le_trans h (endPosition_le tokens))
  have hfront : (tokens.take i).findIdx Token.isEof = i :=
    List.findIdx_take.trans (Nat.min_eq_left h)
  have hsplit : endPosition tokens = endPosition (tokens.drop i) + i := by
    conv_lhs => rw [endPosition, ← List.take_append_drop i tokens, List.findIdx_append, hfront,
      hlen, if_neg (Nat.lt_irrefl i)]
    rfl
  omega

/-- The tokens, and the index of the one that comes next. -/
structure Cursor where
  tokens : List Token
  current : Nat

namespace Cursor

/-- The token that comes next. Behind the last one that is an end marker. -/
def peek (c : Cursor) : Token := c.tokens[c.current]?.getD Token.missingEof

/-- The token before it. -/
def previous (c : Cursor) : Token := c.tokens[c.current - 1]?.getD Token.missingEof

/-- Whether an end marker comes next. -/
def isAtEnd (c : Cursor) : Bool := c.peek.isEof

/-- Whether a token comes next whose kind is of the given class. -/
def check (c : Cursor) (p : Kind → Bool) : Bool := !c.isAtEnd && p c.peek.kind

/-- Passes the next token, but no end marker. -/
def advance (c : Cursor) : Cursor :=
  if c.isAtEnd then c else { c with current := c.current + 1 }

theorem lt_of_isAtEnd {c : Cursor} (h : c.isAtEnd = false) : c.current < c.tokens.length := by
  by_contra hge
  rw [isAtEnd, peek, List.getElem?_eq_none (Nat.le_of_not_lt hge)] at h
  cases h

/-- Advances to a place where a statement may begin. -/
def toStatement (c : Cursor) : Cursor :=
  if c.isAtEnd then c
  else if c.previous.kind = .semicolon then c
  else if startsStatement c.peek.kind then c
  else c.advance.toStatement
termination_by c.tokens.length - c.current
decreasing_by
  rename_i hend _ _
  rw [advance, if_neg hend]
  exact Nat.sub_lt_sub_left (lt_of_isAtEnd (Bool.eq_false_iff.2 hend)) (Nat.lt_succ_self _)

/-- Recovery: passes the token that comes next and goes on to the next statement. -/
def synchronize (c : Cursor) : Cursor := c.advance.toStatement

/-- An optional token has a kind that end markers do not have only if it is there. -/
theorem exists_of_kind {o : Option Token} {p : Kind → Prop} (h : p (o.getD Token.missingEof).kind)
    (heof : ¬p .eof) : ∃ t, o = some t ∧ p t.kind := by
  cases o with
  | none => exact absurd h heof
  | some t => exact ⟨t, rfl, h⟩

/-- What comes before the next end marker. -/
def rest (c : Cursor) : List Token := (c.tokens.drop c.current).takeWhile (!·.isEof)

/-- The next end marker. -/
def eof (c : Cursor) : Token :=
  ((c.tokens.drop c.current).find? Token.isEof).getD Token.missingEof

/-- The first end marker is not passed. -/
def Within (c : Cursor) : Prop := c.current ≤ endPosition c.tokens

/-! ## What comes next -/

section

variable {c : Cursor}

theorem drop_eq (h : c.current < c.tokens.length) :
    c.tokens.drop c.current = c.peek :: c.tokens.drop (c.current + 1) := by
  rw [List.drop_eq_getElem_cons h, peek, List.getElem?_eq_getElem h]
  rfl

theorem advance_of_atEnd (h : c.isAtEnd = true) : c.advance = c := if_pos h

theorem advance_of_token (h : c.isAtEnd = false) :
    c.advance = { c with current := c.current + 1 } :=
  if_neg (Bool.eq_false_iff.1 h)

/-- At an end marker nothing is left. -/
theorem rest_of_atEnd (h : c.isAtEnd = true) : c.rest = [] ∧ c.eof = c.peek := by
  obtain hlt | hge := Nat.lt_or_ge c.current c.tokens.length
  · rw [rest, eof, drop_eq hlt, List.takeWhile_cons, List.find?_cons]
    have hpeek : c.peek.isEof = true := h
    simp only [hpeek]
    exact ⟨rfl, rfl⟩
  · rw [rest, eof, peek, List.drop_of_length_le hge, List.getElem?_eq_none hge]
    exact ⟨rfl, rfl⟩

/-- Before any other token that token is left, and what is left behind it. -/
theorem rest_of_token (h : c.isAtEnd = false) : c.rest = c.peek :: c.advance.rest := by
  have hpeek : c.peek.isEof = false := h
  rw [advance_of_token h, rest, rest, drop_eq (lt_of_isAtEnd h), List.takeWhile_cons, hpeek]
  rfl

theorem advance_eof (c : Cursor) : c.advance.eof = c.eof := by
  cases h : c.isAtEnd with
  | true => rw [advance_of_atEnd h]
  | false =>
    have hpeek : c.peek.isEof = false := h
    rw [advance_of_token h, eof, eof, drop_eq (lt_of_isAtEnd h), List.find?_cons, hpeek]

/-- The token that was passed is the one before. -/
theorem previous_advance (h : c.isAtEnd = false) : c.advance.previous = c.peek := by
  rw [advance_of_token h]
  rfl

theorem advance_tokens (c : Cursor) : c.advance.tokens = c.tokens := by
  rw [advance]
  split <;> rfl

/-- What is left ends at the first end marker, if that is not passed. -/
theorem rest_eq (h : c.Within) :
    c.rest = (c.tokens.take (endPosition c.tokens)).drop c.current := by
  rw [rest, List.takeWhile_eq_take_findIdx_not, List.drop_take]
  simp only [Bool.not_not]
  exact congrArg (List.take · _) (endPosition_drop h)

end

/-! ## Moving on -/

section

variable {c : Cursor}

theorem isAtEnd_iff (h : c.Within) : c.isAtEnd = true ↔ c.current = endPosition c.tokens := by
  have hle := endPosition_le c.tokens
  have hlen := congrArg List.length (rest_eq h)
  rw [List.length_drop, List.length_take_of_le hle] at hlen
  have hcurrent : c.current ≤ endPosition c.tokens := h
  cases hend : c.isAtEnd with
  | true =>
    rw [(rest_of_atEnd hend).1, List.length_nil] at hlen
    exact iff_of_true rfl (by omega)
  | false =>
    rw [rest_of_token hend, List.length_cons] at hlen
    exact iff_of_false nofun (by omega)

theorem Within.advance (h : c.Within) : c.advance.Within := by
  cases hend : c.isAtEnd with
  | true => rwa [advance_of_atEnd hend]
  | false =>
    have hne : c.current ≠ endPosition c.tokens := fun hc => by
      rw [(isAtEnd_iff h).2 hc] at hend
      cases hend
    rw [advance_of_token hend]
    exact Nat.lt_of_le_of_ne h hne

theorem Within.iterate (h : c.Within) (k : Nat) : (Cursor.advance^[k] c).Within := by
  induction k generalizing c with
  | zero => exact h
  | succ k ih => exact ih h.advance

theorem iterate_tokens (c : Cursor) (k : Nat) : (Cursor.advance^[k] c).tokens = c.tokens := by
  induction k generalizing c with
  | zero => rfl
  | succ k ih => exact (ih c.advance).trans (advance_tokens c)

theorem iterate_eof (c : Cursor) (k : Nat) : (Cursor.advance^[k] c).eof = c.eof := by
  induction k generalizing c with
  | zero => rfl
  | succ k ih => exact (ih c.advance).trans (advance_eof c)

theorem le_advance (c : Cursor) : c.current ≤ c.advance.current := by
  rw [Cursor.advance]
  split
  · exact Nat.le_refl _
  · exact Nat.le_succ _

theorem le_iterate (c : Cursor) (k : Nat) : c.current ≤ (Cursor.advance^[k] c).current := by
  induction k generalizing c with
  | zero => exact Nat.le_refl _
  | succ k ih => exact Nat.le_trans (le_advance c) (ih c.advance)

/-- Whatever is left of what is before the cursor is before it after some advances. -/
theorem exists_iterate {ts : List Token} (h : ts <:+ c.rest) :
    ∃ k, ts = (Cursor.advance^[k] c).rest := by
  generalize hrest : c.rest = before at h
  induction before generalizing c with
  | nil => exact ⟨0, (List.suffix_nil.1 h).trans hrest.symm⟩
  | cons t us ih =>
    obtain hall | htail := List.suffix_cons_iff.1 h
    · exact ⟨0, hall.trans hrest.symm⟩
    · have hend : c.isAtEnd = false := Bool.eq_false_iff.2 fun hend => by
        rw [(rest_of_atEnd hend).1] at hrest
        cases hrest
      rw [rest_of_token hend] at hrest
      obtain ⟨k, hk⟩ := ih (List.cons.inj hrest).2 htail
      exact ⟨k + 1, hk⟩

/-- Recovery advances. -/
theorem toStatement_iterate (c : Cursor) : ∃ k, c.toStatement = Cursor.advance^[k] c := by
  fun_induction toStatement c with
  | case1 => exact ⟨0, rfl⟩
  | case2 => exact ⟨0, rfl⟩
  | case3 => exact ⟨0, rfl⟩
  | case4 c _ _ _ ih =>
    obtain ⟨k, hk⟩ := ih
    exact ⟨k + 1, hk⟩

theorem synchronize_iterate (c : Cursor) : ∃ k, c.synchronize = Cursor.advance^[k] c := by
  obtain ⟨k, hk⟩ := toStatement_iterate c.advance
  exact ⟨k + 1, hk⟩

/-- It stops at the end, behind a semicolon or before a keyword that begins a statement. -/
theorem toStatement_stops (c : Cursor) :
    c.toStatement.isAtEnd = true ∨ c.toStatement.previous.kind = .semicolon ∨
      startsStatement c.toStatement.peek.kind = true := by
  fun_induction toStatement c with
  | case1 c hend => exact .inl hend
  | case2 c _ hsemicolon => exact .inr (.inl hsemicolon)
  | case3 c _ _ hstart => exact .inr (.inr hstart)
  | case4 c _ _ _ ih => exact ih

/-- The list and the cursor go to the same statement. -/
theorem skipToStatement_eq (c : Cursor) :
    skipToStatement c.previous c.rest = c.toStatement.rest := by
  fun_induction toStatement c with
  | case1 c hend =>
    rw [(rest_of_atEnd hend).1]
    rfl
  | case2 c hend hsemicolon =>
    rw [rest_of_token (Bool.eq_false_iff.2 hend), skipToStatement, if_pos hsemicolon]
  | case3 c hend hsemicolon hstart =>
    rw [rest_of_token (Bool.eq_false_iff.2 hend), skipToStatement, if_neg hsemicolon, hstart,
      if_pos rfl]
  | case4 c hend hsemicolon hstart ih =>
    have hnext := Bool.eq_false_iff.2 hend
    rw [rest_of_token hnext, skipToStatement, if_neg hsemicolon, if_neg hstart, ← ih,
      previous_advance hnext]

end

end Cursor

end Parse

/-! ## The state at a cursor -/

open Parse

/-- The state has before it what the cursor has. -/
structure ParseState.At (s : ParseState) (c : Cursor) : Prop where
  rest : s.rest = c.rest
  eof : s.eof = c.eof

/-- However a run of the rule ends, it leaves off where the cursor is after some advances, and the
first end marker is not passed. -/
def Parse.Cursor.Carries {α : Type} (c : Cursor) (rule : Parser α) (s : ParseState) : Prop :=
  ∃ k, (stateAfter rule s).At (Cursor.advance^[k] c) ∧ (Cursor.advance^[k] c).Within

namespace ParseState

/-- Recovery drops what the cursor passes. -/
theorem resynchronize_eq {s : ParseState} {c : Cursor} (h : s.rest = c.rest) :
    resynchronize s = .ok () { s with rest := c.synchronize.rest } := by
  cases hend : c.isAtEnd with
  | true =>
    have hstays : c.synchronize = c := by
      rw [Cursor.synchronize, Cursor.advance_of_atEnd hend, Cursor.toStatement, if_pos hend]
    have hnil := h.trans (Cursor.rest_of_atEnd hend).1
    rw [hstays, ← h]
    show resynchronize s = .ok () s
    rw [resynchronize, hnil]
  | false =>
    have hcons := h.trans (Cursor.rest_of_token hend)
    simp only [resynchronize, hcons, Cursor.synchronize, ← Cursor.skipToStatement_eq,
      Cursor.previous_advance hend]

theorem at_start (tokens : List Token) (firstId : Nat) : (start tokens firstId).At ⟨tokens, 0⟩ :=
  ⟨rfl, rfl⟩

namespace At

variable {s t : ParseState} {c : Cursor}

theorem rest_of_atEnd (h : s.At c) (hend : c.isAtEnd = true) : s.rest = [] ∧ s.eof = c.peek := by
  rw [h.rest, h.eof]
  exact Cursor.rest_of_atEnd hend

theorem rest_of_token (h : s.At c) (hend : c.isAtEnd = false) :
    s.rest = c.peek :: c.advance.rest :=
  h.rest.trans (Cursor.rest_of_token hend)

theorem moved (h : s.At c) (k : Nat) :
    At { s with rest := (Cursor.advance^[k] c).rest } (Cursor.advance^[k] c) :=
  ⟨rfl, h.eof.trans (Cursor.iterate_eof c k).symm⟩

theorem head_eq (h : s.At c) : s.rest.headD s.eof = c.peek := by
  cases hend : c.isAtEnd with
  | true =>
    rw [(h.rest_of_atEnd hend).1, (h.rest_of_atEnd hend).2]
    rfl
  | false =>
    rw [h.rest_of_token hend]
    rfl

theorem peek_eq (h : s.At c) : peek s = .ok c.peek s := by
  rw [peek, h.head_eq]

theorem fail_eq {α : Type} (h : s.At c) (problem : SyntaxProblem) :
    (fail problem : Parser α) s = .error ⟨c.peek, problem⟩ s := by
  rw [fail, h.head_eq]

theorem atEnd_eq (h : s.At c) : atEnd s = .ok c.isAtEnd s := by
  cases hend : c.isAtEnd with
  | true => rw [atEnd, (h.rest_of_atEnd hend).1]; rfl
  | false => rw [atEnd, h.rest_of_token hend]; rfl

theorem check_eq (h : s.At c) (p : Kind → Bool) : check p s = .ok (c.check p) s := by
  cases hend : c.isAtEnd with
  | true => simp only [check, Cursor.check, (h.rest_of_atEnd hend).1, hend]; rfl
  | false => simp only [check, Cursor.check, h.rest_of_token hend, hend]; rfl

/-- A token that is taken is passed. -/
theorem take?_eq (h : s.At c) (p : Kind → Bool) :
    take? p s =
      if c.check p then .ok (some c.advance.previous) { s with rest := c.advance.rest }
      else .ok none s := by
  cases hend : c.isAtEnd with
  | true => simp only [take?, Cursor.check, (h.rest_of_atEnd hend).1, hend]; rfl
  | false =>
    simp only [take?, Cursor.check, h.rest_of_token hend, hend, Cursor.previous_advance hend]
    rfl

theorem accept_eq (h : s.At c) (k : Kind) :
    accept k s =
      if c.check (· == k) then .ok true { s with rest := c.advance.rest } else .ok false s := by
  cases hend : c.isAtEnd with
  | true => simp only [accept, Cursor.check, (h.rest_of_atEnd hend).1, hend]; rfl
  | false => simp [accept, Cursor.check, h.rest_of_token hend, hend]

theorem expect_eq (h : s.At c) (k : Kind) (problem : SyntaxProblem) :
    expect k problem s =
      if c.check (· == k) then .ok c.advance.previous { s with rest := c.advance.rest }
      else .error ⟨c.peek, problem⟩ s := by
  cases hend : c.isAtEnd with
  | true =>
    simp only [expect, Cursor.check, (h.rest_of_atEnd hend).1, (h.rest_of_atEnd hend).2, hend]
    rfl
  | false =>
    simp [expect, Cursor.check, h.rest_of_token hend, hend, Cursor.previous_advance hend]

/-- What the rules are built from looks at the token under the index, and takes it where the cursor
advances. -/
theorem operations_agree (h : s.At c) :
    peek s = .ok c.peek s ∧ atEnd s = .ok c.isAtEnd s ∧
      (∀ p, check p s = .ok (c.check p) s) ∧
      (∀ p, take? p s =
        if c.check p then .ok (some c.advance.previous) { s with rest := c.advance.rest }
        else .ok none s) ∧
      (∀ k, accept k s =
        if c.check (· == k) then .ok true { s with rest := c.advance.rest } else .ok false s) ∧
      (∀ k problem, expect k problem s =
        if c.check (· == k) then .ok c.advance.previous { s with rest := c.advance.rest }
        else .error ⟨c.peek, problem⟩ s) ∧
      (∀ α problem, (fail problem : Parser α) s = .error ⟨c.peek, problem⟩ s) ∧
      resynchronize s = .ok () { s with rest := c.synchronize.rest } ∧
      At { s with rest := c.advance.rest } c.advance ∧
      At { s with rest := c.synchronize.rest } c.synchronize := by
  obtain ⟨k, hk⟩ := Cursor.synchronize_iterate c
  exact ⟨h.peek_eq, h.atEnd_eq, h.check_eq, h.take?_eq, h.accept_eq, h.expect_eq,
    fun _ => h.fail_eq, resynchronize_eq h.rest, h.moved 1, hk ▸ h.moved k⟩

theorem of_advances (h : s.At c) (ht : Advances s t) : ∃ k, t.At (Cursor.advance^[k] c) := by
  obtain ⟨k, hk⟩ := Cursor.exists_iterate (h.rest ▸ ht.rest)
  exact ⟨k, hk, ht.eof.trans (h.moved k).eof⟩

/-- No rule passes the first end marker. -/
theorem carries {α : Type} {rule : Parser α} (hf : Forward rule) (h : s.At c) (hc : c.Within) :
    c.Carries rule s := by
  obtain ⟨k, hk⟩ := h.of_advances (hf s)
  exact ⟨k, hk, hc.iterate k⟩

end At
end ParseState
end Lox
