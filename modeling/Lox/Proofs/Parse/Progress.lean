import Lox.Proofs.Parse.Moved.Stmt
import Lox.Proofs.Parse.Position
import Lox.Proofs.Parse.Strict

/-
  Parsing makes progress

  The rules are bounded, but a bound above the number of tokens is never noticed:
  with any such bound a rule is the same function, and calls itself with the same
  bound (`Unbounded`). So the rules without a bound come to an end on every token
  list, and what is said here of each single round of a loop is true of all rounds
  of a run. A round takes a token, even if its declaration is left out: recovery
  drops the token at which it starts, or has reached the end marker already
  (`Round`).
-/

namespace Lox

/-- The parser stands at a position of a token list, at the first end marker at the latest. -/
structure ParseState.Reading (tokens : List Token) (i : Nat) (s : ParseState) : Prop where
  position : i ≤ endPosition tokens
  rest : s.rest = (tokens.take (endPosition tokens)).drop i

namespace Parse

/-! ## Positions -/

section

variable {tokens : List Token} {i : Nat} {s t : ParseState}

/-- The cursor at that position has the same before it. -/
theorem cursor_rest (h : s.Reading tokens i) : s.rest = (Cursor.mk tokens i).rest :=
  h.rest.trans (Cursor.rest_eq (c := ⟨tokens, i⟩) h.position).symm

/-- A cursor that did not pass the first end marker is a position to stand at. -/
theorem reading_of_cursor {c : Cursor} (h : t.rest = c.rest) (hc : c.Within)
    (htokens : c.tokens = tokens) : t.Reading tokens c.current := by
  subst htokens
  exact ⟨hc, h.trans (Cursor.rest_eq hc)⟩

theorem reading_start (tokens : List Token) (firstId : Nat) :
    (ParseState.start tokens firstId).Reading tokens 0 :=
  reading_of_cursor (ParseState.at_start tokens firstId).rest (Nat.zero_le _) rfl

theorem length_eq (h : s.Reading tokens i) : s.rest.length = endPosition tokens - i := by
  rw [h.rest, List.length_drop, List.length_take, Nat.min_eq_left (endPosition_le tokens)]

theorem rest_nil_iff (h : s.Reading tokens i) : s.rest = [] ↔ i = endPosition tokens := by
  have hlen := length_eq h
  have hle := h.position
  rw [List.eq_nil_iff_length_eq_zero]
  omega

/-- Whoever goes forward stays in front of the end marker. -/
theorem reading_advances (h : s.Reading tokens i) (ht : Advances s t) :
    ∃ j, i ≤ j ∧ t.Reading tokens j := by
  obtain ⟨k, hk⟩ := Cursor.exists_iterate (cursor_rest h ▸ ht.rest)
  have hwithin := Cursor.Within.iterate (c := ⟨tokens, i⟩) h.position k
  exact ⟨_, Cursor.le_iterate ⟨tokens, i⟩ k,
    reading_of_cursor hk hwithin (Cursor.iterate_tokens ⟨tokens, i⟩ k)⟩

end

/-! ## The bound -/

section

variable {α : Type} {f : α → α} {k : Nat} {x y : Parser α} {s : ParseState} {n m : Nat}

/-- Nothing moved is nothing changed. -/
theorem eq_of_follows (h : Follows (fun l => l) 0 k f x y) (hf : ∀ a, f a = a)
    (hs : s.rest.length ≤ k) : y s = x s := by
  have hmove (t : ParseState) : t.move (fun l => l) 0 = t := by
    have herrors : (fun e : SyntaxError => e.mapLine fun l => l) = fun e => e := rfl
    simp only [ParseState.move, mapLine_id, List.map_id', herrors, Nat.add_zero]
  have hsame := h s hs
  rw [hmove] at hsame
  rw [hsame]
  cases hx : x s with
  | ok a t => rw [mapResult, hf, hmove]
  | error e t => rw [mapResult, hmove]; rfl

theorem optionMap_relabel_self (o : Option Stmt) :
    o.map (·.relabel (fun l => l) (· + 0)) = o := by
  cases o with
  | none => rfl
  | some d => exact congrArg some d.relabel_self

theorem statement_bound (hn : s.rest.length < n) (hm : s.rest.length < m) :
    statement m s = statement n s :=
  eq_of_follows (follows_statement_declaration hn hm).1 Stmt.relabel_self (Nat.le_refl _)

theorem declaration_bound (hn : s.rest.length < n) (hm : s.rest.length < m) :
    declaration m s = declaration n s :=
  eq_of_follows (follows_statement_declaration hn hm).2 optionMap_relabel_self (Nat.le_refl _)

theorem program_bound {n' m' : Nat} (hn : s.rest.length < n) (hn' : s.rest.length < n')
    (hm : s.rest.length < m) (hm' : s.rest.length < m') : program n' m' s = program n m s :=
  eq_of_follows (follows_program hn hn' hm hm') Stmt.relabelAll_self (Nat.le_refl _)

theorem declarations_bound {m' : Nat} (hn : s.rest.length < n) (hm : s.rest.length < m)
    (hm' : s.rest.length < m') :
    declarations (declaration n) m' s = declarations (declaration n) m s :=
  eq_of_follows (follows_declarations (forward_declaration n) (fun _ => takes_declaration (by omega))
    (follows_statement_declaration hn hn).2 hm hm') Stmt.relabelAll_self (Nat.le_refl _)

theorem wholeExpression_bound (hn : s.rest.length < n) (hm : s.rest.length < m) :
    wholeExpression m s = wholeExpression n s :=
  eq_of_follows (follows_wholeExpression hn hm) Expr.relabel_self (Nat.le_refl _)

end

/-- The bound is not noticed: the rules call each other with the bound that they have
themselves, as rules without a bound do. -/
structure Unbounded (n : Nat) (s : ParseState) : Prop where
  assignment_eq : assignment n s = assignmentOf (assignment n) n s
  statement_eq : statement n s = statementOf (statement n) (declaration n) n s
  declaration_eq : declaration n s = declarationOf (statement n) (declaration n) n s

theorem unbounded {n : Nat} {s : ParseState} (hn : s.rest.length < n) : Unbounded n s := by
  have hnext : s.rest.length < n + 1 := Nat.lt_succ_of_lt hn
  have fs := forward_statement n
  have fd := forward_declaration n
  have td : 0 < s.rest.length → Takes (declaration n) := fun _ => takes_declaration (by omega)
  have hnested (h : 0 < s.rest.length) := follows_statement_declaration (g := fun l => l) (c := 0)
    (show s.rest.length - 1 < n by omega) (show s.rest.length - 1 < n by omega)
  -- with one more the rule is the same function, and by definition its own body
  refine ⟨?_, ?_, ?_⟩
  · refine (eq_of_follows (follows_assignment hnext hn) Expr.relabel_self (Nat.le_refl _)).trans ?_
    exact eq_of_follows (follows_assignmentOf (forward_assignment n) hn hnext fun hpos =>
      follows_assignment (by omega) (by omega)) Expr.relabel_self (Nat.le_refl _)
  · refine (statement_bound hnext hn).trans ?_
    exact eq_of_follows (follows_statementOf fs fd hn hnext td (fun h => (hnested h).1)
      fun h => (hnested h).2) Stmt.relabel_self (Nat.le_refl _)
  · refine (declaration_bound hnext hn).trans ?_
    exact eq_of_follows (follows_declarationOf fs fd hn hnext td (fun h => (hnested h).1)
      fun h => (hnested h).2) optionMap_relabel_self (Nat.le_refl _)

/-! ## Recovery -/

/-- Where parsing goes on after an error: at the end, behind a semicolon, or before one of the
keywords of declarations and statements. -/
def Resumable (tokens : List Token) (i : Nat) : Prop :=
  i = endPosition tokens ∨ (∃ t, tokens[i - 1]? = some t ∧ t.kind = .semicolon) ∨
    ∃ t, tokens[i]? = some t ∧ t.kind ∈ [.classWord, .funWord, .varWord, .forWord, .ifWord,
      .whileWord, .printWord, .returnWord]

theorem mem_of_startsStatement {kind : Kind} (h : startsStatement kind = true) :
    kind ∈ [.classWord, .funWord, .varWord, .forWord, .ifWord, .whileWord, .printWord,
      .returnWord] := by
  revert h
  cases kind <;> simp [startsStatement]

/-- Where the cursor stops. -/
theorem resumable_synchronize {c : Cursor} (hc : c.synchronize.Within) :
    Resumable c.synchronize.tokens c.synchronize.current := by
  obtain hend | hsemicolon | hstart := Cursor.toStatement_stops c.advance
  · exact .inl ((Cursor.isAtEnd_iff hc).1 hend)
  · exact .inr (.inl (Cursor.exists_of_kind (p := (· = .semicolon)) hsemicolon nofun))
  · exact .inr (.inr (Cursor.exists_of_kind (mem_of_startsStatement hstart) (by decide)))

/-- Recovery ends at a place where parsing goes on. -/
theorem resynchronize_resumable {tokens : List Token} {i : Nat} {s : ParseState}
    (h : s.Reading tokens i) :
    ∃ t j, resynchronize s = .ok () t ∧ t.errors = s.errors ∧ t.Reading tokens j ∧
      Resumable tokens j := by
  obtain ⟨k, hk⟩ := Cursor.synchronize_iterate ⟨tokens, i⟩
  have hwithin := Cursor.Within.iterate (c := ⟨tokens, i⟩) h.position k
  have htokens := Cursor.iterate_tokens ⟨tokens, i⟩ k
  rw [← hk] at hwithin htokens
  have hresume := resumable_synchronize hwithin
  rw [htokens] at hresume
  exact ⟨_, _, ParseState.resynchronize_eq (cursor_rest h), rfl,
    reading_of_cursor rfl hwithin htokens, hresume⟩

/-! ## Rounds -/

/-- One round of a loop over declarations: it comes to an end at a later position. If its
declaration is left out, an error is recorded and parsing goes on where it may. -/
structure Round (tokens : List Token) (n i : Nat) (s : ParseState) (first : Option Stmt)
    (t : ParseState) (j : Nat) : Prop where
  run : declaration n s = .ok first t
  reading : t.Reading tokens j
  progress : i < j
  recovery : first = none → s.errors.length < t.errors.length ∧ Resumable tokens j

theorem round {tokens : List Token} {n i : Nat} {s : ParseState} (hn : 0 < n)
    (h : s.Reading tokens i) (hi : i < endPosition tokens) :
    ∃ first t j, Round tokens n i s first t j := by
  obtain _ | n := n
  · exact absurd hn (Nat.lt_irrefl 0)
  have hne : s.rest ≠ [] := fun hnil => Nat.ne_of_lt hi ((rest_nil_iff h).1 hnil)
  -- the rule without recovery decides whether the declaration is left out
  cases hrule : Strict.declarationOf (statement n) (declaration n) (n + 1) s with
  | ok d t =>
    have hrun : declaration (n + 1) s = .ok (some d) t := recover_of_ok hrule
    have hadvances := (forward_declaration (n + 1)).of_ok hrun
    have htakes := takes_declaration hn s _ t hne hrun
    obtain ⟨j, -, ht⟩ := reading_advances h hadvances
    rw [length_eq h, length_eq ht] at htakes
    exact ⟨some d, t, j, hrun, ht, by omega, nofun⟩
  | error e u =>
    have hadvances :=
      (forward_strictly (forward_statement n) (forward_declaration n) (n + 1)).of_error hrule
    obtain ⟨i', -, hu⟩ := reading_advances h hadvances
    obtain ⟨t, j, hresync, herrors, ht, hresume⟩ := resynchronize_resumable
      (s := { u with errors := u.errors ++ [e] }) ⟨hu.position, hu.rest⟩
    have hrecord : record e u = .ok () { u with errors := u.errors ++ [e] } := rfl
    have hrun : declaration (n + 1) s = .ok none t :=
      (recover_of_error hrule).trans ((bind_of_ok hrecord).trans ((bind_of_ok hresync).trans rfl))
    have htakes := takes_declaration hn s _ t hne hrun
    rw [length_eq h, length_eq ht] at htakes
    refine ⟨none, t, j, hrun, ht, by omega, fun _ => ⟨?_, hresume⟩⟩
    rw [herrors, List.length_append]
    exact Nat.lt_of_le_of_lt hadvances.errors.length_le (Nat.lt_succ_self _)

section

variable {tokens : List Token} {n i j : Nat} {s t : ParseState} {first : Option Stmt}

theorem Round.length_lt (hround : Round tokens n i s first t j) (h : s.Reading tokens i) :
    t.rest.length < s.rest.length := by
  have hprogress := hround.progress
  have hposition := hround.reading.position
  rw [length_eq h, length_eq hround.reading]
  omega

theorem Round.rest_eq (hround : Round tokens n i s first t j) (h : s.Reading tokens i) :
    ∃ u us, s.rest = u :: us :=
  List.exists_cons_of_length_pos (Nat.zero_lt_of_lt (hround.length_lt h))

/-- After a round the loop over a program goes on behind it. -/
theorem Round.program_eq (hround : Round tokens n i s first t j) (h : s.Reading tokens i)
    (hn : s.rest.length < n) :
    program n n s = ((first.toList ++ ·) <$> program n n) t := by
  obtain ⟨u, us, hrest⟩ := hround.rest_eq h
  have hlt := hround.length_lt h
  obtain _ | m := n
  · exact absurd hn (Nat.not_lt_zero _)
  conv_lhs => rw [program]
  refine (bind_of_ok (atEnd_of_cons hrest)).trans ((bind_of_ok hround.run).trans ?_)
  exact bind_pure_eq_map (program_bound (by omega) (by omega) (by omega) (by omega))

/-- After a round the loop over a block goes on behind it, unless the block ends. -/
theorem Round.declarations_eq (hround : Round tokens n i s first t j) (h : s.Reading tokens i)
    (hn : s.rest.length < n) (hbrace : ∀ u ∈ s.rest.head?, u.kind ≠ .rightBrace) :
    declarations (declaration n) n s =
      ((first.toList ++ ·) <$> declarations (declaration n) n) t := by
  obtain ⟨u, us, hrest⟩ := hround.rest_eq h
  have hlt := hround.length_lt h
  have hu : u ∈ s.rest.head? := by rw [hrest]; rfl
  obtain _ | m := n
  · exact absurd hn (Nat.not_lt_zero _)
  conv_lhs => rw [declarations]
  refine (untilBrace_next ⟨u, hu, hbrace u hu⟩).trans ((bind_of_ok hround.run).trans ?_)
  exact bind_pure_eq_map (declarations_bound (by omega) (by omega) (by omega))

/-- At the end of a block its loop stops. -/
theorem declarations_at_brace (hn : 0 < n) (hbrace : ∃ u ∈ s.rest.head?, u.kind = .rightBrace) :
    declarations (declaration n) n s = .ok [] s := by
  obtain ⟨u, hu, hkind⟩ := hbrace
  obtain _ | m := n
  · exact absurd hn (Nat.lt_irrefl 0)
  exact untilBrace_stop fun v hv => Option.mem_unique hu hv ▸ hkind

/-- At the end of the tokens both loops stop. -/
theorem loops_at_end (h : s.Reading tokens (endPosition tokens)) (hn : 0 < n) :
    program n n s = .ok [] s ∧ declarations (declaration n) n s = .ok [] s := by
  have hrest := (rest_nil_iff h).2 rfl
  obtain _ | m := n
  · exact absurd hn (Nat.lt_irrefl 0)
  obtain ⟨rest, eof, errors, nextId⟩ := s
  cases hrest
  exact ⟨rfl, rfl⟩

/-- A program is read up to the end marker, round by round. -/
theorem program_ends {s : ParseState} {i : Nat} (hn : endPosition tokens < n)
    (h : s.Reading tokens i) :
    ∃ body t, program n n s = .ok body t ∧ t.Reading tokens (endPosition tokens) := by
  have hlen := length_eq h
  obtain hi | hi := Nat.eq_or_lt_of_le h.position
  · subst hi
    exact ⟨[], s, (loops_at_end h (by omega)).1, h⟩
  · obtain ⟨first, t, j, hround⟩ := round (n := n) (by omega) h hi
    have hprogress := hround.progress
    obtain ⟨body, u, hrun, hu⟩ := program_ends hn hround.reading
    exact ⟨_, u, (hround.program_eq h (by omega)).trans (map_of_ok hrun), hu⟩
termination_by endPosition tokens - i

end

/-- On every token list the parser comes to an end, whatever the list holds. A bound above the
number of tokens makes no difference, to a whole run or to any rule at any position. A program
is read up to the first end marker and an expression not beyond it: as an index into all the
tokens the parser only ever advances, and no rule carries it past that marker. Wherever the parser stands
in front of the end marker, a round of the loop over a program, or over a block that does not
end there, moves it on (`Round`), and the loop goes on from there. -/
theorem parsing_progresses (tokens : List Token) (firstId : Nat) {n : Nat}
    (hn : tokens.length < n) :
    (program n n (.start tokens firstId) =
        program (tokens.length + 1) (tokens.length + 1) (.start tokens firstId) ∧
      ∃ body t, program n n (.start tokens firstId) = .ok body t ∧
        t.Reading tokens (endPosition tokens)) ∧
    (wholeExpression n (.start tokens firstId) =
        wholeExpression (tokens.length + 1) (.start tokens firstId) ∧
      ∃ i, (stateAfter (wholeExpression n) (.start tokens firstId)).Reading tokens i) ∧
    (ParseState.start tokens firstId).Reading tokens 0 ∧
    (ParseState.start tokens firstId).At ⟨tokens, 0⟩ ∧
    (∀ (c : Cursor) s, c.tokens = tokens → c.Within → s.At c →
      s.Reading tokens c.current ∧ c.Carries (program n n) s ∧ c.Carries (wholeExpression n) s ∧
        c.Carries (declaration n) s ∧ c.Carries (statement n) s ∧ c.Carries (expression n) s) ∧
    ∀ i s, s.Reading tokens i →
      Unbounded n s ∧
      (∃ j, i ≤ j ∧ (stateAfter (statement n) s).Reading tokens j) ∧
      (∃ j, i ≤ j ∧ (stateAfter (expression n) s).Reading tokens j) ∧
      (i = endPosition tokens →
        program n n s = .ok [] s ∧ declarations (declaration n) n s = .ok [] s) ∧
      ((∃ u ∈ s.rest.head?, u.kind = .rightBrace) →
        declarations (declaration n) n s = .ok [] s) ∧
      (i < endPosition tokens → ∃ first t j, Round tokens n i s first t j ∧
        program n n s = ((first.toList ++ ·) <$> program n n) t ∧
        ((∀ u ∈ s.rest.head?, u.kind ≠ .rightBrace) →
          declarations (declaration n) n s =
            ((first.toList ++ ·) <$> declarations (declaration n) n) t)) := by
  have hend := endPosition_le tokens
  have hstart := reading_start tokens firstId
  have hlen := length_eq hstart
  refine ⟨⟨?_, program_ends (by omega) hstart⟩, ⟨?_, ?_⟩, hstart,
    ParseState.at_start tokens firstId, fun c s htokens hc h => ?_, fun i s h => ?_⟩
  · exact program_bound (by omega) (by omega) (by omega) (by omega)
  · exact wholeExpression_bound (by omega) (by omega)
  · obtain ⟨i, -, ht⟩ := reading_advances hstart (forward_wholeExpression n _)
    exact ⟨i, ht⟩
  · exact ⟨reading_of_cursor h.rest hc htokens, h.carries (forward_program n n) hc,
      h.carries (forward_wholeExpression n) hc, h.carries (forward_declaration n) hc,
      h.carries (forward_statement n) hc, h.carries (forward_expression n) hc⟩
  have hrest := length_eq h
  refine ⟨unbounded (by omega), reading_advances h (forward_statement n s),
    reading_advances h (forward_expression n s), ?_, declarations_at_brace (by omega),
    fun hi => ?_⟩
  · rintro rfl
    exact loops_at_end h (by omega)
  · obtain ⟨first, t, j, hround⟩ := round (n := n) (by omega) h hi
    exact ⟨first, t, j, hround, hround.program_eq h (by omega),
      hround.declarations_eq h (by omega)⟩

/-- Tokens without an end marker, the first of which begins nothing. -/
def strayParen : List Token :=
  [⟨.rightParen, ")", 1⟩, ⟨.printWord, "print", 1⟩, ⟨.nilWord, "nil", 1⟩]

theorem parsing_progresses_strayParen :
    strayParen.length < 4 ∧ (ParseState.start strayParen 0).Reading strayParen 0 ∧
      ∃ t, Round strayParen 4 0 (.start strayParen 0) none t 1 := by
  obtain ⟨-, -, hstart, -, -, hall⟩ := parsing_progresses strayParen 0 (n := 4) (by decide)
  obtain ⟨-, -, -, -, -, hrounds⟩ := hall 0 _ hstart
  obtain ⟨first, t, j, hround, -⟩ := hrounds (by decide)
  have hrun : declaration 4 (.start strayParen 0) = .ok none
      ⟨strayParen.tail, Token.missingEof, [⟨⟨.rightParen, ")", 1⟩, .expression⟩], 0⟩ := rfl
  obtain ⟨rfl, rfl⟩ : none = first ∧ _ = t := by simpa using hrun.symm.trans hround.run
  have hlen : 2 = 3 - j := length_eq hround.reading
  obtain rfl : j = 1 := by omega
  exact ⟨by decide, hstart, _, hround⟩

end Parse
end Lox
