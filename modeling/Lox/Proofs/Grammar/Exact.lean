import Lox.Proofs.Grammar.Complete.Stmt

/-
  The parser accepts the grammar

  Both directions were shown rule by rule; here they are put together for whole
  token lists. A token list is parsed without errors exactly if it is a program
  of the grammar, and the tree is that of the only derivation in which every
  `else` belongs to the nearest conditional.
-/

namespace Lox

open Grammar

/-! ## End markers -/

theorem Grammar.Unmarked.takeWhile_eq {tokens body : List Token} (h : Unmarked tokens body) :
    tokens.takeWhile (!·.isEof) = body := by
  have hall : ∀ t ∈ body, (!t.isEof) = true := fun t ht => by rw [h.1 t ht]; rfl
  obtain rfl | ⟨t, ht, rfl⟩ := h.2
  · exact List.takeWhile_eq_self_iff.2 hall
  · rw [List.takeWhile_append_of_pos hall, List.takeWhile_cons_of_neg (by simp [ht]),
      List.append_nil]

theorem Grammar.Unmarked.length_le {tokens body : List Token} (h : Unmarked tokens body) :
    body.length ≤ tokens.length :=
  h.takeWhile_eq ▸ (List.takeWhile_prefix _).length_le

theorem Grammar.MarkedAtEnd.unmarked {tokens : List Token} (h : MarkedAtEnd tokens) :
    Unmarked tokens (tokens.takeWhile (!·.isEof)) := by
  refine ⟨fun t ht => by simpa using List.mem_takeWhile_imp ht, ?_⟩
  obtain rfl | ⟨front, last, rfl⟩ := List.eq_nil_or_concat tokens
  · exact .inl rfl
  · rw [List.concat_eq_append] at h ⊢
    have hall : ∀ t ∈ front, (!t.isEof) = true := fun t ht => by
      rw [h t (by rwa [List.dropLast_concat])]; rfl
    rw [List.takeWhile_append_of_pos hall]
    cases hlast : last.isEof with
    | true => exact .inr ⟨last, hlast, by simp [hlast]⟩
    | false => exact .inl (by simp [hlast])

/-! ## Both rules for `else` -/

/-- A token list is a program under both rules or under none: the parser reads what has a
derivation, and what it reads has one under the rule of the nearest conditional. -/
theorem Grammar.Program.exists_any_iff {tokens : List Token} {firstId : Nat} :
    (∃ program nextId, Program .any tokens firstId program nextId) ↔
      ∃ program nextId, Program .nearest tokens firstId program nextId := by
  constructor
  · rintro ⟨program, nextId, body, hbody, h⟩
    obtain ⟨read, hread⟩ := (h.relaxed []).nearest
    have hrun := (Parse.complete_program (ParseState.start tokens firstId)
      (Nat.le_succ body.length) hread).1
    obtain ⟨-, hderives, -⟩ := Parse.sound_program (Nat.lt_succ_self body.length) _
      (Nat.lt_succ_self body.length) _ read _ (Nat.le_refl _) hrun rfl
    exact ⟨read, nextId, body, hbody, hderives⟩
  · rintro ⟨program, nextId, body, hbody, h⟩
    exact ⟨program, nextId, body, hbody, h.any⟩

namespace Parse

/-! ## Whole token lists -/

theorem start_length (tokens : List Token) (firstId : Nat) :
    (ParseState.start tokens firstId).rest.length ≤ tokens.length :=
  (List.takeWhile_prefix _).length_le

/-- A rule that is sound accepts only what is in its relation. -/
theorem runRule_sound {α : Type} {rule : Nat → Parser α} {R : Place → α → Place → Prop}
    {tokens : List Token} {firstId : Nat} {a : α} {nextId : Nat}
    (h : Sound tokens.length (rule (tokens.length + 1)) R)
    (hr : runRule rule tokens firstId = ⟨.ok a, nextId⟩) :
    ∃ q : Place, R ⟨tokens.takeWhile (!·.isEof), firstId⟩ a q ∧ q.nextId = nextId := by
  rw [runRule] at hr
  split at hr
  · rename_i t hrun
    split at hr
    · rename_i hempty
      cases hr
      have hR := h _ a t (start_length tokens firstId) hrun (List.isEmpty_iff.1 hempty)
      exact ⟨t.place, hR.2, rfl⟩
    · cases hr
  · cases hr

/-- What is read up to the end of the tokens is accepted, unless it has faults. -/
theorem runRule_complete {α : Type} (rule : Nat → Parser α) {tokens body : List Token}
    {firstId : Nat} {a : α} {nextId : Nat} {faults : List SyntaxError}
    (hbody : Unmarked tokens body)
    (h : rule (tokens.length + 1) ((ParseState.start tokens firstId).on ⟨⟨body, firstId⟩, []⟩) =
      .ok a ((ParseState.start tokens firstId).on ⟨⟨[], nextId⟩, faults⟩)) :
    rule (tokens.length + 1) (.start tokens firstId) =
        .ok a ((ParseState.start tokens firstId).on ⟨⟨[], nextId⟩, faults⟩) ∧
      runRule rule tokens firstId =
        ⟨if faults.isEmpty then .ok a else .error faults, nextId⟩ := by
  have hstart : ParseState.start tokens firstId =
      (ParseState.start tokens firstId).on ⟨⟨body, firstId⟩, []⟩ := by
    rw [← hbody.takeWhile_eq]
    rfl
  rw [← hstart] at h
  exact ⟨h, by rw [runRule, h]; rfl⟩

/-- All tokens of a whole expression belong to it. -/
theorem sound_wholeExpression {k n : Nat} (hk : k ≤ n) :
    Sound k (wholeExpression n) fun p e q => Derives .expression p e q ∧ q.tokens = [] := by
  refine .bind (forward_expression n) (sound_expression hk) fun e => .bind
    (R := fun p _ q => p = q ∧ q.tokens = []) forward_endOfInput ?_ fun _ => .pure ?_
  · exact .atEnd (.pure fun p hp => ⟨rfl, hp⟩)
      (.peek fun t => .record _ (.pure (T := fun _ _ _ => True) fun _ => trivial))
  · rintro r _ ⟨rfl, hend⟩ p he
    exact ⟨he, hend⟩

theorem parseProgram_iff {tokens : List Token} {firstId : Nat} (h : MarkedAtEnd tokens)
    (program : List Stmt) (nextId : Nat) :
    parseProgram tokens firstId = ⟨.ok program, nextId⟩ ↔
      Program .nearest tokens firstId program nextId := by
  constructor
  · intro hr
    obtain ⟨⟨_, _⟩, ⟨hderives, rfl⟩, rfl⟩ := runRule_sound
      (sound_program (Nat.lt_succ_self _) _ (Nat.lt_succ_self _)) hr
    exact ⟨_, h.unmarked, hderives⟩
  · rintro ⟨body, hbody, hderives⟩
    exact (runRule_complete (fun n => Parse.program n n) hbody
      (complete_program _ (Nat.le_succ_of_le hbody.length_le) (hderives.relaxed [])).1).2

theorem parseExpression_iff {tokens : List Token} {firstId : Nat} (h : MarkedAtEnd tokens)
    (e : Expr) (nextId : Nat) :
    parseExpression tokens firstId = ⟨.ok e, nextId⟩ ↔
      WholeExpression tokens firstId e nextId := by
  constructor
  · intro hr
    obtain ⟨⟨_, _⟩, ⟨hderives, rfl⟩, rfl⟩ := runRule_sound
      (sound_wholeExpression (Nat.le_succ _)) hr
    exact ⟨_, h.unmarked, hderives⟩
  · rintro ⟨body, hbody, hderives⟩
    exact (runRule_complete wholeExpression hbody
      (complete_wholeExpression _ (Nat.le_succ_of_le hbody.length_le) (hderives.relaxed []))).2

/-- The parser accepts exactly the grammar and builds its trees: programs under
the rule of the nearest conditional, of which there is one whenever there is any
derivation, and single expressions. -/
theorem parse_iff_derivable (tokens : List Token) (firstId : Nat) (h : MarkedAtEnd tokens) :
    (∀ program nextId, parseProgram tokens firstId = ⟨.ok program, nextId⟩ ↔
      Program .nearest tokens firstId program nextId) ∧
    ((∃ program, (parseProgram tokens firstId).result = .ok program) ↔
      ∃ program nextId, Program .any tokens firstId program nextId) ∧
    (∀ e nextId, parseExpression tokens firstId = ⟨.ok e, nextId⟩ ↔
      WholeExpression tokens firstId e nextId) := by
  refine ⟨parseProgram_iff h, ?_, parseExpression_iff h⟩
  rw [Program.exists_any_iff]
  constructor
  · rintro ⟨program, hr⟩
    exact ⟨program, _, (parseProgram_iff h _ _).1 (by rw [← hr])⟩
  · rintro ⟨program, nextId, hp⟩
    exact ⟨program, by rw [(parseProgram_iff h _ _).2 hp]⟩

/-- A conditional within another one, and an `else`. -/
def danglingElse : List Token :=
  [⟨.ifWord, "if", 1⟩, ⟨.leftParen, "(", 1⟩, ⟨.trueWord, "true", 1⟩, ⟨.rightParen, ")", 1⟩,
   ⟨.ifWord, "if", 1⟩, ⟨.leftParen, "(", 1⟩, ⟨.identifier, "a", 1⟩, ⟨.rightParen, ")", 1⟩,
   ⟨.identifier, "b", 1⟩, ⟨.semicolon, ";", 1⟩,
   ⟨.elseWord, "else", 2⟩, ⟨.identifier, "c", 2⟩, ⟨.semicolon, ";", 2⟩, ⟨.eof, "", 2⟩]

theorem parse_iff_derivable_danglingElse : MarkedAtEnd danglingElse ∧
    Program .nearest danglingElse 0
      [.branch (.boolean true)
        (.branch (.var 0 ⟨.identifier, "a", 1⟩) (.expression (.var 1 ⟨.identifier, "b", 1⟩))
          (some (.expression (.var 2 ⟨.identifier, "c", 2⟩)))) none] 3 := by
  have h : MarkedAtEnd danglingElse := by
    simp [MarkedAtEnd, danglingElse, Token.isEof]
  exact ⟨h, ((parse_iff_derivable danglingElse 0 h).1 _ _).1 (by cbv)⟩

end Parse
end Lox
