import Lox.Proofs.Grammar.Exact

/-
  Faults are reported and do no harm

  A token list of the relaxed grammar is read from its beginning to its end, also
  by the parser without recovery, and what is reported are its faults. Those of
  the right side of an assignment come before that of its left side, which is
  the order in which they are found.
-/

namespace Lox.Parse

open Grammar

section

variable (tokens : List Token) (firstId : Nat)

/-- The parser reads all of a program with faults without ever leaving out a declaration,
and reports exactly the faults; its tree is that of a derivation in which every `else`
belongs to the nearest conditional. Of an expression with faults the same is true. -/
theorem parse_relaxed :
    (∀ rule program nextId faults,
      Relaxed.Program rule tokens firstId program nextId faults →
      ∃ read, Relaxed.Program .nearest tokens firstId read nextId faults ∧
        (rule = .nearest → read = program) ∧
        Strict.program (tokens.length + 1) (tokens.length + 1) (.start tokens firstId) =
          .ok read { ParseState.start tokens firstId with rest := [], errors := faults, nextId } ∧
        Parse.program (tokens.length + 1) (tokens.length + 1) (.start tokens firstId) =
          .ok read { ParseState.start tokens firstId with rest := [], errors := faults, nextId } ∧
        parseProgram tokens firstId =
          ⟨if faults.isEmpty then .ok read else .error faults, nextId⟩) ∧
    (∀ e nextId faults, Relaxed.WholeExpression tokens firstId e nextId faults →
      wholeExpression (tokens.length + 1) (.start tokens firstId) =
          .ok e { ParseState.start tokens firstId with rest := [], errors := faults, nextId } ∧
        parseExpression tokens firstId =
          ⟨if faults.isEmpty then .ok e else .error faults, nextId⟩) := by
  refine ⟨?_, ?_⟩
  · rintro rule program nextId faults ⟨body, hbody, hderives⟩
    -- the parser follows a derivation in which every `else` belongs to the nearest conditional
    obtain ⟨read, hread, hsame⟩ : ∃ read,
        Relaxed.Declarations .nearest ⟨⟨body, firstId⟩, []⟩ read ⟨⟨[], nextId⟩, faults⟩ ∧
          (rule = .nearest → read = program) := by
      cases rule with
      | any =>
        obtain ⟨read, hread⟩ := hderives.nearest
        exact ⟨read, hread, fun h => by cases h⟩
      | nearest => exact ⟨program, hderives, fun _ => rfl⟩
    obtain ⟨hrun, hstrict⟩ := complete_program (ParseState.start tokens firstId)
      (Nat.le_succ_of_le hbody.length_le) hread
    obtain ⟨hprogram, hparse⟩ := runRule_complete (fun n => Parse.program n n) hbody hrun
    exact ⟨read, ⟨body, hbody, hread⟩, hsame,
      (runRule_complete (fun n => Strict.program n n) hbody hstrict).1, hprogram, hparse⟩
  · rintro e nextId faults ⟨body, hbody, hderives⟩
    exact runRule_complete wholeExpression hbody
      (complete_wholeExpression _ (Nat.le_succ_of_le hbody.length_le) hderives)

end

/-- An assignment to `nil` whose right side is one to `this`. -/
def nestedTargets : List Token :=
  [⟨.nilWord, "nil", 1⟩, ⟨.equal, "=", 1⟩, ⟨.thisWord, "this", 2⟩, ⟨.equal, "=", 2⟩,
   ⟨.identifier, "a", 3⟩, ⟨.semicolon, ";", 3⟩, ⟨.eof, "", 3⟩]

theorem parse_relaxed_nestedTargets :
    Relaxed.Program .any nestedTargets 0 [.expression .nil] 2
      [⟨⟨.equal, "=", 2⟩, .assignmentTarget⟩, ⟨⟨.equal, "=", 1⟩, .assignmentTarget⟩] ∧
    (parseProgram nestedTargets 0).result =
      .error [⟨⟨.equal, "=", 2⟩, .assignmentTarget⟩, ⟨⟨.equal, "=", 1⟩, .assignmentTarget⟩] := by
  have atom {t : Token} {ts : List Token} {n m : Nat} {fs : List SyntaxError} {e : Expr}
      (h : Derives .primary ⟨t :: ts, n⟩ e ⟨ts, m⟩) (he : isGroup e = false) :
      Relaxed.Derives .choice ⟨⟨t :: ts, n⟩, fs⟩ e ⟨⟨ts, m⟩, fs⟩ :=
    (Relaxed.Derives.call (.atom h he) .done).choice_of_call
  have hthis : Relaxed.Derives .choice ⟨⟨nestedTargets.dropLast.drop 2, 0⟩, []⟩
      (.self 0 ⟨.thisWord, "this", 2⟩) ⟨⟨nestedTargets.dropLast.drop 3, 1⟩, []⟩ :=
    atom (.thisWord rfl) rfl
  have hvalue : Relaxed.Derives .choice ⟨⟨nestedTargets.dropLast.drop 4, 1⟩, []⟩
      (.var 1 ⟨.identifier, "a", 3⟩) ⟨⟨nestedTargets.dropLast.drop 5, 2⟩, []⟩ :=
    atom (.identifier rfl) rfl
  have hinner := Relaxed.Derives.assignOther hthis rfl rfl (.noAssignment hvalue)
  have hnil : Relaxed.Derives .choice ⟨⟨nestedTargets.dropLast, 0⟩, []⟩ .nil
      ⟨⟨nestedTargets.dropLast.drop 1, 0⟩, []⟩ := atom (.nilWord rfl) rfl
  have houter := Relaxed.Derives.assignOther hnil rfl rfl hinner
  have hprogram : Relaxed.Program .any nestedTargets 0 [.expression .nil] 2
      [⟨⟨.equal, "=", 2⟩, .assignmentTarget⟩, ⟨⟨.equal, "=", 1⟩, .assignmentTarget⟩] := by
    refine ⟨nestedTargets.dropLast, ⟨by simp [nestedTargets, Token.isEof], .inr ⟨_, rfl, rfl⟩⟩, ?_⟩
    exact .step (.statement (.expression (.mk (.single houter) rfl))) .done
  obtain ⟨read, _, _, _, _, hparse⟩ := (parse_relaxed nestedTargets 0).1 _ _ _ _ hprogram
  exact ⟨hprogram, by rw [hparse]; rfl⟩

end Lox.Parse
