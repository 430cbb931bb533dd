import Lox.Proofs.Parse.Moved.Stmt
import Lox.Proofs.Scope.Moved
import Lox.Proofs.Token.Genuine

/-
  Lines that come from tokens

  Whatever is read off a source has the lines of its tokens, however far the
  rules look ahead and wherever they recover. Every other line may be displaced:
  then the tokens are the same, and so are the tree and the errors that are
  found in them. A line that was made up would have been displaced.
-/

namespace Lox

/-! ## Displaced lines -/

/-- Moves every line on by one, apart from the lines of some tokens. -/
def displace (ts : List Token) (line : Nat) : Nat :=
  if line ∈ ts.map Token.line then line else line + 1

theorem displace_of_mem {ts : List Token} {t : Token} (h : t ∈ ts) :
    displace ts t.line = t.line :=
  if_pos (List.mem_map_of_mem h)

/-- A line that stays is that of a token. -/
theorem exists_mem_of_displace {ts : List Token} {line : Nat} (h : displace ts line = line) :
    ∃ t ∈ ts, t.line = line := by
  by_cases hmem : line ∈ ts.map Token.line
  · exact List.mem_map.1 hmem
  · rw [displace, if_neg hmem] at h
    exact absurd h (Nat.succ_ne_self line)

/-- What is left the same as a whole is left the same in each place. -/
theorem eq_self_of_map {α : Type} {f : α → α} {l : List α} (h : l.map f = l) :
    ∀ a ∈ l, f a = a :=
  List.map_eq_map_iff.1 (h.trans (List.map_id l).symm)

theorem mapLine_displace {ts : List Token} {t : Token} (h : t ∈ ts) :
    t.mapLine (displace ts) = t := by
  rw [Token.mapLine, displace_of_mem h]

namespace Parse

/-! ## Parsing -/

/-- The errors of an outcome, in the order in which they were found. -/
def Outcome.errors {α : Type} (o : Outcome α) : List SyntaxError :=
  match o.result with
  | .ok _ => []
  | .error errors => errors

theorem Outcome.errors_move {α : Type} (g : Nat → Nat) (c : Nat) (f : α → α) (o : Outcome α) :
    (o.move g c f).errors = o.errors.map (·.mapLine g) := by
  obtain ⟨_ | _, _⟩ := o <;> rfl

section

variable {α : Type} {ts : List Token} {n : Nat}

/-- What the parser begins with is left as it is. The end marker must be one of the
tokens: the one that stands in for it is on no line. -/
theorem start_displace (hend : ∃ t ∈ ts, t.isEof = true) :
    (ParseState.start ts n).move (displace ts) 0 = .start ts n := by
  obtain ⟨eof, heof⟩ := Option.isSome_iff_exists.1 (List.find?_isSome.2 hend)
  have hrest : (ts.takeWhile (!·.isEof)).map (·.mapLine (displace ts)) = ts.takeWhile (!·.isEof) :=
    (List.map_congr_left fun t ht => mapLine_displace ((List.takeWhile_prefix _).subset ht)).trans
      (List.map_id _)
  simp only [ParseState.move, ParseState.start, heof, hrest, Option.getD_some, List.map_nil,
    mapLine_displace (List.mem_of_find?_eq_some heof), Nat.add_zero]

theorem runRule_displace {rule : Nat → Parser α} {f : α → α} (hend : ∃ t ∈ ts, t.isEof = true)
    (h : Follows (displace ts) 0 ts.length f (rule (ts.length + 1)) (rule (ts.length + 1))) :
    (runRule rule ts n).move (displace ts) 0 f = runRule rule ts n := by
  have hmoved := h (.start ts n) (List.takeWhile_prefix _).length_le
  rw [start_displace hend] at hmoved
  rw [runRule_eq, ← outcome_mapResult, ← hmoved]

theorem exists_eof (source : String) : ∃ t ∈ tokens source, t.isEof = true := by
  obtain ⟨body, last, htokens, -⟩ := tokens_genuine source
  exact ⟨⟨.eof, "", last⟩, by simp [htokens], rfl⟩

variable (source : String)

theorem parseProgram_displace :
    (parseProgram (tokens source) n).move (displace (tokens source)) 0
      (Stmt.relabelAll (displace (tokens source)) (· + 0)) = parseProgram (tokens source) n :=
  runRule_displace (exists_eof source) (follows_program (Nat.lt_succ_self _) (Nat.lt_succ_self _)
    (Nat.lt_succ_self _) (Nat.lt_succ_self _))

theorem parseExpression_displace :
    (parseExpression (tokens source) n).move (displace (tokens source)) 0
      (·.relabel (displace (tokens source)) (· + 0)) = parseExpression (tokens source) n :=
  runRule_displace (exists_eof source)
    (follows_wholeExpression (Nat.lt_succ_self _) (Nat.lt_succ_self _))

end

section

variable {α : Type} {g : Nat → Nat} {f : α → α} {o : Outcome α}

/-- An outcome that is left as it is has the lines that stay. -/
theorem line_of_move_self (h : o.move g 0 f = o) : ∀ e ∈ o.errors, g e.token.line = e.token.line := by
  have herrors := o.errors_move g 0 f
  rw [h] at herrors
  intro e he
  exact congrArg (fun e => e.token.line) (eq_self_of_map herrors.symm e he)

theorem tree_of_move_self {tree : α} {k : Nat} (h : o.move g 0 f = o) (ho : o = ⟨.ok tree, k⟩) :
    f tree = tree := by
  rw [ho] at h
  exact Except.ok.inj (congrArg Outcome.result h)

end

end Parse

/-! ## Resolving -/

section

variable {g : Nat → Nat} {errors : List ScopeError}

theorem Resolution.line_of_moved_self {base : Nat → Option Nat} {r : Resolution}
    (h : Moved g 0 base r r) (hr : r.result = .error errors) :
    ∀ e ∈ errors, g e.token.line = e.token.line := by
  have herrors := Except.error.inj (hr.symm.trans (h.result_of_error hr))
  intro e he
  exact congrArg (fun e => e.token.line) (eq_self_of_map herrors.symm e he)

theorem line_of_resolveProgram {program : List Stmt}
    (hself : Stmt.relabelAll g (· + 0) program = program)
    (h : resolveProgram program = .error errors) :
    ∀ e ∈ errors, g e.token.line = e.token.line := by
  have hmoved := Stmt.moved_resolveAll program (.start g 0)
  rw [hself] at hmoved
  exact Resolution.line_of_moved_self hmoved h

theorem line_of_resolveExpression {tree : Expr} (hself : tree.relabel g (· + 0) = tree)
    (h : resolveExpression tree = .error errors) :
    ∀ e ∈ errors, g e.token.line = e.token.line := by
  have hmoved := tree.moved_resolve (.start g 0)
  rw [hself] at hmoved
  exact Resolution.line_of_moved_self hmoved h

end

end Lox
