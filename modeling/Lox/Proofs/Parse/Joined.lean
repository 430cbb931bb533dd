import Lox.Proofs.Grammar.Before
import Lox.Proofs.Grammar.Exact
import Lox.Proofs.Parse.Moved.Stmt
import Lox.Proofs.Token.Joined

/-
  Programs below programs

  Declarations that are derived from the first tokens of a list are what the
  parser reads first, whatever comes behind them; only an `else` could still
  belong to the last one. So a source below another one is parsed as it would
  be by itself, on lines further down and with the ids that are left, and its
  declarations follow those of the other one (`parseProgram_joined`).
-/

namespace Lox.Parse

open Grammar

/-! ## The rest of a program -/

/-- Declarations in front are read as they are, and then the rest. -/
theorem program_front {k n : Nat} (hk : k ≤ n) (m : Nat) (s : ParseState) {p q : Place}
    {front : List Stmt} (hl : p.tokens.length ≤ k) (h : Declarations .nearest p front q)
    (hq : q.Ends (· == .elseWord)) :
    program n (front.length + m) (s.at p) = ((front ++ ·) <$> program n m) (s.at q) := by
  induction front generalizing k p with
  | nil =>
    cases h with
    | done =>
      rw [List.length_nil, Nat.zero_add]
      exact congrFun (id_map (program n m)).symm _
  | cons first front ih =>
    cases h with
    | step h hs =>
      obtain ⟨t, ts, hp, _⟩ := h.begins
      have hlt := h.length_lt
      rw [List.length_cons, Nat.add_right_comm, program]
      refine (bind_of_ok (atEnd_of_cons hp)).trans ?_
      refine (bind_of_ok (accepts_declaration s (Nat.le_trans hl hk) h
        (hs.ends_else hq))).trans ?_
      refine (bind_pure_eq_map (ih hk (by omega) hs)).trans ?_
      rw [Functor.map_map]
      rfl

/-! ## Token lists -/

section Lists

variable {front : List Token} (hfront : ∀ t ∈ front, t.isEof = false) {ts : List Token}
  (g : Nat → Nat)
include hfront

/-- Tokens on other lines, behind other ones. -/
theorem start_joined (hts : ∃ t ∈ ts, t.isEof = true) (n k : Nat) :
    ParseState.start (front ++ ts.map (·.mapLine g)) n =
      ((ParseState.start ts k).move g 0).at
        ⟨front ++ ((ParseState.start ts k).move g 0).rest, n⟩ := by
  have hnot : ∀ t ∈ front, (!t.isEof) = true := fun t ht => by rw [hfront t ht]; rfl
  have hnone : front.find? Token.isEof = none := List.find?_eq_none.2 fun t ht => by
    rw [hfront t ht]
    exact Bool.false_ne_true
  have heof : (fun t : Token => t.isEof) ∘ (fun t => t.mapLine g) = Token.isEof := rfl
  obtain ⟨t, ht⟩ := Option.isSome_iff_exists.1 (List.find?_isSome.2 hts)
  simp only [ParseState.start, ParseState.move, ParseState.at, List.map_nil, ht]
  rw [List.takeWhile_append_of_pos hnot, List.takeWhile_map, List.find?_append, hnone,
    Option.none_or, List.find?_map, heof, ht]
  rfl

/-- Programs one below the other. -/
theorem parseProgram_append {eof : Token} (heof : eof.isEof = true) {n k : Nat}
    {program₁ : List Stmt} (h : parseProgram (front ++ [eof]) n = ⟨.ok program₁, k⟩)
    (hts : ∃ t ∈ ts, t.isEof = true) (helse : ∀ t ∈ ts.head?, t.kind ≠ .elseWord) :
    parseProgram (front ++ ts.map (·.mapLine g)) n =
      (parseProgram ts k).move g 0 (fun rest => program₁ ++ Stmt.relabelAll g (· + 0) rest) := by
  have hunmarked : Unmarked (front ++ [eof]) front := ⟨hfront, .inr ⟨eof, heof, rfl⟩⟩
  obtain ⟨⟨_, i⟩, ⟨hderives, rfl⟩, hi⟩ := runRule_sound
    (sound_program (Nat.lt_succ_self _) _ (Nat.lt_succ_self _)) h
  obtain rfl : i = k := hi
  rw [hunmarked.takeWhile_eq] at hderives
  have hcount : program₁.length + 0 ≤ front.length := hderives.length_add_le
  have hrest : (ParseState.start ts i).rest.length ≤ ts.length := start_length ts i
  -- what is left of the bound once the first program is read
  obtain ⟨m, hm⟩ : ∃ m, (front ++ ts.map (·.mapLine g)).length + 1 = program₁.length + m :=
    Nat.exists_eq_add_of_le (by rw [List.length_append]; omega)
  rw [List.length_append, List.length_map] at hm
  have hread := program_front (Nat.le_refl (program₁.length + m)) m
    ((ParseState.start ts i).move g 0) (by simp [Place.before, ParseState.move]; omega)
    (hderives.before ((ParseState.start ts i).move g 0).rest) ?_
  · have hfollows : Follows g 0 ts.length (Stmt.relabelAll g (· + 0))
        (program (ts.length + 1) (ts.length + 1)) (program (program₁.length + m) m) :=
      follows_program (Nat.lt_succ_self _) (by omega) (Nat.lt_succ_self _) (by omega)
    have hbelow := hfollows (.start ts i) hrest
    rw [parseProgram, parseProgram, runRule_eq, runRule_eq, start_joined hfront g hts n i,
      List.length_append, List.length_map, hm]
    refine (congrArg outcome hread).trans ?_
    cases hrun : program (ts.length + 1) (ts.length + 1) (.start ts i) with
    | ok rest t =>
      rw [hrun] at hbelow
      refine (congrArg outcome (map_of_ok hbelow)).trans ?_
      exact outcome_mapResult (fun rest => program₁ ++ Stmt.relabelAll g (· + 0) rest) (.ok rest t)
    | error e t =>
      rw [hrun] at hbelow
      refine (congrArg outcome (map_of_error hbelow)).trans ?_
      exact outcome_mapResult (fun rest => program₁ ++ Stmt.relabelAll g (· + 0) rest) (.error e t)
  · intro t ht
    simp only [Place.before, List.nil_append, ParseState.move, ParseState.start, List.head?_map,
      List.head?_takeWhile] at ht
    obtain ⟨u, hu, rfl⟩ := Option.map_eq_some_iff.1 ht
    exact beq_false_of_ne (helse u (Option.filter_eq_some_iff.1 hu).1)

end Lists

/-- A source below another one, which is parsed without errors. -/
theorem parseProgram_joined {first second : String} {n k : Nat} {program₁ : List Stmt}
    (hl : lexicalErrors first = []) (h : parseProgram (tokens first) n = ⟨.ok program₁, k⟩)
    (helse : ∀ t ∈ (tokens second).head?, t.kind ≠ .elseWord) :
    parseProgram (tokens (joined first second)) n =
      (parseProgram (tokens second) k).move (· + lineCount first) 0
        (fun rest => program₁ ++ Stmt.relabelAll (· + lineCount first) (· + 0) rest) := by
  obtain ⟨front, last, hfirst, hfront, hjoined⟩ := tokens_joined hl
  obtain ⟨back, end₂, hsecond, -⟩ := tokens_genuine second
  rw [hfirst] at h
  rw [(hjoined second).1]
  have hend : (⟨.eof, "", end₂⟩ : Token) ∈ tokens second := by simp [hsecond]
  exact parseProgram_append hfront _ rfl h ⟨_, hend, rfl⟩ helse

end Lox.Parse
