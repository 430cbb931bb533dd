import Lox.Proofs.Eval.Rounds
import Lox.Proofs.Grammar.Complete.Stmt

/-
  Counting loops — what a `for` means, and what the tree built for it does

  A counting loop is read as a `loop`, with blocks around it and in it where
  there are an initializer and an increment. Here it is given a meaning of its
  own, which knows of clauses and rounds and not of that tree: `Counting.Runs`.
  The tree ends exactly as the loop does by its meaning (`finishes_countingLoop`),
  on whole machines: what is printed, what comes out, and all bindings of all
  frames are the same.
-/

namespace Lox

open Eval

/-! ## The meaning of a counting loop -/

namespace Counting

/-- How the condition comes out. One that is left out holds. -/
inductive Tests : Option Expr → Machine → Except RuntimeError Bool → Machine → Prop
  | absent {m : Machine} : Tests none m (.ok true) m
  | present {condition : Expr} {m m' : Machine} {r : Except RuntimeError Value} :
      Finishes (evaluate · condition) m r m' →
      Tests (some condition) m (r.map Value.truthy) m'

/-- How one round ends. With an increment, the body is executed in a new frame
around it, and the increment is evaluated there if the body ended normally. -/
inductive Round (body : Stmt) :
    Option Expr → Machine → Except RuntimeError Flow → Machine → Prop
  | alone {m m' : Machine} {r : Except RuntimeError Flow} :
      Finishes (execute · body) m r m' → Round body none m r m'
  | left {increment : Expr} {m m₁ : Machine} {r : Except RuntimeError Flow} :
      Finishes (execute · body) (m.inNewFrame m.frame []) r m₁ → r ≠ .ok .normal →
      Round body (some increment) m r { m₁ with frame := m.frame }
  | incremented {increment : Expr} {m m₁ m₂ : Machine} {r : Except RuntimeError Value} :
      Finishes (execute · body) (m.inNewFrame m.frame []) (.ok .normal) m₁ →
      Finishes (evaluate · increment) m₁ r m₂ →
      Round body (some increment) m (r.map fun _ => .normal) { m₂ with frame := m.frame }

section

variable (condition increment : Option Expr) (body : Stmt)

/-- How the rounds of a loop end: with an error of the condition, or normally when
it does not hold, or with the first round that does not end normally. -/
inductive Rounds : Machine → Except RuntimeError Flow → Machine → Prop
  | conditionFails {m m' : Machine} {e : RuntimeError} :
      Tests condition m (.error e) m' → Rounds m (.error e) m'
  | stops {m m' : Machine} : Tests condition m (.ok false) m' → Rounds m (.ok .normal) m'
  | ends {m m₁ m' : Machine} {r : Except RuntimeError Flow} :
      Tests condition m (.ok true) m₁ → Round body increment m₁ r m' → r ≠ .ok .normal →
      Rounds m r m'
  | again {m m₁ m₂ m' : Machine} {r : Except RuntimeError Flow} :
      Tests condition m (.ok true) m₁ → Round body increment m₁ (.ok .normal) m₂ →
      Rounds m₂ r m' → Rounds m r m'

/-- How a counting loop ends. An initializer is executed once, in a frame that it
opens for the loop, and the rounds follow if it ended normally. -/
inductive Runs : Option Stmt → Machine → Except RuntimeError Flow → Machine → Prop
  | rounds {m m' : Machine} {r : Except RuntimeError Flow} :
      Rounds condition increment body m r m' → Runs none m r m'
  | initialEnds {initial : Stmt} {m m₁ : Machine} {r : Except RuntimeError Flow} :
      Finishes (execute · initial) (m.inNewFrame m.frame []) r m₁ → r ≠ .ok .normal →
      Runs (some initial) m r { m₁ with frame := m.frame }
  | initialized {initial : Stmt} {m m₁ m₂ : Machine} {r : Except RuntimeError Flow} :
      Finishes (execute · initial) (m.inNewFrame m.frame []) (.ok .normal) m₁ →
      Rounds condition increment body m₁ r m₂ →
      Runs (some initial) m r { m₂ with frame := m.frame }

end

variable {initial : Option Stmt} {condition increment : Option Expr} {body : Stmt}
  {m m' : Machine} {r : Except RuntimeError Flow}

/-- The condition of the tree is true where the loop has none. -/
theorem tests_iff {b : Except RuntimeError Bool} :
    Tests condition m b m' ↔
      ∃ v, Finishes (evaluate · (condition.getD (.boolean true))) m v m' ∧
        b = v.map Value.truthy := by
  cases condition with
  | none =>
    constructor
    · rintro ⟨⟩
      exact ⟨.ok (.boolean true), finishes_pure.2 ⟨rfl, rfl⟩, rfl⟩
    · rintro ⟨v, h, rfl⟩
      obtain ⟨rfl, rfl⟩ := finishes_pure.1 h
      exact .absent
  | some condition =>
    constructor
    · rintro ⟨⟩
      exact ⟨_, ‹_›, rfl⟩
    · rintro ⟨v, h, rfl⟩
      exact .present h

/-- The body of the tree is one round. -/
theorem round_iff :
    Round body increment m r m' ↔ Finishes (execute · (Grammar.repeated body increment)) m r m' := by
  cases increment with
  | none =>
    constructor
    · rintro ⟨⟩
      assumption
    · exact .alone
  | some increment =>
    -- the body and the increment are a block of two statements
    rw [Grammar.repeated, finishes_block]
    constructor
    · intro h
      cases h with
      | left h hr => exact ⟨_, finishes_cons.2 (.inl ⟨hr, h⟩), rfl⟩
      | incremented h hincrement =>
        refine ⟨_, finishes_cons.2 (.inr ⟨_, h, ?_⟩), rfl⟩
        exact finishes_singleton.2 (finishes_expression.2 ⟨_, hincrement, rfl⟩)
    · rintro ⟨m₁, hboth, rfl⟩
      rcases finishes_cons.1 hboth with ⟨hr, h⟩ | ⟨m₂, h, hrest⟩
      · exact .left h hr
      · obtain ⟨v, hincrement, rfl⟩ := finishes_expression.1 (finishes_singleton.1 hrest)
        exact .incremented h hincrement

/-- A `loop` ends as the rounds do. One direction is an induction on the rounds that
were left, the other one on the rounds that were gone through. -/
theorem rounds_iff :
    Rounds condition increment body m r m' ↔
      Finishes (execute · (.loop (condition.getD (.boolean true))
        (Grammar.repeated body increment))) m r m' := by
  rw [finishes_loop]
  constructor
  · intro h
    induction h with
    | conditionFails h =>
      obtain ⟨v | v, h, hv⟩ := tests_iff.1 h
      · cases hv
        exact ⟨1, finishes_round.2 (.inl ⟨_, rfl, h⟩)⟩
      · cases hv
    | stops h =>
      obtain ⟨v | v, h, hv⟩ := tests_iff.1 h
      · cases hv
      · injection hv with hv
        exact ⟨1, finishes_round.2 (.inr ⟨v, _, h, .inl ⟨hv.symm, rfl, rfl⟩⟩)⟩
    | ends h hround hr =>
      obtain ⟨v | v, h, hv⟩ := tests_iff.1 h
      · cases hv
      · injection hv with hv
        refine ⟨1, finishes_round.2 (.inr ⟨v, _, h, .inr ⟨hv.symm, .inl ⟨hr, ?_⟩⟩⟩)⟩
        exact round_iff.1 hround
    | again h hround _ ih =>
      -- one round more than what the other rounds need
      obtain ⟨left, ih⟩ := ih
      obtain ⟨v | v, h, hv⟩ := tests_iff.1 h
      · cases hv
      · injection hv with hv
        refine ⟨left + 1, finishes_round.2 (.inr ⟨v, _, h, .inr ⟨hv.symm, .inr ⟨_, ?_, ih⟩⟩⟩)⟩
        exact round_iff.1 hround
  · rintro ⟨left, h⟩
    induction left generalizing m with
    | zero =>
      obtain ⟨_, h⟩ := h
      cases r <;> cases h
    | succ left ih =>
      rcases finishes_round.1 h with ⟨e, rfl, hc⟩ | ⟨v, m₁, hc, hrest⟩
      · exact .conditionFails (tests_iff.2 ⟨_, hc, rfl⟩)
      · have htest : Tests condition m (.ok v.truthy) m₁ := tests_iff.2 ⟨_, hc, rfl⟩
        rcases hrest with ⟨hv, rfl, rfl⟩ | ⟨hv, ⟨hr, hbody⟩ | ⟨m₂, hbody, hmore⟩⟩
        · exact .stops (hv ▸ htest)
        · exact .ends (hv ▸ htest) (round_iff.2 hbody) hr
        · exact .again (hv ▸ htest) (round_iff.2 hbody) (ih hmore)

end Counting

/-- The tree of a counting loop does what the loop means. -/
theorem finishes_countingLoop {initial : Option Stmt} {condition increment : Option Expr}
    {body : Stmt} {m m' : Machine} {r : Except RuntimeError Flow} :
    Finishes (execute · (Parse.countingLoop initial condition increment body)) m r m' ↔
      Counting.Runs condition increment body initial m r m' := by
  have htree : Parse.countingLoop none condition increment body =
      .loop (condition.getD (.boolean true)) (Grammar.repeated body increment) := by
    cases increment <;> rfl
  cases initial with
  | none =>
    rw [htree, ← Counting.rounds_iff]
    constructor
    · exact .rounds
    · rintro ⟨⟩
      assumption
  | some initial =>
    -- the initializer and the loop are a block, so its variable is gone after the loop
    have hblock : Parse.countingLoop (some initial) condition increment body =
        .block [initial, Parse.countingLoop none condition increment body] := rfl
    rw [hblock, finishes_block, htree]
    constructor
    · rintro ⟨m₁, hboth, rfl⟩
      rcases finishes_cons.1 hboth with ⟨hr, h⟩ | ⟨m₂, h, hrest⟩
      · exact .initialEnds h hr
      · exact .initialized h (Counting.rounds_iff.2 (finishes_singleton.1 hrest))
    · intro h
      cases h with
      | initialEnds h hr => exact ⟨_, finishes_cons.2 (.inl ⟨hr, h⟩), rfl⟩
      | initialized h hrounds =>
        refine ⟨_, finishes_cons.2 (.inr ⟨_, h, ?_⟩), rfl⟩
        exact finishes_singleton.2 (Counting.rounds_iff.1 hrounds)

/-! ## Counting loops as they are read -/

/-- A counting loop as it is written, with its clauses and its body. -/
inductive Grammar.CountingLoop :
    Place → Option Stmt → Option Expr → Option Expr → Stmt → Place → Prop
  | mk {word opening semicolon closing : Token} {ts us vs : List Token} {n m k : Nat}
      {initial : Option Stmt} {condition increment : Option Expr} {body : Stmt} {p q : Place} :
      word.kind = .forWord → opening.kind = .leftParen → FirstClause ⟨ts, n⟩ initial p →
      OptionalExpression p condition ⟨semicolon :: us, m⟩ → semicolon.kind = .semicolon →
      OptionalExpression ⟨us, m⟩ increment ⟨closing :: vs, k⟩ → closing.kind = .rightParen →
      Parse.ReadStatement ⟨vs, k⟩ body q →
      CountingLoop ⟨word :: opening :: ts, n⟩ initial condition increment body q

namespace Parse

/-- A statement that is written as the grammar has it is read. -/
theorem accepts_statement {n : Nat} (s : ParseState) {p q : Grammar.Place} {tree : Stmt}
    (hl : p.tokens.length ≤ n) (h : ReadStatement p tree q) :
    statement n (s.at p) = .ok tree (s.at q) := by
  obtain ⟨o, h, ho⟩ := h
  exact (complete_statement_declaration n (Nat.le_refl n)).1 s _ _ _ hl
    ⟨o, h.relaxed s.errors, ho⟩ ends_continuesStatement

/-- Whatever is read from `for` on is a counting loop. -/
theorem countingLoop_of_read {word : Token} {ts : List Token} {n : Nat} {q : Grammar.Place}
    {tree : Stmt} (hword : word.kind = .forWord) (h : ReadStatement ⟨word :: ts, n⟩ tree q) :
    ∃ initial condition increment body,
      Grammar.CountingLoop ⟨word :: ts, n⟩ initial condition increment body q ∧
        tree = countingLoop initial condition increment body := by
  obtain ⟨o, h, ho⟩ := h
  cases h with
  | forLoop hfor hopening hfirst hcondition hsemicolon hincrement hclosing hbody =>
    exact ⟨_, _, _, _, .mk hfor hopening hfirst hcondition hsemicolon hincrement hclosing
      ⟨o, hbody, ho⟩, (countingLoop_eq _ _ _ _).symm⟩
  | expression h =>
    -- no expression begins with `for`
    obtain ⟨t, us, ht, hbegins⟩ := h.begins
    cases ht
    rw [hword] at hbegins
    cases hbegins
  | block h =>
    obtain ⟨hopening, _, _⟩ := h
    exact nomatch hword.symm.trans hopening
  | ifThen h | ifElse h | print h | yield h | whileLoop h => exact nomatch hword.symm.trans h

/-- The tree that is built for a counting loop does what the loop means: from every
machine, it ends iff the loop does, with the same machine and the same outcome. -/
theorem countingLoop_means {p q : Grammar.Place} {initial : Option Stmt}
    {condition increment : Option Expr} {body : Stmt}
    (h : Grammar.CountingLoop p initial condition increment body q) :
    ∃ tree, (∀ (n : Nat) (s : ParseState), p.tokens.length ≤ n →
        statement n (s.at p) = .ok tree (s.at q)) ∧
      ∀ m r m', Finishes (execute · tree) m r m' ↔
        Counting.Runs condition increment body initial m r m' := by
  refine ⟨countingLoop initial condition increment body, ?_, fun m r m' => finishes_countingLoop⟩
  intro n s hl
  apply accepts_statement s hl
  obtain ⟨hword, hopening, hfirst, hcondition, hsemicolon, hincrement, hclosing, o, hbody, ho⟩ := h
  rw [countingLoop_eq]
  exact ⟨o, .forLoop hword hopening hfirst hcondition hsemicolon hincrement hclosing hbody, ho⟩

/-- The tokens of `for (var i = true; i; i = false) print i;` behind the parenthesis. -/
def onceAround : List Token :=
  [⟨.varWord, "var", 1⟩, ⟨.identifier, "i", 1⟩, ⟨.equal, "=", 1⟩, ⟨.trueWord, "true", 1⟩,
   ⟨.semicolon, ";", 1⟩, ⟨.identifier, "i", 1⟩, ⟨.semicolon, ";", 1⟩,
   ⟨.identifier, "i", 1⟩, ⟨.equal, "=", 1⟩, ⟨.falseWord, "false", 1⟩, ⟨.rightParen, ")", 1⟩,
   ⟨.printWord, "print", 1⟩, ⟨.identifier, "i", 1⟩, ⟨.semicolon, ";", 1⟩]

theorem countingLoop_means_onceAround :
    ∃ tree, (∀ (n : Nat) (s : ParseState), 16 ≤ n →
        statement n (s.at ⟨⟨.forWord, "for", 1⟩ :: ⟨.leftParen, "(", 1⟩ :: onceAround, 0⟩) =
          .ok tree (s.at ⟨[], 3⟩)) ∧
      ∀ m r m', Finishes (execute · tree) m r m' ↔
        Counting.Runs (some (.var 0 ⟨.identifier, "i", 1⟩))
          (some (.assign 1 ⟨.identifier, "i", 1⟩ (.boolean false)))
          (.print (.var 2 ⟨.identifier, "i", 1⟩))
          (some (.varDecl ⟨.identifier, "i", 1⟩ (some (.boolean true)))) m r m' := by
  have hfirst := (sound_forInitial (Nat.le_refl 20) ⟨onceAround, ⟨.eof, "", 1⟩, [], 0⟩ _ _
    (by simp [onceAround]) rfl rfl).2
  have hcondition := (sound_optional (Nat.le_refl 20) .semicolon
    ⟨onceAround.drop 5, ⟨.eof, "", 1⟩, [], 0⟩ _ _ (by simp [onceAround]) rfl rfl).2
  have hincrement := (sound_optional (Nat.le_refl 20) .rightParen
    ⟨onceAround.drop 7, ⟨.eof, "", 1⟩, [], 1⟩ _ _ (by simp [onceAround]) rfl rfl).2
  have hbody := ((sound_statement_declaration 20 (Nat.lt_succ_self 19)).1
    ⟨onceAround.drop 11, ⟨.eof, "", 1⟩, [], 2⟩ _ _ (by simp [onceAround]) rfl rfl).2
  exact countingLoop_means (.mk rfl rfl hfirst hcondition rfl hincrement rfl hbody)

end Parse
end Lox
