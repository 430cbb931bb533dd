import Lox.Proofs.Parse.Run
import Lox.Proofs.Tree.Relabel

/-
  Parsing on other lines

  Rules look at kinds and texts of tokens and never at their lines, and never at
  the ids that they give out. So a rule that reads the same tokens on other
  lines, with ids that begin further on, takes the same steps, and whatever it
  yields, records or throws is the same on those lines. `Follows` says so of two
  rules at once: the second one may have another bound on its nesting, as long
  as both bounds are above the number of tokens.
-/

namespace Lox

/-- A syntax error on another line. -/
def SyntaxError.mapLine (g : Nat → Nat) (e : SyntaxError) : SyntaxError :=
  { e with token := e.token.mapLine g }

/-- What is left to parse, on other lines and with ids that begin further on. -/
def ParseState.move (g : Nat → Nat) (c : Nat) (s : ParseState) : ParseState where
  rest := s.rest.map (·.mapLine g)
  eof := s.eof.mapLine g
  errors := s.errors.map (·.mapLine g)
  nextId := s.nextId + c

namespace Parse

/-- How a rule ends on other lines, if its result there is `f` of its result. -/
def mapResult {α β : Type} (g : Nat → Nat) (c : Nat) (f : α → β) :
    EStateM.Result SyntaxError ParseState α → EStateM.Result SyntaxError ParseState β
  | .ok a s => .ok (f a) (s.move g c)
  | .error e s => .error (e.mapLine g) (s.move g c)

/-- On at most `k` tokens the second rule does on other lines what the first one
does. -/
def Follows {α β : Type} (g : Nat → Nat) (c k : Nat) (f : α → β) (x : Parser α) (y : Parser β) :
    Prop :=
  ∀ s, s.rest.length ≤ k → y (s.move g c) = mapResult g c f (x s)

namespace Follows

variable {α β γ δ : Type} {g : Nat → Nat} {c k : Nat} {f : α → β} {h : γ → δ}

/-- Fewer tokens are a special case. -/
theorem le {j : Nat} {x : Parser α} {y : Parser β} (hxy : Follows g c k f x y) (hj : j ≤ k) :
    Follows g c j f x y := fun s hl => hxy s (Nat.le_trans hl hj)

theorem pure {a : α} {b : β} (hb : f a = b) :
    Follows g c k f (Pure.pure a : Parser α) (Pure.pure b) := by
  intro s _
  rw [← hb]
  rfl

theorem throw (e : SyntaxError) :
    Follows g c k f (MonadExcept.throw e : Parser α) (MonadExcept.throw (e.mapLine g)) :=
  fun _ _ => rfl

theorem head_move (g : Nat → Nat) (c : Nat) (s : ParseState) :
    (s.move g c).rest.headD (s.move g c).eof = (s.rest.headD s.eof).mapLine g := by
  obtain ⟨rest, eof, errors, nextId⟩ := s
  cases rest <;> rfl

theorem fail (problem : SyntaxProblem) :
    Follows g c k f (Parse.fail problem : Parser α) (Parse.fail problem) := by
  intro s _
  rw [Parse.fail, head_move]
  rfl

theorem record (e : SyntaxError) :
    Follows g c k (fun u => u) (Parse.record e) (Parse.record (e.mapLine g)) := by
  intro s _
  rw [Parse.record, ParseState.move, ← List.map_singleton, ← List.map_append]
  rfl

theorem freshId : Follows g c k (· + c) Parse.freshId Parse.freshId := by
  intro s _
  rw [Parse.freshId, Parse.freshId, mapResult, ParseState.move, ParseState.move,
    Nat.add_right_comm]

theorem peek : Follows g c k (·.mapLine g) Parse.peek Parse.peek := by
  intro s _
  rw [Parse.peek, head_move]
  rfl

theorem atEnd : Follows g c k (fun b => b) Parse.atEnd Parse.atEnd := by
  intro s _
  rw [Parse.atEnd, ParseState.move, List.isEmpty_map]
  rfl

theorem check (p : Kind → Bool) : Follows g c k (fun b => b) (Parse.check p) (Parse.check p) := by
  rintro ⟨rest, eof, errors, nextId⟩ _
  cases rest <;> rfl

theorem bind {x : Parser γ} {y : Parser δ} {u : γ → Parser α} {v : δ → Parser β}
    (fx : Forward x) (hxy : Follows g c k h x y) (huv : ∀ a, Follows g c k f (u a) (v (h a))) :
    Follows g c k f (x >>= u) (y >>= v) := by
  intro s hl
  have hy := hxy s hl
  cases hx : x s with
  | ok a t =>
    rw [hx] at hy
    rw [bind_of_ok hx, bind_of_ok hy]
    exact huv a t (Nat.le_trans (fx.of_ok hx).length_le hl)
  | error e t =>
    rw [hx] at hy
    rw [bind_of_error hx, bind_of_error hy]
    rfl

theorem map {x : Parser γ} {y : Parser δ} {u : γ → α} {v : δ → β} (hxy : Follows g c k h x y)
    (huv : ∀ a, f (u a) = v (h a)) : Follows g c k f (u <$> x) (v <$> y) := by
  intro s hl
  have hy := hxy s hl
  cases hx : x s with
  | ok a t =>
    rw [hx] at hy
    rw [map_of_ok hx, map_of_ok hy, mapResult, huv]
  | error e t =>
    rw [hx] at hy
    rw [map_of_error hx, map_of_error hy]
    rfl

theorem ite {p q : Prop} [Decidable p] [Decidable q] {x x' : Parser α} {y y' : Parser β}
    (hpq : p ↔ q) (hx : Follows g c k f x y) (hx' : Follows g c k f x' y') :
    Follows g c k f (if p then x else x') (if q then y else y') := by
  by_cases hp : p
  · rw [if_pos hp, if_pos (hpq.1 hp)]
    exact hx
  · rw [if_neg hp, if_neg (mt hpq.2 hp)]
    exact hx'

/-- A run on a token and the ones behind it, which begins by taking the token. -/
theorem of_tail {x : Parser γ} {y : Parser δ} {u : γ → Parser α} {v : δ → Parser β}
    {t : Token} {ts : List Token} {eof : Token} {errors : List SyntaxError} {n : Nat} {a : γ}
    {b : δ} (hx : x ⟨t :: ts, eof, errors, n⟩ = .ok a ⟨ts, eof, errors, n⟩)
    (hy : y (ParseState.move g c ⟨t :: ts, eof, errors, n⟩) =
      .ok b (ParseState.move g c ⟨ts, eof, errors, n⟩))
    (huv : 0 < k → Follows g c (k - 1) f (u a) (v b)) (hl : (t :: ts).length ≤ k) :
    (y >>= v) (ParseState.move g c ⟨t :: ts, eof, errors, n⟩) =
      mapResult g c f ((x >>= u) ⟨t :: ts, eof, errors, n⟩) := by
  rw [List.length_cons] at hl
  rw [bind_of_ok hx, bind_of_ok hy]
  exact huv (by omega) _ (Nat.le_sub_of_add_le hl)

theorem take? (p : Kind → Bool) {u : Option Token → Parser α} {v : Option Token → Parser β}
    (hs : ∀ t : Token, p t.kind = true → 0 < k →
      Follows g c (k - 1) f (u (some t)) (v (some (t.mapLine g))))
    (hn : Follows g c k f (u none) (v none)) :
    Follows g c k f (Parse.take? p >>= u) (Parse.take? p >>= v) := by
  rintro ⟨rest, eof, errors, n⟩ hl
  cases rest with
  | nil => exact hn _ hl
  | cons t ts =>
    cases hp : p t.kind with
    | true =>
      refine of_tail (a := some t) (b := some (t.mapLine g)) ?_ ?_ (hs t hp) hl
      · simp only [Parse.take?, hp, if_true]
      · simp only [Parse.take?, ParseState.move, List.map_cons, Token.mapLine_kind, hp, if_true]
    | false =>
      have hx : Parse.take? p ⟨t :: ts, eof, errors, n⟩ = .ok none ⟨t :: ts, eof, errors, n⟩ := by
        simp only [Parse.take?, hp, Bool.false_eq_true, if_false]
      have hy : Parse.take? p (ParseState.move g c ⟨t :: ts, eof, errors, n⟩) =
          .ok none (ParseState.move g c ⟨t :: ts, eof, errors, n⟩) := by
        simp only [Parse.take?, ParseState.move, List.map_cons, Token.mapLine_kind, hp,
          Bool.false_eq_true, if_false]
      rw [bind_of_ok hx, bind_of_ok hy]
      exact hn _ hl

theorem accept (K : Kind) {u : Bool → Parser α} {v : Bool → Parser β}
    (ht : 0 < k → Follows g c (k - 1) f (u true) (v true))
    (hf : Follows g c k f (u false) (v false)) :
    Follows g c k f (Parse.accept K >>= u) (Parse.accept K >>= v) := by
  rintro ⟨rest, eof, errors, n⟩ hl
  cases rest with
  | nil => exact hf _ hl
  | cons t ts =>
    by_cases hk : t.kind = K
    · refine of_tail (a := true) (b := true) ?_ ?_ ht hl
      · simp only [Parse.accept, hk, if_true]
      · simp only [Parse.accept, ParseState.move, List.map_cons, Token.mapLine_kind, hk, if_true]
    · have hx : Parse.accept K ⟨t :: ts, eof, errors, n⟩ =
          .ok false ⟨t :: ts, eof, errors, n⟩ := by
        simp only [Parse.accept, hk, if_false]
      have hy : Parse.accept K (ParseState.move g c ⟨t :: ts, eof, errors, n⟩) =
          .ok false (ParseState.move g c ⟨t :: ts, eof, errors, n⟩) := by
        simp only [Parse.accept, ParseState.move, List.map_cons, Token.mapLine_kind, hk, if_false]
      rw [bind_of_ok hx, bind_of_ok hy]
      exact hf _ hl

theorem expect (K : Kind) (problem : SyntaxProblem) {u : Token → Parser α}
    {v : Token → Parser β}
    (hs : ∀ t : Token, t.kind = K → 0 < k → Follows g c (k - 1) f (u t) (v (t.mapLine g))) :
    Follows g c k f (Parse.expect K problem >>= u) (Parse.expect K problem >>= v) := by
  rintro ⟨rest, eof, errors, n⟩ hl
  cases rest with
  | nil => rfl
  | cons t ts =>
    by_cases hk : t.kind = K
    · refine of_tail (a := t) (b := t.mapLine g) ?_ ?_ (hs t hk) hl
      · simp only [Parse.expect, hk, if_true]
      · simp only [Parse.expect, ParseState.move, List.map_cons, Token.mapLine_kind, hk, if_true]
    · have hx : Parse.expect K problem ⟨t :: ts, eof, errors, n⟩ =
          .error ⟨t, problem⟩ ⟨t :: ts, eof, errors, n⟩ := by
        simp only [Parse.expect, hk, if_false]
      have hy : Parse.expect K problem (ParseState.move g c ⟨t :: ts, eof, errors, n⟩) =
          .error ⟨t.mapLine g, problem⟩ (ParseState.move g c ⟨t :: ts, eof, errors, n⟩) := by
        simp only [Parse.expect, ParseState.move, List.map_cons, Token.mapLine_kind, hk, if_false]
      rw [bind_of_error hx, bind_of_error hy]
      rfl

end Follows
end Parse
end Lox
