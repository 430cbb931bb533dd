import Lox.Proofs.Parse.Moved.Expr

/-
  Statements on other lines

  As for expressions. Lists of declarations end at the end of the tokens or at a
  brace, and each declaration takes a token, even one that is left out because
  of an error (`Takes`): so the bound on the length of a list is never reached.
-/

namespace Lox.Parse

/-! ## Taking a token -/

/-- A run that ends with a result has taken a token, if there was one. -/
def Takes {α : Type} (rule : Parser α) : Prop :=
  ∀ s a t, s.rest ≠ [] → rule s = .ok a t → t.rest.length < s.rest.length

namespace Takes

variable {α β : Type} {x : Parser α} {u : α → Parser β}

theorem first (hx : Takes x) (fu : ∀ a, Forward (u a)) : Takes (x >>= u) := by
  intro s b t hs h
  obtain ⟨a, v, h₁, h₂⟩ := ok_of_bind h
  exact Nat.lt_of_le_of_lt ((fu a).of_ok h₂).length_le (hx s a v hs h₁)

theorem second (fx : Forward x) (fu : ∀ a, Forward (u a)) (hu : ∀ a, Takes (u a)) :
    Takes (x >>= u) := by
  intro s b t hs h
  obtain ⟨a, v, h₁, h₂⟩ := ok_of_bind h
  by_cases hv : v.rest = []
  · have ht := ((fu a).of_ok h₂).length_le
    rw [hv, List.length_nil] at ht
    exact Nat.lt_of_le_of_lt ht (List.length_pos_of_ne_nil hs)
  · exact Nat.lt_of_lt_of_le (hu a v b t hv h₂) (fx.of_ok h₁).length_le

theorem expect (K : Kind) (problem : SyntaxProblem) : Takes (Parse.expect K problem) := by
  rintro ⟨rest, eof, errors, n⟩ a t hs h
  cases rest with
  | nil => exact absurd rfl hs
  | cons v vs =>
    rw [Parse.expect] at h
    split at h
    · rename_i heq
      cases heq
      split at h
      · cases h
        exact Nat.lt_succ_self _
      · cases h
    · cases h

theorem take? (p : Kind → Bool) {v : Option Token → Parser β} (fs : ∀ t, Forward (v (some t)))
    (hn : Takes (v none)) : Takes (Parse.take? p >>= v) := by
  rintro ⟨rest, eof, errors, n⟩ b t hs h
  cases rest with
  | nil => exact absurd rfl hs
  | cons w ws =>
    obtain ⟨a, s, h₁, h₂⟩ := ok_of_bind h
    rw [Parse.take?] at h₁
    split at h₁
    · rename_i heq
      cases heq
      split at h₁
      · cases h₁
        exact Nat.lt_succ_of_le ((fs w).of_ok h₂).length_le
      · cases h₁
        exact hn _ b t hs h₂
    · cases h₁
      exact hn _ b t hs h₂

/-- A declaration that is left out takes the tokens that are dropped with it. -/
theorem recover {rule : Parser Stmt} (fr : Forward rule) (hr : Takes rule) :
    Takes (Parse.recover rule) := by
  intro s o t hs h
  cases hrule : rule s with
  | ok a v =>
    rw [recover_of_ok hrule] at h
    cases h
    exact hr s a t hs hrule
  | error e v =>
    rw [recover_of_error hrule] at h
    obtain ⟨_, w, h₁, h₂⟩ := ok_of_bind h
    obtain ⟨_, r, h₃, h₄⟩ := ok_of_bind h₂
    cases h₁
    cases h₄
    have hv := (fr.of_error hrule).length_le
    rw [resynchronize] at h₃
    split at h₃
    · rename_i hrest
      cases h₃
      rw [hrest]
      exact List.length_pos_of_ne_nil hs
    · rename_i next after hrest
      cases h₃
      have hskip := (Forward.skipToStatement_suffix next after).length_le
      have hlength : v.rest.length = after.length + 1 := congrArg List.length hrest
      show (skipToStatement next after).length < s.rest.length
      omega

end Takes

theorem takes_expressionStatement (n : Nat) : Takes (expressionStatement n) :=
  .second (forward_expression n) (fun _ => .bind (.expect _ _) fun _ => .pure _) fun _ =>
    .first (.expect _ _) fun _ => .pure _

theorem takes_functionOf {nested : Parser (Option Stmt)} (fd : Forward nested) (n : Nat)
    (r : Routine) : Takes (functionOf nested n r) :=
  .first (.expect _ _) fun _ => .bind (.expect _ _) fun _ =>
    .bind (.unlessNext _ _ (forward_parameters 0 n)) fun _ => .bind (.expect _ _) fun _ =>
      .bind (.expect _ _) fun _ => .bind (forward_blockRest fd n) fun _ => .pure _

section

variable {nestedStatement : Parser Stmt} {nestedDeclaration : Parser (Option Stmt)}
  (fs : Forward nestedStatement) (fd : Forward nestedDeclaration) (n : Nat)
include fs fd

theorem takes_statementOf : Takes (statementOf nestedStatement nestedDeclaration n) := by
  refine .take? _ (fun t => ?_) (takes_expressionStatement n)
  dsimp only
  split
  · exact forward_forRest fs n
  · exact forward_ifRest fs n
  · exact forward_whileRest fs n
  · exact forward_returnRest n t
  · exact .map _ (forward_blockRest fd n)
  · exact forward_printRest n

theorem takes_declarationOf : Takes (declarationOf nestedStatement nestedDeclaration n) := by
  refine .recover (forward_strictly fs fd n) (.take? _ (fun t => ?_) (takes_statementOf fs fd n))
  dsimp only
  split
  · exact forward_classRest fd n
  · exact .map _ (forward_functionOf fd n _)
  · exact forward_variableRest n

end

theorem takes_declaration {n : Nat} (hn : 0 < n) : Takes (declaration n) := by
  cases n with
  | zero => exact absurd hn (Nat.lt_irrefl 0)
  | succ n =>
    rw [declaration]
    exact takes_declarationOf (forward_statement n) (forward_declaration n) (n + 1)

/-! ## The rules -/

variable {g : Nat → Nat} {c : Nat}

namespace Follows

variable {α β γ δ : Type} {k : Nat} {f : α → β} {h : γ → δ}

/-- A list that goes on as long as there are tokens. -/
theorem unlessEnd {x : Parser γ} {y : Parser δ} {u : γ → Parser α} {v : δ → Parser β} {a : α} {b : β}
    (hx : 0 < k → Takes x) (hab : f a = b) (hxy : Follows g c k h x y)
    (huv : 0 < k → ∀ r, Follows g c (k - 1) f (u r) (v (h r))) :
    Follows g c k f (Parse.atEnd >>= fun e => if e = true then Pure.pure a else x >>= u)
      (Parse.atEnd >>= fun e => if e = true then Pure.pure b else y >>= v) := by
  intro s hl
  by_cases hs : s.rest = []
  · have hx : Parse.atEnd s = .ok true s := by rw [Parse.atEnd, hs]; rfl
    have hy : Parse.atEnd (s.move g c) = .ok true (s.move g c) := by
      rw [Parse.atEnd, ParseState.move, hs]; rfl
    rw [bind_of_ok hx, bind_of_ok hy, ← hab]
    rfl
  · have hpos : 0 < k := Nat.lt_of_lt_of_le (List.length_pos_of_ne_nil hs) hl
    have hx' : Parse.atEnd s = .ok false s := by
      rw [Parse.atEnd, List.isEmpty_eq_false_iff.2 hs]
    have hy' : Parse.atEnd (s.move g c) = .ok false (s.move g c) := by
      rw [Parse.atEnd, ParseState.move, List.isEmpty_map, List.isEmpty_eq_false_iff.2 hs]
    rw [bind_of_ok hx', bind_of_ok hy', if_neg Bool.false_ne_true, if_neg Bool.false_ne_true]
    have hstep := hxy s hl
    cases hr : x s with
    | ok r t =>
      rw [hr] at hstep
      have hshort := hx hpos s r t hs hr
      rw [bind_of_ok hr, bind_of_ok hstep]
      exact huv hpos r t (by omega)
    | error e t =>
      rw [hr] at hstep
      rw [bind_of_error hr, bind_of_error hstep]
      rfl

theorem skipToStatement_map (previous : Token) (ts : List Token) :
    skipToStatement (previous.mapLine g) (ts.map (·.mapLine g)) =
      (skipToStatement previous ts).map (·.mapLine g) := by
  induction ts generalizing previous with
  | nil => rfl
  | cons t ts ih =>
    rw [List.map_cons, skipToStatement, skipToStatement, Token.mapLine_kind, Token.mapLine_kind, ih]
    split
    · rfl
    · split <;> rfl

theorem resynchronize : Follows g c k (fun u => u) Parse.resynchronize Parse.resynchronize := by
  rintro ⟨rest, eof, errors, n⟩ _
  cases rest with
  | nil => rfl
  | cons t ts =>
    simp only [Parse.resynchronize, ParseState.move, List.map_cons, skipToStatement_map]
    rfl

theorem recover {f : Stmt → Stmt} {x y : Parser Stmt} (fx : Forward x) (hxy : Follows g c k f x y) :
    Follows g c k (Option.map f) (Parse.recover x) (Parse.recover y) := by
  intro s hl
  have hstep := hxy s hl
  cases hr : x s with
  | ok a t =>
    rw [hr] at hstep
    rw [recover_of_ok hr, recover_of_ok hstep]
    rfl
  | error e t =>
    rw [hr] at hstep
    rw [recover_of_error hr, recover_of_error hstep]
    have hl' := Nat.le_trans (fx.of_error hr).length_le hl
    have hleft : Follows g c k (Option.map f)
        (Parse.record e >>= fun _ => Parse.resynchronize >>= fun _ => Pure.pure none)
        (Parse.record (e.mapLine g) >>= fun _ => Parse.resynchronize >>= fun _ => Pure.pure none) :=
      .bind (.record e) (.record e) fun _ => .bind .resynchronize .resynchronize fun _ => .pure rfl
    exact hleft t hl'

end Follows

section Clauses

variable {k n n' : Nat} (hk : k < n) (hk' : k < n')
include hk hk'

theorem follows_optional (K : Kind) :
    Follows g c k (Option.map (·.relabel g (· + c))) (unlessNext K none (some <$> expression n))
      (unlessNext K none (some <$> expression n')) :=
  .unlessNext rfl (.map (follows_expression hk hk') fun _ => rfl)

theorem follows_parameters (count : Nat) :
    Follows g c k (List.map (·.mapLine g)) (parameters count n) (parameters count n') := by
  induction hk, hk' using bounds_induction generalizing count with
  | step k n n' hk hk' ih =>
    rw [parameters, parameters]
    refine .bind (forward_limit _ _) (.limit _ _) fun _ => .expect _ _ fun _ _ _ =>
      .accept _ (fun _ => ?_) (.pure rfl)
    exact .bind (forward_parameters _ n) (ih (by omega) (by omega) (count + 1)) fun _ => .pure rfl

theorem follows_variableRest :
    Follows g c k (·.relabel g (· + c)) (variableRest n) (variableRest n') :=
  .expect _ _ fun _ _ _ => .bind (.afterNext _ _ (.map _ (forward_expression n)))
    (.afterNext (f := Option.map (·.relabel g (· + c))) rfl fun _ =>
      .map (follows_expression (by omega) (by omega)) fun _ => rfl) fun _ =>
    .expect _ _ fun _ _ _ => .pure rfl

theorem follows_expressionStatement :
    Follows g c k (·.relabel g (· + c)) (expressionStatement n) (expressionStatement n') :=
  .bind (forward_expression n) (follows_expression hk hk') fun _ => .expect _ _ fun _ _ _ =>
    .pure rfl

theorem follows_printRest : Follows g c k (·.relabel g (· + c)) (printRest n) (printRest n') :=
  .bind (forward_expression n) (follows_expression hk hk') fun _ => .expect _ _ fun _ _ _ =>
    .pure rfl

theorem follows_returnRest (keyword : Token) :
    Follows g c k (·.relabel g (· + c)) (returnRest n keyword)
      (returnRest n' (keyword.mapLine g)) :=
  .bind (.unlessNext _ _ (.map _ (forward_expression n))) (follows_optional hk hk' _) fun _ =>
    .expect _ _ fun _ _ _ => .pure rfl

theorem follows_forInitial :
    Follows g c k (Option.map (·.relabel g (· + c))) (forInitial n) (forInitial n') := by
  refine .accept _ (fun _ => .pure rfl) (.accept _ (fun _ => ?_) ?_)
  · exact .map (follows_variableRest (by omega) (by omega)) fun _ => rfl
  · exact .map (follows_expressionStatement hk hk') fun _ => rfl

end Clauses

theorem relabel_countingLoop (line id : Nat → Nat) (initial : Option Stmt)
    (condition increment : Option Expr) (body : Stmt) :
    (countingLoop initial condition increment body).relabel line id =
      countingLoop (initial.map (·.relabel line id)) (condition.map (·.relabel line id))
        (increment.map (·.relabel line id)) (body.relabel line id) := by
  cases initial <;> cases condition <;> cases increment <;> rfl

/-- A list of declarations with one more in front, if it was not left out. -/
theorem relabelAll_toList (line id : Nat → Nat) (o : Option Stmt) (ss : List Stmt) :
    Stmt.relabelAll line id (o.toList ++ ss) =
      (o.map (·.relabel line id)).toList ++ Stmt.relabelAll line id ss := by
  cases o <;> rfl

section Rules

variable {nestedStatement nestedStatement' : Parser Stmt}
  {nestedDeclaration nestedDeclaration' : Parser (Option Stmt)}
  (fs : Forward nestedStatement) (fd : Forward nestedDeclaration) {k n n' : Nat}
  (hk : k < n) (hk' : k < n')

section
include fd

theorem follows_declarations (td : 0 < k → Takes nestedDeclaration)
    (hd : Follows g c k (Option.map (·.relabel g (· + c))) nestedDeclaration nestedDeclaration')
    {m m' : Nat} (hm : k < m) (hm' : k < m') :
    Follows g c k (Stmt.relabelAll g (· + c)) (declarations nestedDeclaration m)
      (declarations nestedDeclaration' m') := by
  induction hm, hm' using bounds_induction with
  | step k m m' hm hm' ih =>
    rw [declarations, declarations]
    refine .bind (.check _) (.check _) fun atBrace => ?_
    cases atBrace with
    | true => exact .bind .atEnd .atEnd fun _ => .pure rfl
    | false =>
      refine .unlessEnd td rfl hd fun hpos first => ?_
      have hd' := hd.le (Nat.sub_le k 1)
      exact .bind (forward_declarations fd m)
        (ih (by omega) (by omega) (fun _ => td hpos) hd') fun more =>
          .pure (relabelAll_toList g (· + c) first more)

include hk hk'

theorem follows_blockRest (td : 0 < k → Takes nestedDeclaration)
    (hd : Follows g c k (Option.map (·.relabel g (· + c))) nestedDeclaration nestedDeclaration') :
    Follows g c k (Stmt.relabelAll g (· + c)) (blockRest nestedDeclaration n)
      (blockRest nestedDeclaration' n') :=
  .bind (forward_declarations fd n) (follows_declarations fd td hd hk hk') fun _ =>
    .expect _ _ fun _ _ _ => .pure rfl

theorem follows_functionOf (td : 0 < k → Takes nestedDeclaration)
    (hd : Follows g c k (Option.map (·.relabel g (· + c))) nestedDeclaration nestedDeclaration')
    (r : Routine) :
    Follows g c k (·.relabel g (· + c)) (functionOf nestedDeclaration n r)
      (functionOf nestedDeclaration' n' r) := by
  refine .expect _ _ fun name _ hpos => .expect _ _ fun _ _ _ =>
    .bind (h := List.map (·.mapLine g)) (.unlessNext _ _ (forward_parameters 0 n))
      (.unlessNext rfl (follows_parameters (by omega) (by omega) 0)) fun names =>
    .expect _ _ fun _ _ _ => .expect _ _ fun _ _ _ => ?_
  have hd' := hd.le (show k - 1 - 1 - 1 - 1 ≤ k by omega)
  exact .bind (forward_blockRest fd n)
    (follows_blockRest fd (by omega) (by omega) (fun _ => td hpos) hd') fun body => .pure rfl

theorem follows_methods (td : 0 < k → Takes nestedDeclaration)
    (hd : Follows g c k (Option.map (·.relabel g (· + c))) nestedDeclaration nestedDeclaration')
    {m m' : Nat} (hm : k < m) (hm' : k < m') :
    Follows g c k (Function.relabelAll g (· + c)) (methods nestedDeclaration n m)
      (methods nestedDeclaration' n' m') := by
  induction hm, hm' using bounds_induction with
  | step k m m' hm hm' ih =>
    rw [methods, methods]
    refine .bind (.check _) (.check _) fun atBrace => ?_
    cases atBrace with
    | true => exact .bind .atEnd .atEnd fun _ => .pure rfl
    | false =>
      refine .unlessEnd (fun _ => takes_functionOf fd n _) rfl
        (follows_functionOf fd hk hk' td hd _) fun hpos first => ?_
      have hd' := hd.le (Nat.sub_le k 1)
      exact .bind (forward_methods fd n m)
        (ih (by omega) (by omega) (by omega) (by omega) (fun _ => td hpos) hd') fun _ =>
          .pure rfl

theorem follows_classRest (td : 0 < k → Takes nestedDeclaration)
    (hd : Follows g c k (Option.map (·.relabel g (· + c))) nestedDeclaration nestedDeclaration') :
    Follows g c k (·.relabel g (· + c)) (classRest nestedDeclaration n)
      (classRest nestedDeclaration' n') := by
  refine .expect _ _ fun name _ hpos => .bind (h := Option.map (·.relabel g (· + c)))
    (.afterNext _ _ (.map _ forward_superclass))
    (.afterNext rfl fun _ => .map (h := (·.relabel g (· + c))) ?_ fun _ => rfl)
    fun parent => .expect _ _ fun _ _ _ => ?_
  · exact .expect _ _ fun _ _ _ => .bind .freshId .freshId fun _ => .pure rfl
  · have hd' := hd.le (show k - 1 - 1 ≤ k by omega)
    exact .bind (forward_methods fd n n) (follows_methods fd (by omega) (by omega)
      (fun _ => td hpos) hd' (by omega) (by omega)) fun _ => .expect _ _ fun _ _ _ => .pure rfl

end

section
include fs hk hk'

theorem follows_forRest (hs : Follows g c k (·.relabel g (· + c)) nestedStatement nestedStatement') :
    Follows g c k (·.relabel g (· + c)) (forRest nestedStatement n) (forRest nestedStatement' n') := by
  have hs' := hs.le (show k - 1 - 1 - 1 ≤ k by omega)
  exact .expect _ _ fun _ _ _ =>
    .bind (forward_forInitial n) (follows_forInitial (by omega) (by omega)) fun initial =>
    .bind (.unlessNext _ _ (.map _ (forward_expression n)))
      (follows_optional (by omega) (by omega) _) fun condition =>
    .expect _ _ fun _ _ _ =>
    .bind (.unlessNext _ _ (.map _ (forward_expression n)))
      (follows_optional (by omega) (by omega) _) fun increment =>
    .expect _ _ fun _ _ _ => .bind fs hs' fun body =>
      .pure (relabel_countingLoop g (· + c) initial condition increment body)

theorem follows_ifRest (hs : Follows g c k (·.relabel g (· + c)) nestedStatement nestedStatement') :
    Follows g c k (·.relabel g (· + c)) (ifRest nestedStatement n) (ifRest nestedStatement' n') := by
  have hs' := hs.le (show k - 1 - 1 ≤ k by omega)
  refine .expect _ _ fun _ _ _ =>
    .bind (forward_expression n) (follows_expression (by omega) (by omega)) fun condition =>
    .expect _ _ fun _ _ _ => .bind fs hs' fun thenCase =>
    .bind (h := Option.map (·.relabel g (· + c))) (.afterNext _ _ (.map _ fs))
      (.afterNext rfl fun _ => .map (hs'.le (Nat.sub_le _ 1)) fun _ => rfl) fun elseCase => ?_
  cases elseCase <;> exact .pure rfl

theorem follows_whileRest
    (hs : Follows g c k (·.relabel g (· + c)) nestedStatement nestedStatement') :
    Follows g c k (·.relabel g (· + c)) (whileRest nestedStatement n)
      (whileRest nestedStatement' n') := by
  have hs' := hs.le (show k - 1 - 1 ≤ k by omega)
  exact .expect _ _ fun _ _ _ =>
    .bind (forward_expression n) (follows_expression (by omega) (by omega)) fun condition =>
    .expect _ _ fun _ _ _ => .bind fs hs' fun body => .pure rfl

end

include fs fd hk hk'

theorem follows_statementOf (td : 0 < k → Takes nestedDeclaration)
    (hs : 0 < k → Follows g c (k - 1) (·.relabel g (· + c)) nestedStatement nestedStatement')
    (hd : 0 < k → Follows g c (k - 1) (Option.map (·.relabel g (· + c))) nestedDeclaration
      nestedDeclaration') :
    Follows g c k (·.relabel g (· + c)) (statementOf nestedStatement nestedDeclaration n)
      (statementOf nestedStatement' nestedDeclaration' n') := by
  refine .take? _ (fun t _ hpos => ?_) (follows_expressionStatement hk hk')
  have hn : k - 1 < n := by omega
  have hn' : k - 1 < n' := by omega
  dsimp only
  rw [Token.mapLine_kind]
  split
  · exact follows_forRest fs hn hn' (hs hpos)
  · exact follows_ifRest fs hn hn' (hs hpos)
  · exact follows_whileRest fs hn hn' (hs hpos)
  · exact follows_returnRest hn hn' t
  · exact .map (follows_blockRest fd hn hn' (fun _ => td hpos) (hd hpos)) fun _ => rfl
  · exact follows_printRest hn hn'

theorem follows_declarationOf (td : 0 < k → Takes nestedDeclaration)
    (hs : 0 < k → Follows g c (k - 1) (·.relabel g (· + c)) nestedStatement nestedStatement')
    (hd : 0 < k → Follows g c (k - 1) (Option.map (·.relabel g (· + c))) nestedDeclaration
      nestedDeclaration') :
    Follows g c k (Option.map (·.relabel g (· + c)))
      (declarationOf nestedStatement nestedDeclaration n)
      (declarationOf nestedStatement' nestedDeclaration' n') := by
  refine .recover (forward_strictly fs fd n) (.take? _ (fun t _ hpos => ?_)
    (follows_statementOf fs fd hk hk' td hs hd))
  have hn : k - 1 < n := by omega
  have hn' : k - 1 < n' := by omega
  dsimp only
  rw [Token.mapLine_kind]
  split
  · exact follows_classRest fd hn hn' (fun _ => td hpos) (hd hpos)
  · exact .map (follows_functionOf fd hn hn' (fun _ => td hpos) (hd hpos) _) fun _ => rfl
  · exact follows_variableRest hn hn'

end Rules

theorem follows_statement_declaration {k n n' : Nat} (hk : k < n) (hk' : k < n') :
    Follows g c k (·.relabel g (· + c)) (statement n) (statement n') ∧
      Follows g c k (Option.map (·.relabel g (· + c))) (declaration n) (declaration n') := by
  induction hk, hk' using bounds_induction with
  | step k n n' hk hk' ih =>
    have fs := forward_statement n
    have fd := forward_declaration n
    have td : 0 < k → Takes (declaration n) := fun hpos => takes_declaration (by omega)
    rw [statement, statement, declaration, declaration]
    exact ⟨follows_statementOf fs fd hk hk' td (fun _ => (ih (by omega) (by omega)).1)
        fun _ => (ih (by omega) (by omega)).2,
      follows_declarationOf fs fd hk hk' td (fun _ => (ih (by omega) (by omega)).1)
        fun _ => (ih (by omega) (by omega)).2⟩

theorem follows_program {k n n' : Nat} (hk : k < n) (hk' : k < n') {m m' : Nat} (hm : k < m)
    (hm' : k < m') :
    Follows g c k (Stmt.relabelAll g (· + c)) (program n m) (program n' m') := by
  induction hm, hm' using bounds_induction with
  | step k m m' hm hm' ih =>
    rw [program, program]
    refine .unlessEnd (fun _ => takes_declaration (by omega)) rfl
      (follows_statement_declaration hk hk').2 fun hpos first => ?_
    exact .bind (forward_program n m)
      (ih (by omega) (by omega) (by omega) (by omega)) fun more =>
        .pure (relabelAll_toList g (· + c) first more)

/-! ## Whole token lists -/

/-- How a rule ends on a whole list. -/
def outcome {α : Type} : EStateM.Result SyntaxError ParseState α → Outcome α
  | .ok a s => ⟨if s.errors.isEmpty then .ok a else .error s.errors, s.nextId⟩
  | .error e s => ⟨.error (s.errors ++ [e]), s.nextId⟩

/-- An outcome on other lines and with ids that begin further on. -/
def Outcome.move {α β : Type} (g : Nat → Nat) (c : Nat) (f : α → β) (o : Outcome α) : Outcome β where
  result := (o.result.map f).mapError (·.map (·.mapLine g))
  nextId := o.nextId + c

theorem runRule_eq {α : Type} (rule : Nat → Parser α) (tokens : List Token) (firstId : Nat) :
    runRule rule tokens firstId =
      outcome (rule (tokens.length + 1) (.start tokens firstId)) := by
  rw [runRule]
  cases rule (tokens.length + 1) (.start tokens firstId) <;> rfl

theorem outcome_mapResult {α β : Type} (f : α → β)
    (r : EStateM.Result SyntaxError ParseState α) :
    outcome (mapResult g c f r) = (outcome r).move g c f := by
  cases r with
  | ok a s =>
    obtain ⟨rest, eof, errors, n⟩ := s
    cases errors <;> rfl
  | error e s =>
    simp only [mapResult, outcome, Outcome.move, ParseState.move, Except.map, Except.mapError,
      List.map_append, List.map_cons, List.map_nil]

theorem mapLine_id (t : Token) : t.mapLine (fun l => l) = t := rfl

theorem start_add (tokens : List Token) (firstId : Nat) :
    ParseState.start tokens (firstId + c) = (ParseState.start tokens firstId).move (fun l => l) c := by
  simp only [ParseState.move, ParseState.start, mapLine_id, List.map_id']
  rfl

theorem runRule_add {α : Type} {rule : Nat → Parser α} {f : α → α} (tokens : List Token)
    (firstId : Nat)
    (h : Follows (fun l => l) c tokens.length f (rule (tokens.length + 1)) (rule (tokens.length + 1))) :
    runRule rule tokens (firstId + c) = (runRule rule tokens firstId).move (fun l => l) c f := by
  rw [runRule_eq, runRule_eq, start_add, h _ (List.takeWhile_prefix _).length_le, outcome_mapResult]

/-- A program is parsed in the same way with ids that begin further on. -/
theorem parseProgram_add (tokens : List Token) (firstId : Nat) :
    parseProgram tokens (firstId + c) =
      (parseProgram tokens firstId).move (fun l => l) c (Stmt.relabelAll (fun l => l) (· + c)) :=
  runRule_add tokens firstId (follows_program (Nat.lt_succ_self _) (Nat.lt_succ_self _)
    (Nat.lt_succ_self _) (Nat.lt_succ_self _))

theorem parseExpression_add (tokens : List Token) (firstId : Nat) :
    parseExpression tokens (firstId + c) =
      (parseExpression tokens firstId).move (fun l => l) c (·.relabel (fun l => l) (· + c)) :=
  runRule_add tokens firstId (follows_wholeExpression (Nat.lt_succ_self _) (Nat.lt_succ_self _))

end Lox.Parse
