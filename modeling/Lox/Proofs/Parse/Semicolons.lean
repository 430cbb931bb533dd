import Lox.Proofs.Grammar.Before
import Lox.Proofs.Grammar.Exact
import Lox.Proofs.Grammar.Within
import Lox.Proofs.Parse.Moved.Stmt

/-
  Missing semicolons

  Of statements `print e` and `var x = e` any may lack its semicolon. The error is
  found at the first token of the next statement. To go on the parser drops that
  token, and with it the keyword it looks for: so the next statement is passed
  over as well, up to its semicolon or up to the keyword of the one behind it, and
  nobody finds out whether its own semicolon is there. Hence every missing
  semicolon is reported exactly if no two neighbours lack theirs.
-/

namespace Lox.Parse

open Grammar

/-! ## Statements of one value -/

/-- How a statement of one value begins. -/
inductive Opening where
  | print (word : Token) (isPrint : word.kind = .printWord)
  | declare (word name equals : Token) (isVar : word.kind = .varWord)
      (isName : name.kind = .identifier) (isEqual : equals.kind = .equal)

namespace Opening

/-- The keyword. -/
def word : Opening → Token
  | .print word _ | .declare word .. => word

/-- The tokens between the keyword and the value. -/
def rest : Opening → List Token
  | .print .. => []
  | .declare _ name equals .. => [name, equals]

/-- What is wrong with such a statement if its semicolon is missing. -/
def unterminated : Opening → SyntaxProblem
  | .print .. => .endOfPrint
  | .declare .. => .endOfVariable

theorem word_kind (o : Opening) : o.word.kind = .printWord ∨ o.word.kind = .varWord := by
  cases o with
  | print _ h => exact .inl h
  | declare _ _ _ h _ _ => exact .inr h

theorem rest_kind (o : Opening) : ∀ t ∈ o.rest, t.kind = .identifier ∨ t.kind = .equal := by
  cases o with
  | print => exact nofun
  | declare _ name equals _ hname hequals =>
    simp only [rest, List.forall_mem_cons]
    exact ⟨.inl hname, .inr hequals, nofun⟩

end Opening

/-- A statement that prints a value or declares a variable with one, with or without its
semicolon. Any expression that the parser accepts can be the value. -/
structure ValueStatement where
  opening : Opening
  value : List Token
  semicolon : Option Token
  unmarked : ∀ t ∈ value, t.isEof = false
  accepted : ∃ e, (parseExpression value 0).result = .ok e
  isSemicolon : ∀ t ∈ semicolon, t.kind = .semicolon

namespace ValueStatement

/-- The tokens behind the keyword. -/
def rest (v : ValueStatement) : List Token := v.opening.rest ++ v.value ++ v.semicolon.toList

/-- The tokens of statements one after the other. -/
def source (vs : List ValueStatement) : List Token := vs.flatMap fun v => v.opening.word :: v.rest

/-- The first token of the statements, or the end marker if there are none. -/
def firstToken (vs : List ValueStatement) (eof : Token) : Token := (source vs).headD eof

/-- One error for each statement without semicolon, at the first token of the next one. -/
def omissions (eof : Token) : List ValueStatement → List SyntaxError
  | [] => []
  | v :: vs =>
    if v.semicolon.isSome then omissions eof vs
    else ⟨firstToken vs eof, v.opening.unterminated⟩ :: omissions eof vs

/-- The errors that are reported if the first statement is still to be read, and if it is
passed over. -/
def reported (eof : Token) : Bool → List ValueStatement → List SyntaxError
  | _, [] => []
  | true, _ :: vs => reported eof false vs
  | false, v :: vs =>
    if v.semicolon.isSome then reported eof false vs
    else ⟨firstToken vs eof, v.opening.unterminated⟩ :: reported eof true vs

/-! ## What is passed over -/

/-- Only errors of missing semicolons are reported, and each once. -/
theorem reported_sublist (eof : Token) (passing : Bool) (vs : List ValueStatement) :
    (reported eof passing vs).Sublist (omissions eof vs) := by
  induction vs generalizing passing with
  | nil => cases passing <;> exact .slnil
  | cons v vs ih =>
    rw [omissions]
    cases passing <;> rw [reported] <;> split
    · exact ih false
    · exact (ih true).cons_cons _
    · exact ih false
    · exact (ih false).cons _

/-- All of them are reported if no two neighbours lack their semicolon and the statement that
is passed over has its own. -/
theorem reported_eq_iff (eof : Token) (passing : Bool) (vs : List ValueStatement) :
    reported eof passing vs = omissions eof vs ↔
      (passing = true → ∀ v ∈ vs.head?, v.semicolon.isSome) ∧
        vs.IsChain fun v w => v.semicolon.isSome ∨ w.semicolon.isSome := by
  induction vs generalizing passing with
  | nil => cases passing <;> simp [reported, omissions]
  | cons v vs ih =>
    rw [omissions, List.isChain_cons]
    cases hv : v.semicolon.isSome with
    | true => cases passing <;> simp [reported, hv, ih]
    | false =>
      cases passing with
      | false => simp [reported, hv, ih]
      | true =>
        have hlt := (reported_sublist eof false vs).length_le
        simp only [reported, hv, Bool.false_eq_true, if_false, List.head?_cons, Option.mem_some_iff,
          forall_eq', imp_false, not_true_eq_false, false_and, iff_false]
        intro h
        rw [h, List.length_cons] at hlt
        omega

theorem source_cons (v : ValueStatement) (vs : List ValueStatement) :
    source (v :: vs) = v.opening.word :: (v.rest ++ source vs) := by
  rw [source, List.flatMap_cons, List.cons_append, source]

theorem length_le_source (vs : List ValueStatement) : vs.length ≤ (source vs).length := by
  induction vs with
  | nil => exact Nat.le_refl _
  | cons v vs ih =>
    rw [source_cons, List.length_cons, List.length_cons, List.length_append]
    omega

theorem source_ends {f : Kind → Bool} (hp : f .printWord = false) (hv : f .varWord = false)
    (vs : List ValueStatement) (i : Nat) : Place.Ends ⟨source vs, i⟩ f := by
  cases vs with
  | nil => exact Place.ends_nil
  | cons v vs =>
    rw [source_cons]
    rintro _ ⟨⟩
    obtain h | h := v.opening.word_kind <;> rw [h] <;> assumption

theorem unmarked_source {vs : List ValueStatement} : ∀ t ∈ source vs, t.isEof = false := by
  intro t ht
  obtain ⟨v, _, ht⟩ := List.mem_flatMap.1 ht
  simp only [rest, List.mem_cons, List.mem_append, Option.mem_toList] at ht
  obtain rfl | (ht | ht) | ht := ht
  · obtain h | h := v.opening.word_kind <;> rw [Token.isEof, h] <;> rfl
  · obtain h | h := v.opening.rest_kind t ht <;> rw [Token.isEof, h] <;> rfl
  · exact v.unmarked t ht
  · rw [Token.isEof, v.isSemicolon t ht]; rfl

variable (v : ValueStatement) (vs : List ValueStatement)

/-- The value is an expression, whatever comes behind it. -/
theorem derives (i : Nat) :
    ∃ e j, ∀ more, Derives .expression ⟨v.value ++ more, i⟩ e ⟨more, j⟩ := by
  obtain ⟨e, he⟩ := v.accepted
  have hmarked : MarkedAtEnd v.value := fun t ht => v.unmarked t (List.mem_of_mem_dropLast ht)
  have hparse : ∃ e j, parseExpression v.value i = ⟨.ok e, j⟩ := by
    have hmoved := parseExpression_add (c := i) v.value 0
    rw [Nat.zero_add] at hmoved
    cases hrun : parseExpression v.value 0 with
    | mk result k =>
      rw [hrun] at hmoved he
      cases he
      exact ⟨_, _, hmoved⟩
  obtain ⟨e, j, hparse⟩ := hparse
  obtain ⟨body, hbody, hderives⟩ := (parseExpression_iff hmarked e j).1 hparse
  obtain rfl : v.value = body := by
    rw [← hbody.takeWhile_eq]
    exact (List.takeWhile_eq_self_iff.2 fun t ht => by rw [v.unmarked t ht]; rfl).symm
  exact ⟨e, j, hderives.before⟩

/-- There is no place to go on between the keyword and the semicolon. -/
theorem inner : ∀ t ∈ v.opening.rest ++ v.value, isInner t.kind = true := by
  intro t ht
  obtain ht | ht := List.mem_append.1 ht
  · obtain h | h := v.opening.rest_kind t ht <;> rw [h] <;> rfl
  · obtain ⟨_, _, hderives⟩ := v.derives 0
    obtain ⟨front, hfront, hinner⟩ := (hderives []).reaches
    simp only [List.append_nil] at hfront
    exact hinner t (hfront ▸ ht)

theorem skipToStatement_inner {previous : Token} {front : List Token} (back : List Token)
    (hprevious : previous.kind ≠ .semicolon) (hfront : ∀ t ∈ front, isInner t.kind = true) :
    ∃ last : Token, last.kind ≠ .semicolon ∧
      skipToStatement previous (front ++ back) = skipToStatement last back := by
  induction front generalizing previous with
  | nil => exact ⟨previous, hprevious, rfl⟩
  | cons t front ih =>
    obtain ⟨ht, hfront⟩ := List.forall_mem_cons.1 hfront
    obtain ⟨hkind, hstart⟩ := of_isInner ht
    obtain ⟨last, hlast, hskip⟩ := ih hkind hfront
    refine ⟨last, hlast, ?_⟩
    rw [List.cons_append, skipToStatement, if_neg hprevious, hstart, if_neg Bool.false_ne_true,
      hskip]

/-- Statements are gone on with. -/
theorem skipToStatement_source (previous : Token) :
    skipToStatement previous (source vs) = source vs := by
  cases vs with
  | nil => rfl
  | cons v vs =>
    have hstart : startsStatement v.opening.word.kind = true := by
      obtain h | h := v.opening.word_kind <;> rw [h] <;> rfl
    rw [source_cons, skipToStatement, hstart, if_pos rfl, ite_self]

/-- Behind its keyword the whole statement is dropped. -/
theorem skipToStatement_rest :
    skipToStatement v.opening.word (v.rest ++ source vs) = source vs := by
  have hword : v.opening.word.kind ≠ .semicolon := by
    obtain h | h := v.opening.word_kind <;> rw [h] <;> decide
  rw [rest, List.append_assoc]
  obtain ⟨last, hlast, hskip⟩ :=
    skipToStatement_inner (v.semicolon.toList ++ source vs) hword v.inner
  rw [hskip]
  cases hs : v.semicolon with
  | none => exact skipToStatement_source vs last
  | some semicolon =>
    have hkind := v.isSemicolon semicolon hs
    rw [Option.toList_some, List.singleton_append, skipToStatement, if_neg hlast, hkind,
      if_neg (by decide)]
    exact skipToStatement_source vs semicolon

/-! ## Reading statements -/

variable {n : Nat} (s : ParseState) (i : Nat) {v vs}

/-- A statement with its semicolon is read. -/
theorem declaration_terminated (hv : v.semicolon.isSome = true)
    (hn : (source (v :: vs)).length ≤ n) :
    ∃ d j, declaration n (s.at ⟨source (v :: vs), i⟩) = .ok (some d) (s.at ⟨source vs, j⟩) := by
  obtain ⟨semicolon, hsome⟩ := Option.isSome_iff_exists.1 hv
  obtain ⟨e, j, hderives⟩ := v.derives i
  have hvalue := hderives (semicolon :: source vs)
  have hsemicolon := v.isSemicolon semicolon hsome
  have hread : ∃ d, Declaration .nearest ⟨source (v :: vs), i⟩ d ⟨source vs, j⟩ := by
    rw [source_cons, rest, hsome, Option.toList_some, List.append_assoc, List.append_assoc,
      List.singleton_append]
    cases v.opening with
    | print word hword => exact ⟨_, .statement (.print hword hvalue hsemicolon)⟩
    | declare word name equals hword hname hequals =>
      exact ⟨_, .varDecl (.initialized hword hname hequals hvalue hsemicolon)⟩
  obtain ⟨d, hread⟩ := hread
  exact ⟨d, j, accepts_declaration s hn hread (source_ends rfl rfl vs j)⟩

/-- A token that is not there is missed at the next one. -/
theorem expect_ends {K : Kind} {problem : SyntaxProblem} {p : Place} (h : p.Ends (· == K)) :
    expect K problem (s.at p) = .error ⟨p.tokens.headD s.eof, problem⟩ (s.at p) := by
  obtain ⟨_ | ⟨t, ts⟩, i⟩ := p
  · rfl
  · have ht : t.kind ≠ K := by simpa using h t rfl
    simp only [expect, ParseState.at, ht, if_false]
    rfl

/-- Without its semicolon it fails, at the statement behind it. -/
theorem declarationOf_unterminated (nestedStatement : Parser Stmt)
    (nestedDeclaration : Parser (Option Stmt)) (hv : v.semicolon.isSome = false)
    (hn : (source (v :: vs)).length ≤ n) :
    ∃ j, Strict.declarationOf nestedStatement nestedDeclaration n (s.at ⟨source (v :: vs), i⟩) =
      .error ⟨firstToken vs s.eof, v.opening.unterminated⟩ (s.at ⟨source vs, j⟩) := by
  have hnone : v.semicolon = none := by simpa using hv
  obtain ⟨e, j, hderives⟩ := v.derives i
  have hends : Place.Ends ⟨source vs, j⟩ Level.expression.continues :=
    source_ends (by decide) (by decide) vs j
  have hmissed (problem : SyntaxProblem) :
      expect .semicolon problem (s.at ⟨source vs, j⟩) =
        .error ⟨firstToken vs s.eof, problem⟩ (s.at ⟨source vs, j⟩) :=
    expect_ends s (source_ends rfl rfl vs j)
  refine ⟨j, ?_⟩
  rw [source_cons, rest, hnone, Option.toList_none, List.append_nil] at hn ⊢
  rw [List.append_assoc] at hn ⊢
  rw [List.length_cons, List.length_append] at hn
  have hread := accepts_expression s (n := n) (by simp only; omega) (hderives (source vs)) hends
  cases v.opening with
  | print word hword =>
    refine (bind_of_ok (take?_ends ?_)).trans ?_
    · rintro _ ⟨⟩
      simp only [Opening.word, hword, startsDeclaration]
    · refine (bind_of_ok (take?_at (by simp only [Opening.word, hword]; rfl))).trans ?_
      simp only [Opening.word, hword]
      exact (bind_of_ok hread).trans (bind_of_error (hmissed _))
  | declare word name equals hword hname hequals =>
    refine (bind_of_ok (take?_at (by simp only [Opening.word, hword]; rfl))).trans ?_
    simp only [Opening.word, hword]
    refine (bind_of_ok (expect_at hname)).trans ?_
    refine (bind_of_ok (afterNext_at hequals (map_of_ok hread))).trans ?_
    exact bind_of_error (hmissed _)

/-- The error is recorded, and the next statement is dropped. -/
theorem declaration_unterminated (fs : List SyntaxError) (hv : v.semicolon.isSome = false)
    (hn : (source (v :: vs)).length ≤ n) :
    ∃ j, declaration n (s.on ⟨⟨source (v :: vs), i⟩, fs⟩) =
      .ok none (s.on ⟨⟨source vs.tail, j⟩,
        fs ++ [⟨firstToken vs s.eof, v.opening.unterminated⟩]⟩) := by
  obtain _ | n := n
  · rw [source_cons] at hn
    exact absurd hn (Nat.not_succ_le_zero _)
  obtain ⟨j, hfails⟩ :=
    declarationOf_unterminated { s with errors := fs } i (statement n) (declaration n) hv hn
  refine ⟨j, ?_⟩
  rw [declaration, declarationOf_eq]
  refine (recover_of_error hfails).trans ?_
  cases vs with
  | nil => rfl
  | cons w ws =>
    -- the token that is dropped first is the keyword of the next statement
    refine Eq.trans ?_ (congrArg (fun ts => EStateM.Result.ok none (s.on ⟨⟨ts, j⟩, _⟩))
      (skipToStatement_rest w ws))
    rw [source_cons]
    rfl

/-- Statements up to the end are read with the errors that are reported, whether the first
of them is still there or was passed over. -/
theorem program_source (vs : List ValueStatement) (passing : Bool) (fs : List SyntaxError)
    (m : Nat) (hm : vs.length ≤ m) (hn : (source vs).length ≤ n) :
    ∃ body j, program n m (s.on ⟨⟨source (if passing then vs.tail else vs), i⟩, fs⟩) =
      .ok body (s.on ⟨⟨[], j⟩, fs ++ reported s.eof passing vs⟩) := by
  induction vs generalizing passing fs m i with
  | nil =>
    have hreported : fs ++ reported s.eof passing [] = fs := by cases passing <;> simp [reported]
    rw [List.tail_nil, ite_self, hreported]
    cases m <;> exact ⟨[], i, rfl⟩
  | cons v vs ih =>
    have hlen : (source vs).length ≤ n := by
      rw [source_cons, List.length_cons, List.length_append] at hn
      omega
    rw [List.length_cons] at hm
    cases passing with
    -- the statement went with the error of the one before it
    | true => exact ih i false fs m (by omega) hlen
    | false =>
      obtain _ | m := m
      · omega
      have hmore : atEnd (s.on ⟨⟨source (v :: vs), i⟩, fs⟩) =
          .ok false (s.on ⟨⟨source (v :: vs), i⟩, fs⟩) := by
        rw [source_cons]
        rfl
      simp only [Bool.false_eq_true, if_false, program, reported]
      cases hv : v.semicolon.isSome with
      | true =>
        obtain ⟨d, j, hread⟩ := declaration_terminated { s with errors := fs } i hv hn
        obtain ⟨body, k, hrest⟩ := ih j false fs m (by omega) hlen
        refine ⟨d :: body, k, (bind_of_ok hmore).trans ?_⟩
        exact (bind_of_ok hread).trans ((bind_of_ok hrest).trans rfl)
      | false =>
        obtain ⟨j, hread⟩ := declaration_unterminated s i fs hv hn
        obtain ⟨body, k, hrest⟩ := ih j true _ m (by omega) hlen
        refine ⟨body, k, (bind_of_ok hmore).trans ((bind_of_ok hread).trans ?_)⟩
        refine (bind_of_ok hrest).trans ?_
        rw [List.append_assoc]
        rfl

/-- Statements without some of their semicolons are parsed with an error for each missing one,
at the first token of the next statement, unless that semicolon belongs to a statement that is
passed over. So the errors are those of all missing semicolons exactly if no two neighbours
lack theirs, and there are never any others. -/
theorem parse_without_semicolons (vs : List ValueStatement) (eof : Token)
    (heof : eof.isEof = true) (firstId : Nat) :
    (∃ program nextId, parseProgram (source vs ++ [eof]) firstId =
      ⟨if (reported eof false vs).isEmpty then .ok program else .error (reported eof false vs),
        nextId⟩) ∧
    (reported eof false vs).Sublist (omissions eof vs) ∧
    (reported eof false vs = omissions eof vs ↔
      vs.IsChain fun v w => v.semicolon.isSome ∨ w.semicolon.isSome) := by
  refine ⟨?_, reported_sublist eof false vs, by simp [reported_eq_iff]⟩
  have hunmarked : Unmarked (source vs ++ [eof]) (source vs) :=
    ⟨unmarked_source, .inr ⟨eof, heof, rfl⟩⟩
  have hend : (ParseState.start (source vs ++ [eof]) firstId).eof = eof := by
    have hnone : (source vs).find? Token.isEof = none :=
      List.find?_eq_none.2 fun t ht => by simp [unmarked_source t ht]
    simp [ParseState.start, hnone, heof]
  have hcount := length_le_source vs
  obtain ⟨program, nextId, hrun⟩ := program_source (n := (source vs ++ [eof]).length + 1)
    (ParseState.start (source vs ++ [eof]) firstId) firstId vs false []
    ((source vs ++ [eof]).length + 1) (by simp; omega) (by simp; omega)
  rw [hend, List.nil_append] at hrun
  exact ⟨program, nextId,
    (runRule_complete (fun n => Parse.program n n) hunmarked hrun).2⟩

/-- A statement that prints `nil`. -/
def printsNil (line : Nat) (terminated : Bool) : ValueStatement where
  opening := .print ⟨.printWord, "print", line⟩ rfl
  value := [⟨.nilWord, "nil", line⟩]
  semicolon := if terminated then some ⟨.semicolon, ";", line⟩ else none
  unmarked := List.forall_mem_singleton.2 rfl
  accepted := ⟨.nil, rfl⟩
  isSemicolon := by cases terminated <;> simp

/-- With a semicolon in between, both missing ones are reported. -/
theorem parse_without_semicolons_apart :
    (parseProgram (source [printsNil 1 false, printsNil 2 true, printsNil 3 false] ++
      [⟨.eof, "", 3⟩]) 0).result =
      .error (omissions ⟨.eof, "", 3⟩ [printsNil 1 false, printsNil 2 true, printsNil 3 false]) ∧
    omissions ⟨.eof, "", 3⟩ [printsNil 1 false, printsNil 2 true, printsNil 3 false] =
      [⟨⟨.printWord, "print", 2⟩, .endOfPrint⟩, ⟨⟨.eof, "", 3⟩, .endOfPrint⟩] := by
  obtain ⟨⟨program, nextId, hparse⟩, _, hall⟩ := parse_without_semicolons
    [printsNil 1 false, printsNil 2 true, printsNil 3 false] ⟨.eof, "", 3⟩ rfl 0
  refine ⟨?_, rfl⟩
  rw [hparse, hall.2 (by simp [printsNil])]
  rfl

/-- Of two neighbours only the first is found to lack its semicolon. -/
theorem parse_without_semicolons_neighbours :
    omissions ⟨.eof, "", 2⟩ [printsNil 1 false, printsNil 2 false] =
      [⟨⟨.printWord, "print", 2⟩, .endOfPrint⟩, ⟨⟨.eof, "", 2⟩, .endOfPrint⟩] ∧
    (parseProgram (source [printsNil 1 false, printsNil 2 false] ++ [⟨.eof, "", 2⟩]) 0).result =
      .error [⟨⟨.printWord, "print", 2⟩, .endOfPrint⟩] ∧
    (parseProgram (source [printsNil 1 false, printsNil 2 false] ++ [⟨.eof, "", 2⟩]) 0).result ≠
      .error (omissions ⟨.eof, "", 2⟩ [printsNil 1 false, printsNil 2 false]) := by
  have hresult : (parseProgram (source [printsNil 1 false, printsNil 2 false] ++
      [⟨.eof, "", 2⟩]) 0).result = .error [⟨⟨.printWord, "print", 2⟩, .endOfPrint⟩] := rfl
  refine ⟨rfl, hresult, ?_⟩
  rw [hresult]
  rintro ⟨⟩

end ValueStatement
end Lox.Parse
