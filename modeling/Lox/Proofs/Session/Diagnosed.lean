import Lox.Proofs.Parse.OwnLines
import Lox.Proofs.Session.Joined
import Lox.Proofs.Token.Extent

/-
  Diagnostics that point into the source

  All lexical and syntax errors of a source are reported together, in the order
  of their lines (`Reports`). No line of a report is made up. An error of a run
  may come from an earlier source, whose trees live on in functions and classes;
  so a session carries the invariant that every line in it is that of a token
  that was given (`Lined`), stated as a likeness of the machine with itself:
  what was displaced would not be alike.
-/

namespace Lox

open Eval

/-- The tokens of the source that a request evaluates. -/
def Request.tokens : Request → List Token
  | .run source | .evaluate source => Lox.tokens source
  | _ => []

/-- The syntax errors of the source that a request evaluates. -/
def Request.syntaxErrors (firstId : Nat) : Request → List SyntaxError
  | .run source => (Parse.parseProgram (Lox.tokens source) firstId).errors
  | .evaluate source => (Parse.parseExpression (Lox.tokens source) firstId).errors
  | _ => []

/-- A fault is not below another one. -/
def Diagnostic.NotBelow (d d' : Diagnostic) : Prop :=
  ∀ l ∈ d.line?, ∀ l' ∈ d'.line?, l ≤ l'

/-- `Reports lexical syntactic ds`: the report has each of the errors once, by line, and
on one line the lexical ones first, and else each kind in the order found. -/
structure Reports (lexical : List LexicalError) (syntactic : List SyntaxError)
    (ds : List Diagnostic) : Prop where
  complete : ds.Perm (lexical.map .lexical ++ syntactic.map .syntactic)
  sorted : ds.Pairwise Diagnostic.NotBelow
  onLine : ∀ l, ds.filter (·.line? = some l) =
    (lexical.filter (·.line = l)).map .lexical ++
      (syntactic.filter (·.token.line = l)).map .syntactic

/-! ## The report of a source -/

/-- A stable sort keeps the order of what it does not tell apart. -/
theorem filter_mergeSort {α : Type} {le : α → α → Bool}
    (htrans : ∀ a b c, le a b = true → le b c = true → le a c = true)
    (htotal : ∀ a b, (le a b || le b a) = true) {p : α → Bool}
    (hp : ∀ a b, p a = true → p b = true → le a b = true) (l : List α) :
    (l.mergeSort le).filter p = l.filter p := by
  have hsame : (l.filter p).Pairwise fun a b => le a b = true :=
    List.pairwise_of_forall_mem_list fun a ha b hb =>
      hp a b (List.mem_filter.1 ha).2 (List.mem_filter.1 hb).2
  have hkept : (l.filter p).Sublist ((l.mergeSort le).filter p) := by
    have h := (List.sublist_mergeSort htrans htotal hsame List.filter_sublist).filter p
    simpa only [List.filter_filter, Bool.and_self] using h
  exact (hkept.eq_of_length ((List.mergeSort_perm l le).filter p).length_eq.symm).symm

namespace Diagnostic

/-- The order of a report. -/
def byLine (d d' : Diagnostic) : Bool := d.line?.getD 0 ≤ d'.line?.getD 0

theorem byLine_trans (a b c : Diagnostic) (h : a.byLine b = true) (h' : b.byLine c = true) :
    a.byLine c = true :=
  decide_eq_true (Nat.le_trans (of_decide_eq_true h) (of_decide_eq_true h'))

theorem byLine_total (a b : Diagnostic) : (a.byLine b || b.byLine a) = true := by
  rw [Bool.or_eq_true, byLine, byLine, decide_eq_true_iff, decide_eq_true_iff]
  exact Nat.le_total _ _

theorem NotBelow.of_byLine {d d' : Diagnostic} (h : d.byLine d' = true) : d.NotBelow d' := by
  intro l hl l' hl'
  rw [byLine, Option.mem_def.1 hl, Option.mem_def.1 hl'] at h
  exact of_decide_eq_true h

end Diagnostic

namespace Session

theorem sortedByLine_eq (lexical : List LexicalError) (syntactic : List SyntaxError) :
    sortedByLine lexical syntactic =
      (lexical.map Diagnostic.lexical ++ syntactic.map Diagnostic.syntactic).mergeSort
        Diagnostic.byLine := rfl

theorem mem_sortedByLine {lexical : List LexicalError} {syntactic : List SyntaxError}
    {d : Diagnostic} (h : d ∈ sortedByLine lexical syntactic) :
    (∃ e ∈ lexical, d = .lexical e) ∨ ∃ e ∈ syntactic, d = .syntactic e := by
  rw [sortedByLine_eq, List.mem_mergeSort, List.mem_append, List.mem_map, List.mem_map] at h
  obtain ⟨e, he, rfl⟩ | ⟨e, he, rfl⟩ := h
  · exact .inl ⟨e, he, rfl⟩
  · exact .inr ⟨e, he, rfl⟩

theorem reports_sortedByLine (lexical : List LexicalError) (syntactic : List SyntaxError) :
    Reports lexical syntactic (sortedByLine lexical syntactic) where
  complete := List.mergeSort_perm _ _
  sorted := (List.pairwise_mergeSort Diagnostic.byLine_trans Diagnostic.byLine_total _).imp
    .of_byLine
  onLine l := by
    rw [sortedByLine_eq, filter_mergeSort Diagnostic.byLine_trans Diagnostic.byLine_total,
      List.filter_append, List.filter_map, List.filter_map]
    · simp only [Function.comp_def, Diagnostic.line?, Option.some.injEq]
    · -- faults on one line are not told apart
      intro a b ha hb
      rw [decide_eq_true_iff] at ha hb
      rw [Diagnostic.byLine, ha, hb]
      exact decide_eq_true (Nat.le_refl l)

section Refused

variable {α : Type} {rule : List Token → Nat → Parse.Outcome α} {source : String} {s s₁ : Session}

/-- What a refused source is refused for. -/
theorem errors_of_parse {ds : List Diagnostic}
    (h : parse rule source s = .error (.error (.malformed ds)) s₁) :
    ds = sortedByLine (lexicalErrors source) (rule (tokens source) s.nextId).errors := by
  rw [parse] at h
  generalize rule (tokens source) s.nextId = outcome at h ⊢
  obtain ⟨result, k⟩ := outcome
  cases result with
  | ok tree =>
    cases hl : (lexicalErrors source).isEmpty with
    | true =>
      simp only [hl, if_true] at h
      cases h
    | false =>
      simp only [hl, Bool.false_eq_true, if_false] at h
      cases h
      rfl
  | error errors =>
    cases h
    rfl

/-- A source is refused for its errors, or else its tree for breaking static rules, at tokens
of the source. This is so for any rule and any resolution that are the same on displaced
lines. -/
theorem attempt_lines {β : Type} {resolve : α → Except (List ScopeError) Distances}
    {relabel : α → α} (go : α → Step β) (f : β → Answer)
    (hmove : (rule (tokens source) s.nextId).move (displace (tokens source)) 0 relabel =
      rule (tokens source) s.nextId)
    (hresolve : ∀ tree errors, relabel tree = tree → resolve tree = .error errors →
      ∀ e ∈ errors, displace (tokens source) e.token.line = e.token.line) :
    let answer := (conclude f
      ((parse rule source >>= fun tree => record (resolve tree) >>= fun _ => go tree) s)).1
    answer = .failed (.malformed
      (sortedByLine (lexicalErrors source) (rule (tokens source) s.nextId).errors)) ∨
    lexicalErrors source = [] ∧ (rule (tokens source) s.nextId).errors = [] ∧
      ((∃ errors, answer = .failed (.misscoped errors) ∧
        ∀ e ∈ errors, ∃ u ∈ tokens source, u.line = e.token.line) ∨
      ∃ tree k ds, rule (tokens source) s.nextId = ⟨.ok tree, k⟩ ∧ resolve tree = .ok ds) := by
  intro answer
  obtain ⟨ds, _, -, hparse, h⟩ | ⟨tree, k, errors, hl, hp, hres, h⟩ | ⟨tree, k, ds, hl, hp, hres⟩ :=
    attempt_cases rule resolve go f source s
  · rw [← errors_of_parse hparse]
    exact .inl (congrArg Prod.fst h)
  · refine .inr ⟨hl, congrArg Parse.Outcome.errors hp,
      .inl ⟨errors, congrArg Prod.fst h, fun e he => ?_⟩⟩
    -- the tree is the same on displaced lines, so the lines of its errors are those of tokens
    exact exists_mem_of_displace
      (hresolve tree errors (Parse.tree_of_move_self hmove hp) hres e he)
  · exact .inr ⟨hl, congrArg Parse.Outcome.errors hp, .inr ⟨tree, k, ds, hp, hres⟩⟩

end Refused

/-! ## Lines of tokens -/

variable {rounds : Nat} {r : Request} {s s₁ : Session} {t : Task} {source : String}

theorem line_of_mem_syntaxErrors {n : Nat} {e : SyntaxError} (h : e ∈ r.syntaxErrors n) :
    ∃ u ∈ r.tokens, u.line = e.token.line := by
  cases r with
  | run source =>
    exact exists_mem_of_displace
      (Parse.line_of_move_self (Parse.parseProgram_displace source) e h)
  | evaluate source =>
    exact exists_mem_of_displace
      (Parse.line_of_move_self (Parse.parseExpression_displace source) e h)
  | parseProgram source | parseExpression source | readExpression source => cases h

/-- A source with errors is refused for them, a tree that breaks static rules for those, at
tokens of the source, and any other tree is evaluated. -/
theorem request_cases (rounds : Nat) (s : Session) (hr : r = .run source ∨ r = .evaluate source) :
    (s.perform rounds r).1 =
      .failed (.malformed (sortedByLine (lexicalErrors source) (r.syntaxErrors s.nextId))) ∨
    lexicalErrors source = [] ∧ r.syntaxErrors s.nextId = [] ∧
      ((∃ errors, (s.perform rounds r).1 = .failed (.misscoped errors) ∧
        ∀ e ∈ errors, ∃ u ∈ r.tokens, u.line = e.token.line) ∨
      ∃ t s₁, Begins r s t s₁) := by
  obtain rfl | rfl := hr
  · obtain h | ⟨hl, hsyntactic, h | ⟨_, _, _, hp, hres⟩⟩ :=
      attempt_lines (fun program => onMachine (interpret rounds program)) (fun _ => .done)
        (Parse.parseProgram_displace source) (fun _ _ => line_of_resolveProgram)
    · exact .inl h
    · exact .inr ⟨hl, hsyntactic, .inl h⟩
    · exact .inr ⟨hl, hsyntactic, .inr ⟨_, _, .run hl hp hres⟩⟩
  · obtain h | ⟨hl, hsyntactic, h | ⟨_, _, _, hp, hres⟩⟩ :=
      attempt_lines (fun e => onMachine (Lox.evaluate rounds e)) .value
        (Parse.parseExpression_displace source) (fun _ _ => line_of_resolveExpression)
    · exact .inl h
    · exact .inr ⟨hl, hsyntactic, .inl h⟩
    · exact .inr ⟨hl, hsyntactic, .inr ⟨_, _, .evaluate hl hp hres⟩⟩

/-! ## Lines in a session -/

/-- Ids up to a bound stand for themselves, and so does a line only if a token is on it. -/
def ownLines (ts : List Token) (bound : Nat) : Likeness where
  ids i j := j = i ∧ i < bound
  lines l l' := l' = l → ∃ u ∈ ts, u.line = l

theorem ownLines_ofIds (ts : List Token) : Likeness.OfIds (ownLines ts) where
  mono hk := ⟨fun _ _ hi => ⟨hi.1, Nat.lt_of_lt_of_le hi.2 hk⟩, fun _ _ hl => hl⟩
  same hi := hi.1

/-- All lines of a tree are those of tokens, so displacing the others leaves it as it is. -/
theorem Begins.ownLines {ts : List Token} (h : Begins r s t s₁) (hts : r.tokens ⊆ ts) :
    t.Alike (ownLines ts s₁.nextId) t := by
  have hself : t.relabel (displace r.tokens) (· + 0) = t := by
    cases h with
    | run _ hp _ =>
      exact congrArg Task.stmts (Parse.tree_of_move_self (Parse.parseProgram_displace _) hp)
    | evaluate _ hp _ =>
      exact congrArg Task.expr (Parse.tree_of_move_self (Parse.parseExpression_displace _) hp)
  have halike : t.Alike (Session.ownLines ts s₁.nextId) (t.relabel (displace r.tokens) (· + 0)) := by
    refine h.alike_relabel (fun l hl => ?_) fun i _ hi => ⟨rfl, hi⟩
    obtain ⟨u, hu, hline⟩ := exists_mem_of_displace hl
    exact ⟨u, hts hu, hline⟩
  rwa [hself] at halike

/-- Every line in a session is that of a token. -/
def Lined (ts : List Token) (s : Session) : Prop := s.SelfAlike (ownLines ts)

theorem lined_afterAll (rounds : Nat) {ts : List Token} {rs : List Request} (hs : s.Lined ts)
    (hrs : ∀ r ∈ rs, r.tokens ⊆ ts) : (s.afterAll rounds rs).Lined ts :=
  SelfAlike.afterAll (ownLines_ofIds ts) hs rounds fun r hr _ _ _ h => h.ownLines (hrs r hr)

/-- An error of a run is on the line of a token. -/
theorem Begins.line_of_failed {ts : List Token} (h : Begins r s t s₁) (hs : s.Lined ts)
    (hts : r.tokens ⊆ ts) {line : Nat} {problem : RuntimeProblem}
    (hfailed : (s.perform rounds r).1 = .failed (.failed (.program line problem))) :
    ∃ u ∈ ts, u.line = line := by
  have halike := (h.alike rounds h (h.ownLines hts)
    (SelfAlike.begins (ownLines_ofIds ts) hs h)).1
  rw [hfailed] at halike
  cases halike with
  | program _ hline => exact hline rfl

theorem one_le_line_of_mem_tokens {r : Request} {u : Token} (h : u ∈ r.tokens) : 1 ≤ u.line := by
  cases r with
  | run source | evaluate source => exact (isLineOf_of_mem_tokens h).1
  | parseProgram source | parseExpression source | readExpression source => cases h

/-! ## Diagnostics -/

/-- Diagnostics are complete, ordered and point into the source. After any history, a
source with lexical or syntax errors is refused with a report of all of them. Every error
for which a source is refused is on one of its lines. And an error that ends a run is on
the line of a token of the source, or of a source that was given earlier. So no error is
ever on line 0. -/
theorem diagnostics_point_into_source (earlier rounds : Nat) (sink : Sink) (clock : Clock)
    (rs : List Request) (source : String) (r : Request) :
    let s := (start sink clock).afterAll earlier rs
    let answer := (s.perform rounds r).1
    (r = .run source ∨ r = .evaluate source) →
    (lexicalErrors source ≠ [] ∨ r.syntaxErrors s.nextId ≠ [] →
      ∃ ds, answer = .failed (.malformed ds) ∧
        Reports (lexicalErrors source) (r.syntaxErrors s.nextId) ds) ∧
    (∀ ds, answer = .failed (.malformed ds) →
      ∀ d ∈ ds, ∃ l, d.line? = some l ∧ IsLineOf source l) ∧
    (∀ errors, answer = .failed (.misscoped errors) →
      ∀ e ∈ errors, IsLineOf source e.token.line) ∧
    (∀ line problem, answer = .failed (.failed (.program line problem)) →
      1 ≤ line ∧ ∃ r' ∈ r :: rs, ∃ u ∈ r'.tokens, u.line = line) := by
  intro s answer hr
  have htokens : r.tokens = tokens source := by obtain rfl | rfl := hr <;> rfl
  have hown : ∀ {line : Nat}, (∃ u ∈ r.tokens, u.line = line) → IsLineOf source line := by
    rintro _ ⟨u, hu, rfl⟩
    exact isLineOf_of_mem_tokens (htokens ▸ hu)
  have hcases := request_cases rounds s hr
  refine ⟨fun hfound => ?_, fun ds h d hd => ?_, fun errors h e he => ?_, fun line problem h => ?_⟩
  · obtain h | ⟨hl, hsyntactic, -⟩ := hcases
    · exact ⟨_, h, reports_sortedByLine _ _⟩
    · exact absurd hfound (not_or.2 ⟨not_not_intro hl, not_not_intro hsyntactic⟩)
  · obtain hm | ⟨-, -, ⟨_, hm, -⟩ | ⟨_, _, hb⟩⟩ := hcases
    · cases hm.symm.trans h
      obtain ⟨e, he, rfl⟩ | ⟨e, he, rfl⟩ := mem_sortedByLine hd
      · exact ⟨e.line, rfl, isLineOf_of_mem_lexicalErrors he⟩
      · exact ⟨e.token.line, rfl, hown (line_of_mem_syntaxErrors he)⟩
    · cases hm.symm.trans h
    · exact absurd (by rw [show (s.perform rounds r).1 = _ from h]; trivial) hb.not_quiet
  · obtain hm | ⟨-, -, ⟨_, hm, hlines⟩ | ⟨_, _, hb⟩⟩ := hcases
    · cases hm.symm.trans h
    · cases hm.symm.trans h
      exact hown (hlines e he)
    · exact absurd (by rw [show (s.perform rounds r).1 = _ from h]; trivial) hb.not_quiet
  · obtain hm | ⟨-, -, ⟨_, hm, -⟩ | ⟨_, _, hb⟩⟩ := hcases
    · cases hm.symm.trans h
    · cases hm.symm.trans h
    · -- the code that runs was read from this source or from an earlier one
      have hgiven : ∀ r' ∈ r :: rs, r'.tokens ⊆ (r :: rs).flatMap Request.tokens :=
        fun r' hr' u hu => List.mem_flatMap.2 ⟨r', hr', hu⟩
      have hlined : s.Lined ((r :: rs).flatMap Request.tokens) :=
        lined_afterAll earlier (alike_start _ sink clock) fun r' hr' => hgiven r' (.tail _ hr')
      obtain ⟨u, hu, rfl⟩ := hb.line_of_failed hlined (hgiven r (.head _)) h
      obtain ⟨r', hr', hu⟩ := List.mem_flatMap.1 hu
      exact ⟨one_le_line_of_mem_tokens hu, r', hr', u, hu, rfl⟩

/-- A function that fails on the second line of its source, called from a source that has
only one line; and a source with errors of both kinds on its second line. -/
theorem diagnostics_point_into_source_second :
    let rs := [Request.run "fun f() \x7b\n-nil; \x7d"]
    let s := (start .unlimited (.ticking 0)).afterAll 0 rs
    (s.perform 0 (.run "f();")).1 = .failed (.failed (.program 2 .operandNotNumber)) ∧
    (∃ r ∈ .run "f();" :: rs, ∃ u ∈ r.tokens, u.line = 2) ∧
    ∃ ds, (s.perform 0 (.run "-;\n@-")).1 = .failed (.malformed ds) ∧
      ds.filter (·.line? = some 2) = [.lexical ⟨2, .unexpectedCharacter '@'⟩,
        .syntactic ⟨⟨.eof, "", 2⟩, .expression⟩] := by
  intro rs s
  let f : Token := ⟨.identifier, "f", 1⟩
  let paren : Token := ⟨.rightParen, ")", 1⟩
  let k : Closure :=
    ⟨⟨f, [], [.expression (.unary ⟨.minus, "-", 2⟩ .nil)]⟩, Heap.globals, false⟩
  let m₀ : Machine := (start .unlimited (.ticking 0)).machine.record ∅
  let i : Nat := m₀.heap.nextIdentity
  let h₀ : Heap := { m₀.heap with nextIdentity := i + 1 }
  let m : Machine :=
    { m₀ with heap := h₀.define Heap.globals "f" (.function i k), flushes := 1 }
  -- the declaration
  have hdeclares : Begins (.run "fun f() \x7b\n-nil; \x7d") (start .unlimited (.ticking 0))
      (.stmts [.function k.declaration]) ⟨m₀, 0⟩ := .run_of_spans (by cbv) (by cbv) rfl
  have hs : s = ⟨m, 0⟩ := congrArg Prod.snd
    (hdeclares.perform_run (show (Task.stmts _).run 0 m₀ = .ok .normal { m with flushes := 0 } from rfl))
  -- the call
  have hcalls : Begins (.run "f();") ⟨m, 0⟩ (.stmts [.expression (.call (.var 0 f) paren [])])
      ⟨m.record ∅, 1⟩ := .run_of_spans (by cbv) (by cbv) rfl
  have hlookup : (m.record ∅).lookup? 0 f.lexeme = some (.function i k) := by
    rw [Machine.lookup?, show (m.record ∅).distances[(0 : Nat)]? = none from rfl]
    show Heap.get? _ Heap.globals "f" = _
    rw [Heap.get?, Heap.chain]
    rfl
  have hfails : Fails 0 (.stmts [.expression (.call (.var 0 f) paren [])]) (m.record ∅)
      (.error (.program 2 .operandNotNumber)) := by
    have hcallee : Lox.evaluate 0 (.var 0 f) (m.record ∅) =
        .ok (.function i k) (m.record ∅) := readVariable_of_some hlookup
    have hcall : Enters 0 (.expr (.call (.var 0 f) paren [])) (m.record ∅)
        (.call paren (.function i k) []) (m.record ∅) := .call hcallee rfl
    have hinvoke : Enters 0 (.call paren (.function i k) []) (m.record ∅)
        (.invoke (.function i k) []) { m.record ∅ with depth := 1 } :=
      .invoke rfl (show 0 < maxCallDepth by decide)
    have hdepth : 1 ≤ maxCallDepth := by decide
    have hinside : Fails 0 (.invoke (.function i k) [])
        { m.record ∅ with depth := 1 } (.error (.program 2 .operandNotNumber)) :=
      .of_enters .function hdepth (.of_enters .body hdepth ⟨_, rfl⟩)
    have htop : (m.record ∅).depth ≤ maxCallDepth := Nat.zero_le _
    exact .of_enters .first htop (.of_enters .expression htop
      (.of_enters hcall htop (.of_enters hinvoke htop hinside)))
  have hanswer : (s.perform 0 (.run "f();")).1 =
      .failed (.failed (.program 2 .operandNotNumber)) := by
    rw [hs]
    exact hcalls.failed_iff.2 hfails
  have hlexical : lexicalErrors "-;\n@-" = [⟨2, .unexpectedCharacter '@'⟩] := by
    rw [lexicalErrors_eq]
    cbv
  have hsyntactic : (Request.run "-;\n@-").syntaxErrors s.nextId =
      [⟨⟨.semicolon, ";", 1⟩, .expression⟩, ⟨⟨.eof, "", 2⟩, .expression⟩] := by
    rw [hs, Request.syntaxErrors, tokens_eq]
    cbv
  refine ⟨hanswer, ?_, ?_⟩
  · exact ((diagnostics_point_into_source 0 0 .unlimited (.ticking 0) rs "f();" (.run "f();")
      (.inl rfl)).2.2.2 _ _ hanswer).2
  · obtain ⟨ds, hds, hreports⟩ := (diagnostics_point_into_source 0 0 .unlimited (.ticking 0) rs
      "-;\n@-" (.run "-;\n@-") (.inl rfl)).1 (.inl (by simp [hlexical]))
    refine ⟨ds, hds, ?_⟩
    rw [hreports.onLine 2, hsyntactic, hlexical]
    rfl

end Session
end Lox
