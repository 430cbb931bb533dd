import Lox.Proofs.Eval.TopLevel
import Lox.Proofs.Parse.Joined
import Lox.Proofs.Scope.Joined
import Lox.Proofs.Session.Traceless

/-
  Joined sources

  A source that is run after another one does what it does below the other one
  in a joined source. In both runs the second program comes to machines that
  are alike: the same ids have the same distances there, and all lines of the
  second source lie further down by the lines of the first
  (`joined_runs_in_turn`).
-/

namespace Lox

open Eval

/-- A fault on another line. -/
def Diagnostic.mapLine (f : Nat → Nat) : Diagnostic → Diagnostic
  | lexical e => lexical (e.mapLine f)
  | syntactic e => syntactic (e.mapLine f)
  | scoping e => scoping (e.mapLine f)
  | runtime (.program line problem) => runtime (.program (f line) problem)
  | runtime (.host problem) => runtime (.host problem)

/-- What differs below a source: ids are the same, and lines may lie further down. -/
def below (source : String) : Likeness where
  ids := Eq
  lines l l' := l' = l ∨ l' = l + lineCount source

/-- The ids up to a bound stand for themselves. -/
def ownIds (bound : Nat) : Likeness where
  ids i j := j = i ∧ i < bound
  lines := Eq

theorem ownIds_le {k n : Nat} (h : k ≤ n) : (ownIds k).Le (ownIds n) :=
  ⟨fun _ _ hi => ⟨hi.1, Nat.lt_of_lt_of_le hi.2 h⟩, fun _ _ hl => hl⟩

theorem ownIds_ofIds : Likeness.OfIds ownIds where
  mono := ownIds_le
  same hi := hi.1

theorem ownIds_le_below (k : Nat) (source : String) : (ownIds k).Le (below source) :=
  ⟨fun _ _ hi => hi.1.symm, fun _ _ hl => .inl hl.symm⟩

theorem Task.Alike.program {L : Likeness} {ss ss' : List Stmt}
    (h : (Task.stmts ss).Alike L (.stmts ss')) : Stmt.AllAlike L ss ss' := by
  cases h with
  | stmts hs => exact hs

theorem Task.relabel_self (t : Task) : t.relabel (fun l => l) (fun i => i) = t := by
  cases t with
  | expr e => exact congrArg Task.expr e.relabel_self
  | stmts ss => exact congrArg Task.stmts (Stmt.relabelAll_self ss)
  | _ => rfl

namespace Session

/-! ## Errors further down -/

theorem sortedByLine_mapLine (d : Nat) (lexical : List LexicalError)
    (syntactic : List SyntaxError) :
    sortedByLine (lexical.map (·.mapLine (· + d))) (syntactic.map (·.mapLine (· + d))) =
      (sortedByLine lexical syntactic).map (·.mapLine (· + d)) := by
  have hline : ∀ e ∈ lexical.map Diagnostic.lexical ++ syntactic.map Diagnostic.syntactic,
      ∃ line, e.line? = some line ∧ (e.mapLine (· + d)).line? = some (line + d) := by
    simp only [List.mem_append, List.mem_map]
    rintro _ (⟨e, _, rfl⟩ | ⟨e, _, rfl⟩) <;> exact ⟨_, rfl, rfl⟩
  rw [sortedByLine, sortedByLine, List.map_mergeSort (s := fun a b => a.line?.getD 0 ≤ b.line?.getD 0)]
  · simp only [List.map_append, List.map_map]
    rfl
  · intro a ha b hb
    obtain ⟨i, hi, hi'⟩ := hline a ha
    obtain ⟨j, hj, hj'⟩ := hline b hb
    simp [hi, hi', hj, hj']

/-! ## What a request leaves -/

variable {rounds : Nat} {r : Request} {s s₁ : Session} {t : Task}

/-- Nothing in a session mentions an id that was not given out. -/
def Closed (s : Session) : Prop := s.machine.Alike (ownIds s.nextId) s.machine

theorem Begins.own (h : Begins r s t s₁) : t.Alike (ownIds s₁.nextId) t := by
  have halike : t.Alike (ownIds s₁.nextId) (t.relabel (fun l => l) fun i => i) :=
    h.alike_relabel (fun _ => rfl) fun i _ hi => ⟨rfl, hi⟩
  rwa [t.relabel_self] at halike

theorem closed_afterAll (rounds : Nat) (rs : List Request) (hs : s.Closed) :
    (s.afterAll rounds rs).Closed :=
  SelfAlike.afterAll ownIds_ofIds hs rounds fun _ _ _ _ _ h => h.own

/-- What was printed before a request stays printed. -/
theorem printed_perform (rounds : Nat) (s : Session) (r : Request) :
    ∃ out, (s.perform rounds r).2.machine.sink.written = s.machine.sink.written ++ out := by
  have hprefix : s.machine.sink.written.toList <+:
      (s.perform rounds r).2.machine.sink.written.toList := by
    obtain ⟨t, s₁, h⟩ | ⟨a, k, h, -, -⟩ := perform_cases rounds s r
    · obtain ⟨-, -, -, hrecord⟩ := h.recorded
      have hsink : s₁.machine.sink = s.machine.sink := by rw [hrecord]; rfl
      rw [h.session_eq, ← hsink]
      exact (t.steady_run rounds _).printed
    · rw [h]
  obtain ⟨out, hout⟩ := hprefix
  exact ⟨.ofList out, String.toList_injective (by simp [hout])⟩

/-! ## The first source -/

/-- A source that is run to its end. -/
theorem ran_of_done {source : String} (h : (s.perform rounds (.run source)).1 = .done) :
    ∃ program ds k m, lexicalErrors source = [] ∧
      Parse.parseProgram (tokens source) s.nextId = ⟨.ok program, k⟩ ∧
      resolveProgram program = .ok ds ∧
      (Task.stmts program).run rounds (s.machine.record ds) = .ok .normal m ∧
      (s.perform rounds (.run source)).2 = ⟨m.flushed, k⟩ := by
  obtain ⟨t, s₁, hb⟩ | ⟨a, k, hs, -, ha⟩ := perform_cases rounds s (.run source)
  · cases hb with
    | @run _ _ program k ds hl hp hr =>
      have hb : Begins (.run source) s (.stmts program) ⟨s.machine.record ds, k⟩ := .run hl hp hr
      cases hrun : (Task.stmts program).run rounds (s.machine.record ds) with
      | error e m =>
        rw [hb.perform_of_error hrun] at h
        cases e <;> cases h
      | ok flow m =>
        -- nothing returns at the top level of an accepted program
        obtain rfl : flow = .normal :=
          Stmt.normal_execAll program .start rfl (Resolution.of_result hr).1 _ _ _ hrun
        exact ⟨program, ds, k, m, hl, hp, hr, hrun, by rw [hb.perform_run hrun]⟩
  · rw [hs] at h
    obtain rfl : a = .done := h
    exact absurd ha id

section Below

variable {first second : String} {program₁ : List Stmt} {ds₁ : Distances} {k : Nat}
  {m₁ : Machine} (hl : lexicalErrors first = [])
  (hp : Parse.parseProgram (tokens first) s.nextId = ⟨.ok program₁, k⟩)
  (helse : ∀ t ∈ (tokens second).head?, t.kind ≠ .elseWord)

/-! ## The second source is refused -/

include hl hp helse

theorem parse_joined {errors : List Diagnostic} {s₂ : Session}
    (h : parse Parse.parseProgram second ⟨m₁.flushed, k⟩ = .error (.error (.malformed errors)) s₂) :
    parse Parse.parseProgram (joined first second) s =
      .error (.error (.malformed (errors.map (·.mapLine (· + lineCount first)))))
        { s with nextId := s₂.nextId } := by
  rw [parse] at h ⊢
  rw [Parse.parseProgram_joined hl hp helse, lexicalErrors_joined hl]
  dsimp only at h ⊢
  -- all that counts is the outcome of the second source
  generalize Parse.parseProgram (tokens second) k = outcome at h ⊢
  obtain ⟨result, i⟩ := outcome
  cases result with
  | ok program₂ =>
    cases hempty : (lexicalErrors second).isEmpty with
    | true =>
      simp only [hempty, if_true] at h
      cases h
    | false =>
      simp only [hempty, Bool.false_eq_true, if_false] at h
      cases h
      rw [← sortedByLine_mapLine]
      simp only [Parse.Outcome.move, Except.map, Except.mapError, List.isEmpty_map, hempty,
        Bool.false_eq_true, if_false, List.map_nil, Nat.add_zero]
  | error errors₂ =>
    cases h
    rw [← sortedByLine_mapLine]
    rfl

/-- Lexical and syntax errors of the second source are those of the joined one. -/
theorem malformed_joined {errors : List Diagnostic}
    (h : ((⟨m₁.flushed, k⟩ : Session).perform rounds (.run second)).1 = .failed (.malformed errors)) :
    s.perform rounds (.run (joined first second)) =
      (.failed (.malformed (errors.map (·.mapLine (· + lineCount first)))),
        { s with nextId := ((⟨m₁.flushed, k⟩ : Session).perform rounds (.run second)).2.nextId }) := by
  obtain ⟨errors', s₂, -, hparse, hrun⟩ | ⟨_, _, _, _, _, _, hrun⟩ | ⟨_, _, _, hb⟩ :=
    run_cases rounds ⟨m₁.flushed, k⟩ second
  · rw [hrun] at h ⊢
    cases h
    exact perform_of_malformed (parse_joined hl hp helse hparse)
  · rw [hrun] at h
    cases h
  · exact absurd (by rw [h]; trivial) hb.not_quiet

/-- Broken rules of the second source are those of the joined one. -/
theorem misscoped_joined (hr : resolveProgram program₁ = .ok ds₁) {errors : List ScopeError}
    (h : ((⟨m₁.flushed, k⟩ : Session).perform rounds (.run second)).1 = .failed (.misscoped errors)) :
    s.perform rounds (.run (joined first second)) =
      (.failed (.misscoped (errors.map (·.mapLine (· + lineCount first)))),
        { s with nextId := ((⟨m₁.flushed, k⟩ : Session).perform rounds (.run second)).2.nextId }) := by
  obtain ⟨_, _, _, _, hrun⟩ | ⟨program₂, j, errors', hl₂, hp₂, hr₂, hrun⟩ | ⟨_, _, _, hb⟩ :=
    run_cases rounds ⟨m₁.flushed, k⟩ second
  · rw [hrun] at h
    cases h
  · rw [hrun] at h ⊢
    cases h
    refine perform_of_misscoped ?_ ?_ (resolveProgram_append_of_error (· + lineCount first) hr hr₂)
    · rw [lexicalErrors_joined hl, hl₂]
      rfl
    · rw [Parse.parseProgram_joined hl hp helse, hp₂]
      rfl
  · exact absurd (by rw [h]; trivial) hb.not_quiet

/-! ## The second source is run -/

variable {program₂ : List Stmt} {ds₂ : Distances} {j : Nat} (hl₂ : lexicalErrors second = [])
  (hp₂ : Parse.parseProgram (tokens second) k = ⟨.ok program₂, j⟩)
  (hr : resolveProgram program₁ = .ok ds₁) (hr₂ : resolveProgram program₂ = .ok ds₂)
include hl₂ hp₂ hr hr₂

/-- A joined source begins with the first program and goes on with the second one. -/
theorem begins_joined :
    ∃ ds, Begins (.run (joined first second)) s
        (.stmts (program₁ ++ Stmt.relabelAll (· + lineCount first) (· + 0) program₂))
        ⟨s.machine.record ds, j⟩ ∧
      ∀ id : Nat, ds[id]? = (ds₂[id]?).or ds₁[id]? := by
  obtain ⟨ds, hds, hlookup⟩ := resolveProgram_append_of_ok (· + lineCount first) hr hr₂
  refine ⟨ds, .run ?_ ?_ hds, hlookup⟩
  · rw [lexicalErrors_joined hl, hl₂]
    rfl
  · rw [Parse.parseProgram_joined hl hp helse, hp₂]
    rfl

/-- The first program, in front of the second one, comes to a machine that is like the one
that the second program is run on by itself. -/
theorem first_joined (hs : s.Closed)
    (hrun : (Task.stmts program₁).run rounds (s.machine.record ds₁) = .ok .normal m₁) :
    ∃ ds n, Begins (.run (joined first second)) s
        (.stmts (program₁ ++ Stmt.relabelAll (· + lineCount first) (· + 0) program₂))
        ⟨s.machine.record ds, j⟩ ∧
      (Task.stmts program₁).run rounds (s.machine.record ds) = .ok .normal n ∧
      (m₁.flushed.record ds₂).Alike (below first) n := by
  obtain ⟨ds, hb, hlookup⟩ := begins_joined hl hp helse hl₂ hp₂ hr hr₂
  have hb₁ : Begins (.run first) s (.stmts program₁) ⟨s.machine.record ds₁, k⟩ := .run hl hp hr
  have hb₂ : Begins (.run second) ⟨m₁.flushed, k⟩ (.stmts program₂) ⟨m₁.flushed.record ds₂, j⟩ :=
    .run hl₂ hp₂ hr₂
  -- the first program leaves the distances as they are
  have hdistances : m₁.flushed.distances = (s.machine.record ds₁).distances :=
    (((Task.stmts program₁).steady_run rounds).of_ok hrun).distances
  have hsame : ∀ id : Nat,
      (s.machine.record ds).distances[id]? = (m₁.flushed.record ds₂).distances[id]? := by
    intro id
    rw [Machine.getElem?_record, Machine.getElem?_record, hlookup, hdistances,
      Machine.getElem?_record, Option.or_assoc]
  -- it knows nothing of the ids of the second one
  have hbefore : (s.machine.record ds₁).Alike (ownIds k) (s.machine.record ds) := by
    refine Machine.Alike.withDistances hs (ownIds_le hb₁.nextId_le) ?_
    rintro _ i ⟨rfl, hi⟩
    calc (s.machine.record ds).distances[i]?
        = (m₁.flushed.record ds₂).distances[i]? := hsame i
      _ = m₁.flushed.distances[i]? := hb₂.distances_old hi
      _ = (s.machine.record ds₁).distances[i]? := by rw [hdistances]
  obtain ⟨_, n, hn, hflow, halike⟩ :=
    (hb₁.own.program.execAll (bodiesAlike_runBody rounds callLevels)).of_ok hbefore hrun
  cases hflow
  have hdistances' : n.distances = (s.machine.record ds).distances :=
    (((Task.stmts program₁).steady_run rounds).of_ok hn).distances
  have hflushed : m₁.flushed.Alike (ownIds k) n := { halike with sink := halike.sink }
  refine ⟨ds, n, hb, hn, hflushed.withDistances (ownIds_le_below k first) ?_⟩
  rintro i _ rfl
  rw [hdistances']
  exact hsame i

/-- The second program comes to machines that are alike, and does the same on both. -/
theorem run_joined (hs : s.Closed)
    (hrun : (Task.stmts program₁).run rounds (s.machine.record ds₁) = .ok .normal m₁) :
    let apart := (⟨m₁.flushed, k⟩ : Session).perform rounds (.run second)
    let together := s.perform rounds (.run (joined first second))
    apart.1.Alike (below first) together.1 ∧
      apart.2.machine.Alike (below first) together.2.machine ∧
      together.2.nextId = apart.2.nextId := by
  obtain ⟨ds, n, hb, hn, hbetween⟩ := first_joined hl hp helse hl₂ hp₂ hr hr₂ hs hrun
  have hb₂ : Begins (.run second) ⟨m₁.flushed, k⟩ (.stmts program₂) ⟨m₁.flushed.record ds₂, j⟩ :=
    .run hl₂ hp₂ hr₂
  have hprogram : (Task.stmts program₂).Alike (below first)
      ((Task.stmts program₂).relabel (· + lineCount first) (· + 0)) :=
    hb₂.alike_relabel (fun _ => .inr rfl) fun _ _ _ => rfl
  have hgoes := interpret_append_of_normal
    (Stmt.relabelAll (· + lineCount first) (· + 0) program₂) hn
  have hends := hprogram.program.interpret rounds _ _ hbetween
  have happart : (⟨m₁.flushed, k⟩ : Session).perform rounds (.run second) =
      conclude (fun _ => .done) (onMachine (interpret rounds program₂) ⟨m₁.flushed.record ds₂, j⟩) := by
    rw [perform, run_of_begins hb₂]
  have htogether : s.perform rounds (.run (joined first second)) =
      conclude (fun _ => .done) (onMachine
        (interpret rounds (Stmt.relabelAll (· + lineCount first) (· + 0) program₂)) ⟨n, j⟩) := by
    rw [perform, run_of_begins hb, onMachine, onMachine, hgoes]
  refine and_assoc.1 ⟨?_, ?_⟩
  · rw [happart, htogether]
    exact conclude_alike hends fun _ _ _ => .done
  · rw [hb.session_eq, hb₂.session_eq]

end Below

/-! ## Both sources -/

/-- A source that is run after another one does what it does below it. If it is run, the
joined source ends as it does, prints what both print, one after the other, and leaves
machines that are alike, with the lines of the second source further down. If it is
refused, so is the joined source, with the same errors further down, and nothing is
printed or changed. -/
theorem joined_runs_in_turn (earlier rounds : Nat) (sink : Sink) (clock : Clock)
    (rs : List Request) (first second : String) :
    let s := (start sink clock).afterAll earlier rs
    let before := s.perform rounds (.run first)
    let apart := before.2.perform rounds (.run second)
    let together := s.perform rounds (.run (joined first second))
    before.1 = .done → (∀ t ∈ (tokens second).head?, t.kind ≠ .elseWord) →
    (¬apart.1.Refused → apart.1.Alike (below first) together.1 ∧
      apart.2.machine.Alike (below first) together.2.machine ∧
      together.2.nextId = apart.2.nextId ∧
      ∃ out₁ out₂, before.2.machine.sink.written = s.machine.sink.written ++ out₁ ∧
        apart.2.machine.sink.written = before.2.machine.sink.written ++ out₂ ∧
        together.2.machine.sink.written = s.machine.sink.written ++ (out₁ ++ out₂)) ∧
    (∀ errors, apart.1 = .failed (.malformed errors) →
      together = (.failed (.malformed (errors.map (·.mapLine (· + lineCount first)))),
        { s with nextId := apart.2.nextId })) ∧
    (∀ errors, apart.1 = .failed (.misscoped errors) →
      together = (.failed (.misscoped (errors.map (·.mapLine (· + lineCount first)))),
        { s with nextId := apart.2.nextId })) := by
  intro s before apart together hdone helse
  have hs : s.Closed := closed_afterAll earlier rs (alike_start _ sink clock)
  obtain ⟨out₁, hout₁⟩ := printed_perform rounds s (.run first)
  obtain ⟨out₂, hout₂⟩ := printed_perform rounds before.2 (.run second)
  obtain ⟨program₁, ds₁, k, m₁, hl, hp, hr, hrun, hafter⟩ := ran_of_done hdone
  have hbefore : before.2 = ⟨m₁.flushed, k⟩ := hafter
  have hapart : apart = (⟨m₁.flushed, k⟩ : Session).perform rounds (.run second) := by
    rw [← hbefore]
  refine ⟨fun hran => ?_, fun errors h => ?_, fun errors h => ?_⟩
  · obtain ⟨_, _, -, -, hrefused⟩ | ⟨_, _, _, -, -, -, hrefused⟩ | ⟨program₂, j, ds₂, hb₂⟩ :=
      run_cases rounds ⟨m₁.flushed, k⟩ second
    · exact absurd (by rw [hapart, hrefused]; trivial) hran
    · exact absurd (by rw [hapart, hrefused]; trivial) hran
    · generalize (⟨_, j⟩ : Session) = s₂ at hb₂
      cases hb₂ with
      | run hl₂ hp₂ hr₂ =>
        obtain ⟨hanswer, hmachine, hid⟩ := run_joined hl hp helse hl₂ hp₂ hr hr₂ hs hrun
        rw [← hapart] at hanswer hmachine hid
        refine ⟨hanswer, hmachine, hid, out₁, out₂, hout₁, hout₂, ?_⟩
        calc together.2.machine.sink.written
            = apart.2.machine.sink.written := congrArg Sink.written hmachine.sink
          _ = before.2.machine.sink.written ++ out₂ := hout₂
          _ = s.machine.sink.written ++ (out₁ ++ out₂) := by rw [hout₁, String.append_assoc]
  · rw [hapart] at h ⊢
    exact malformed_joined hl hp helse h
  · rw [hapart] at h ⊢
    exact misscoped_joined hl hp helse hr h

/-- A variable that is negated on the line below its declaration. -/
theorem joined_runs_in_turn_negation :
    let s := start .unlimited (.ticking 0)
    let before := s.perform 0 (.run "var a;")
    let apart := before.2.perform 0 (.run "-a;")
    before.1 = .done ∧ (∀ t ∈ (tokens "-a;").head?, t.kind ≠ .elseWord) ∧ ¬apart.1.Refused ∧
      apart.1.Alike (below "var a;") (s.perform 0 (.run (joined "var a;" "-a;"))).1 := by
  intro s before apart
  have hb₁ : Begins (.run "var a;") s (.stmts [.varDecl ⟨.identifier, "a", 1⟩ none])
      ⟨s.machine.record ∅, 0⟩ := .run_of_spans (by cbv) (by cbv) rfl
  have hdone : before.1 = .done := congrArg Prod.fst (hb₁.perform_run rfl)
  have hnext : before.2.nextId = 0 := congrArg (·.2.nextId) (hb₁.perform_run rfl)
  have hparse : Parse.parseProgram (tokens "-a;") 0 =
      ⟨.ok [.expression (.unary ⟨.minus, "-", 1⟩ (.var 0 ⟨.identifier, "a", 1⟩))], 1⟩ := by
    rw [tokens_eq]
    cbv
  rw [← hnext] at hparse
  have hb₂ := Begins.run (s := before.2) (by rw [lexicalErrors_eq]; cbv) hparse rfl
  have helse : ∀ t ∈ (tokens "-a;").head?, t.kind ≠ .elseWord := by
    have htokens : (tokens "-a;").head? = some ⟨.minus, "-", 1⟩ := by
      rw [tokens_eq]
      cbv
    intro t ht
    rw [htokens] at ht
    cases ht
    intro hkind
    cases hkind
  have hran : ¬apart.1.Refused := fun h => hb₂.not_quiet (Answer.quiet_of_refused h)
  exact ⟨hdone, helse, hran,
    ((joined_runs_in_turn 0 0 .unlimited (.ticking 0) [] "var a;" "-a;" hdone helse).1 hran).1⟩

end Session

end Lox
