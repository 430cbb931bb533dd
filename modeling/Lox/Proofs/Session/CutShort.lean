import Lox.Proofs.Eval.Prints
import Lox.Proofs.Session.Discipline

/-
  Requests that run into a full sink

  A request prints the same into every sink, and is answered and ends the same,
  while the sink takes what it prints. If the sink fails, so does the request at that
  point, and the session is back in the frame and at the depth that it was in. The sink is
  asked to flush when a program has ended without an error, once, and at no other time
  (`full_sink_cuts_short`).
-/

namespace Lox

/-- What is answered if flushing fails or does not. Only programs that went through
are flushed. -/
def Answer.flushed (fails : Bool) : Answer → Answer
  | .done => if fails then .failed (.failed (.host .flushFailed)) else .done
  | a => a

/-- What a sink takes is no matter of flushing. -/
theorem Sink.write_withFlush (sink : Sink) (fails : Bool) (text : String) :
    ({ sink with flushFails := fails } : Sink).write text =
      ((sink.write text).1, { (sink.write text).2 with flushFails := fails }) := by
  rw [Sink.write, Sink.write]
  cases sink.newlinesLeft <;> rfl

theorem Sink.flushFails_write (sink : Sink) (text : String) :
    (sink.write text).2.flushFails = sink.flushFails :=
  congrArg (·.2.flushFails) (sink.write_withFlush sink.flushFails text)

namespace Session

open Eval

/-- The session with another sink. -/
def withSink (s : Session) (sink : Sink) : Session :=
  { s with machine := { s.machine with sink } }

/-- Between requests a session is in the global frame, outside all calls. -/
def AtRest (s : Session) : Prop := s.machine.frame = Heap.globals ∧ s.machine.depth = 0

/-- `s.Prints rounds r text a s₁`: in the session `s` the request prints the text, is
answered with `a` if what it printed is flushed, and leaves `s₁`, unless the sink fails
at the text. -/
structure Prints (rounds : Nat) (s : Session) (r : Request) (text : String) (a : Answer)
    (s₁ : Session) : Prop where
  taken : ∀ sink : Sink, (sink.write text).1 = true →
    (s.withSink sink).perform rounds r =
      (a.flushed sink.flushFails, s₁.withSink (sink.write text).2)
  failed : ∀ sink : Sink, (sink.write text).1 = false →
    ∃ s', (s.withSink sink).perform rounds r = (.failed (.failed (.host .sinkFull)), s') ∧
      s'.machine.sink = (sink.write text).2 ∧ s'.nextId = s₁.nextId

/-! ## Requests that print nothing -/

section Silent

variable {α : Type} {s : Session} {a : Answer}

/-- The end of a step, with another sink. -/
def onSink (sink : Sink) :
    EStateM.Result (Halt RunError) Session α → EStateM.Result (Halt RunError) Session α
  | .ok a s => .ok a (s.withSink sink)
  | .error e s => .error e (s.withSink sink)

theorem conclude_onSink (answer : α → Answer) (sink : Sink)
    (x : EStateM.Result (Halt RunError) Session α) :
    conclude answer (onSink sink x) =
      ((conclude answer x).1, (conclude answer x).2.withSink sink) := by
  cases x with
  | ok a s => rfl
  | error e s => cases e <;> rfl

theorem parse_withSink (rule : List Token → Nat → Parse.Outcome α) (source : String)
    (s : Session) (sink : Sink) :
    parse rule source (s.withSink sink) = onSink sink (parse rule source s) := by
  rw [parse, parse]
  simp only [withSink]
  cases (rule (tokens source) s.nextId).result with
  | ok tree =>
    dsimp only
    split <;> rfl
  | error errors => rfl

/-- A source that is refused before anything is evaluated. -/
theorem refused_withSink {β : Type} (rule : List Token → Nat → Parse.Outcome α)
    (resolve : α → Except (List ScopeError) Distances) (step : α → Eval β) {source : String}
    (h : ∀ tree k ds, lexicalErrors source = [] → rule (tokens source) s.nextId = ⟨.ok tree, k⟩ →
      resolve tree ≠ .ok ds) (sink : Sink) :
    (parse rule source >>= fun tree => record (resolve tree) >>= fun _ => onMachine (step tree))
        (s.withSink sink) =
      onSink sink ((parse rule source >>= fun tree =>
        record (resolve tree) >>= fun _ => onMachine (step tree)) s) := by
  have hs := parse_withSink rule source s sink
  obtain ⟨tree, k, hl, hp⟩ | ⟨errors, he⟩ := parse_cases rule source s
  · rw [parse_of_ok hl hp] at hs
    rw [bind_of_ok' hs, bind_of_ok' (parse_of_ok hl hp)]
    cases hr : resolve tree with
    | ok ds => exact absurd hr (h tree k ds hl hp)
    | error errors => rfl
  · rw [he] at hs
    rw [bind_of_error' hs, bind_of_error' he]
    rfl

/-- A request that is refused or only parses does not look at the sink. -/
theorem perform_withSink {rounds : Nat} {r : Request} (h : ∀ t s₁, ¬Begins r s t s₁)
    (sink : Sink) : (s.withSink sink).perform rounds r =
      ((s.perform rounds r).1, (s.perform rounds r).2.withSink sink) := by
  cases r with
  | run source =>
    have hrun : run rounds source (s.withSink sink) = onSink sink (run rounds source s) :=
      refused_withSink Parse.parseProgram resolveProgram (interpret rounds)
        (fun _ _ _ hl hp hr => h _ _ (.run hl hp hr)) sink
    rw [perform, hrun, conclude_onSink]
    rfl
  | evaluate source =>
    have hrun : evaluate rounds source (s.withSink sink) = onSink sink (evaluate rounds source s) :=
      refused_withSink Parse.parseExpression resolveExpression (Lox.evaluate rounds)
        (fun _ _ _ hl hp hr => h _ _ (.evaluate hl hp hr)) sink
    rw [perform, hrun, conclude_onSink]
    rfl
  | parseProgram source =>
    rw [perform, parseProgram, parse_withSink, conclude_onSink]
    rfl
  | parseExpression source =>
    rw [perform, parseExpression, parse_withSink, conclude_onSink]
    rfl
  | readExpression source =>
    have hread : readExpression source (s.withSink sink) = onSink sink (readExpression source s) := by
      rw [readExpression, readExpression]
      simp only [withSink]
      cases Form.read source s.nextId <;> rfl
    rw [perform, hread, conclude_onSink]
    rfl

end Silent

/-! ## All requests -/

variable {rounds : Nat} {r : Request} {s s₁ : Session} {t : Task}

/-- A program goes through without an answer but that it is done. -/
theorem Answer.flushed_of_quiet {a : Answer} (ha : a.Quiet) (fails : Bool) :
    a.flushed fails = a := by
  cases a with
  | done => exact ha.elim
  | _ => rfl

/-- An evaluation begins the same with every sink. -/
theorem Begins.withSink (h : Begins r s t s₁) (sink : Sink) :
    Begins r (s.withSink sink) t (s₁.withSink sink) := by
  cases h with
  | run hl hp hr => exact .run hl hp hr
  | evaluate hl hp hr => exact .evaluate hl hp hr

theorem Begins.prints_of_error (h : Begins r s t s₁) {text : String} {e : Halt RuntimeError}
    {m : Machine} (hr : (t.run rounds).Prints s₁.machine text (.error e m)) :
    s.Prints rounds r text (halted e) { s₁ with machine := m } := by
  refine ⟨fun sink htaken => ?_, fun sink hcut => ?_⟩
  · rw [(h.withSink sink).perform_of_error (hr.taken sink htaken)]
    cases e <;> rfl
  · obtain ⟨m', hm', hsink⟩ := hr.failed sink hcut
    exact ⟨_, (h.withSink sink).perform_of_error hm', hsink, rfl⟩

/-- A request that begins an evaluation prints what that prints. -/
theorem Begins.prints (h : Begins r s t s₁) :
    ∃ text a s₂, s.Prints rounds r text a s₂ := by
  obtain ⟨text, result, hr⟩ := printing.run rounds t s₁.machine
  cases result with
  | error e m => exact ⟨text, _, _, h.prints_of_error hr⟩
  | ok a m =>
    have hfailed : ∀ sink : Sink, (sink.write text).1 = false →
        ∃ s', (s.withSink sink).perform rounds r = (.failed (.failed (.host .sinkFull)), s') ∧
          s'.machine.sink = (sink.write text).2 ∧ s'.nextId = s₁.nextId := by
      intro sink hcut
      obtain ⟨m', hm', hsink⟩ := hr.failed sink hcut
      exact ⟨_, (h.withSink sink).perform_of_error hm', hsink, rfl⟩
    cases h with
    | run hl hp hres =>
      refine ⟨text, .done, ⟨m.flushed, _⟩, fun sink htaken => ?_, hfailed⟩
      -- a run flushes the sink at its end, and writing does not change whether that fails
      have hbegins := (Begins.run hl hp hres).withSink sink
      rw [hbegins.perform_run (hr.taken sink htaken)]
      show (if (sink.write text).2.flushFails = true then _ else _, _) = _
      rw [Sink.flushFails_write]
      rfl
    | evaluate hl hp hres =>
      refine ⟨text, .value a, ⟨m, _⟩, fun sink htaken => ?_, hfailed⟩
      exact ((Begins.evaluate hl hp hres).withSink sink).perform_evaluate (hr.taken sink htaken)

/-- Every request prints into every sink alike. -/
theorem prints_perform (rounds : Nat) (s : Session) (r : Request) :
    ∃ text a s₁, s.Prints rounds r text a s₁ := by
  obtain ⟨t, s₁, h⟩ | ⟨a, k, h, -, ha⟩ := perform_cases rounds s r
  · exact h.prints
  · have hquiet : (s.perform rounds r).1.Quiet := by
      rw [h]
      exact ha
    have hnone : ∀ t s₁, ¬Begins r s t s₁ := fun t s₁ hb => hb.not_quiet hquiet
    refine ⟨"", a, { s with nextId := k }, fun sink _ => ?_, fun sink hcut => ?_⟩
    · rw [perform_withSink hnone, h, Sink.write_empty, Answer.flushed_of_quiet ha]
    · rw [Sink.write_empty] at hcut
      cases hcut

/-! ## Flushing -/

/-- `s.Completes rounds r m`: the request runs a program, which ends without an error and
leaves the machine `m`. -/
def Completes (rounds : Nat) (s : Session) (r : Request) (m : Machine) : Prop :=
  ∃ program s₁ flow, Begins r s (.stmts program) s₁ ∧
    (Task.stmts program).run rounds s₁.machine = .ok flow m

theorem Begins.flushes_eq (h : Begins r s t s₁) : s₁.machine.flushes = s.machine.flushes := by
  cases h <;> rfl

/-- While a request is evaluated, nothing is flushed. -/
theorem flushes_of_comes {n : Nat} {m : Machine} (h : Comes rounds r s n t m) :
    m.flushes = s.machine.flushes := by
  obtain ⟨t₀, s₀, hb, hreach⟩ := h
  exact hreach.sameRecords.flushes.trans hb.flushes_eq

/-- After a program that ended without an error the sink is asked to flush. -/
theorem Completes.perform_eq {m : Machine} (h : s.Completes rounds r m) :
    m.flushes = s.machine.flushes ∧ (s.perform rounds r).2.machine = m.flushed ∧
      (s.perform rounds r).1 =
        if m.sink.flushFails = true then .failed (.failed (.host .flushFailed)) else .done := by
  obtain ⟨program, s₁, flow, hb, hrun⟩ := h
  have hkept := ((Task.stmts program).steady_run rounds).of_ok hrun
  refine ⟨hkept.flushes.trans hb.flushes_eq, ?_⟩
  cases hb with
  | run hl hp hr =>
    rw [(Begins.run hl hp hr).perform_run hrun]
    exact ⟨rfl, rfl⟩

/-- After any other request it is not. -/
theorem flushes_of_not_completes (h : ∀ m, ¬s.Completes rounds r m) :
    (s.perform rounds r).2.machine.flushes = s.machine.flushes := by
  obtain ⟨t, s₁, hb⟩ | ⟨a, k, hs, -⟩ := perform_cases rounds s r
  · cases hrun : t.run rounds s₁.machine with
    | error e m =>
      rw [hb.perform_of_error hrun]
      exact ((t.steady_run rounds).of_error hrun).flushes.trans hb.flushes_eq
    | ok a m =>
      cases hb with
      | run hl hp hr => exact absurd ⟨_, _, a, .run hl hp hr, hrun⟩ (h m)
      | evaluate hl hp hr =>
        rw [(Begins.evaluate hl hp hr).perform_evaluate hrun]
        exact ((Task.steady_run rounds _).of_ok hrun).flushes
  · rw [hs]

/-- A request that ran into a full sink did not come to flush it. -/
theorem flushes_of_sinkFull (h : (s.perform rounds r).1 = .failed (.failed (.host .sinkFull))) :
    (s.perform rounds r).2.machine.flushes = s.machine.flushes := by
  apply flushes_of_not_completes
  intro m hm
  rw [hm.perform_eq.2.2] at h
  split at h <;> cases h

/-! ## Sinks that fill up -/

/-- `s.CutShort full front s'`: of a request that would leave `full` the sink has taken
the front only, and is full; `s'` is left. It can be used on, for all that prints
nothing. -/
structure CutShort (s full : Session) (sink : Sink) (s' : Session) : Prop where
  printed : s'.machine.sink = sink
  /-- So it is at rest if `s` was. -/
  place : s.machine.SamePlace s'.machine
  nextId : s'.nextId = full.nextId
  unflushed : s'.machine.flushes = s.machine.flushes
  usable : ∀ rounds r, let next := (s'.withSink ⟨"", none, sink.flushFails⟩).perform rounds r
    next.2.machine.sink.written = "" → s'.perform rounds r = (next.1, next.2.withSink sink)

theorem Prints.of_unlimited {text : String} {a : Answer} (h : s.Prints rounds r text a s₁)
    (w : String) (flushFails : Bool) :
    (s.withSink ⟨w, none, flushFails⟩).perform rounds r =
      (a.flushed flushFails, s₁.withSink ⟨w ++ text, none, flushFails⟩) := by
  have hw := Sink.write_of_unlimited ⟨w, none, flushFails⟩ text rfl
  rw [h.taken _ (by rw [hw]), hw]

/-- Requests that would print nothing do not notice that the sink is full. -/
theorem perform_of_silent (rounds : Nat) (s : Session) (r : Request) :
    let next := (s.withSink ⟨"", none, s.machine.sink.flushFails⟩).perform rounds r
    next.2.machine.sink.written = "" →
      s.perform rounds r = (next.1, next.2.withSink s.machine.sink) := by
  intro next hsilent
  obtain ⟨text, a, s₁, h⟩ := prints_perform rounds s r
  have hnext : next = _ := h.of_unlimited "" s.machine.sink.flushFails
  rw [hnext] at hsilent ⊢
  obtain rfl : text = "" := by simpa [withSink] using hsilent
  have hperform := h.taken s.machine.sink (by rw [Sink.write_empty])
  rw [Sink.write_empty] at hperform
  exact hperform

/-- A sink with room for `k` newlines. If nothing comes after the `k`-th newline of what
a request prints, it is answered as with a sink that takes everything and leaves the same
session. Otherwise what is printed ends with that newline, the request fails with a fault
of the host, and the session is where it was and can be used on. The sink is asked to flush
once after a program that has ended without an error, not while it is evaluated and not by
any other request, and whether it fails makes a difference only then. -/
theorem full_sink_cuts_short (rounds : Nat) (s : Session) (r : Request) :
    (∀ (w : String) (flushFails : Bool) (k : Nat),
      let full := (s.withSink ⟨w, none, flushFails⟩).perform rounds r
      let limited := (s.withSink ⟨w, some k, flushFails⟩).perform rounds r
      ∃ text : String, full.2.machine.sink = ⟨w ++ text, none, flushFails⟩ ∧
        ((¬∃ front, Sink.Cut k text.toList front) → limited = (full.1,
          full.2.withSink ⟨w ++ text, some (k - newlines text.toList), flushFails⟩)) ∧
        ∀ front, Sink.Cut k text.toList front →
          limited.1 = .failed (.failed (.host .sinkFull)) ∧
          s.CutShort full.2 ⟨w ++ String.ofList front, some 0, flushFails⟩ limited.2) ∧
    (∀ sink : Sink, ((s.withSink { sink with flushFails := true }).perform rounds r).1 =
      ((s.withSink { sink with flushFails := false }).perform rounds r).1.flushed true) ∧
    (∀ n t m, Comes rounds r s n t m → m.flushes = s.machine.flushes) ∧
    (∀ m, s.Completes rounds r m →
      m.flushes = s.machine.flushes ∧ (s.perform rounds r).2.machine = m.flushed) ∧
    ((∀ m, ¬s.Completes rounds r m) →
      (s.perform rounds r).2.machine.flushes = s.machine.flushes) ∧
    (RunError.failed (.host .sinkFull)).exitCode = 70 ∧
    ∀ sink clock rs, ((start sink clock).afterAll rounds rs).AtRest := by
  obtain ⟨text, a, s₁, h⟩ := prints_perform rounds s r
  refine ⟨fun w flushFails k => ?_, fun sink => ?_, fun n t m => flushes_of_comes,
    fun m hm => ⟨hm.perform_eq.1, hm.perform_eq.2.1⟩, flushes_of_not_completes, rfl,
    fun sink clock rs => samePlace_afterAll rounds rs _⟩
  · intro full limited
    have hfull : full = _ := h.of_unlimited w flushFails
    refine ⟨text, by rw [hfull]; rfl, fun hfits => ?_, fun front hcut => ?_⟩
    · have hw := Sink.write_of_fits (s := ⟨w, some k, flushFails⟩) rfl hfits
      have hlimited : limited = _ := h.taken ⟨w, some k, flushFails⟩ (by rw [hw])
      rw [hlimited, hw, hfull]
      rfl
    · have hw := Sink.write_of_cut (s := ⟨w, some k, flushFails⟩) rfl hcut
      obtain ⟨s', hs', hsink, hid⟩ := h.failed ⟨w, some k, flushFails⟩ (by rw [hw])
      rw [hw] at hsink
      have hlimited : limited = _ := hs'
      -- a request leaves the frame and the depth as they were, however it ends
      have hplace := samePlace_perform rounds (s.withSink ⟨w, some k, flushFails⟩) r
      have hflushes := flushes_of_sinkFull (congrArg Prod.fst hs')
      rw [hs'] at hplace hflushes
      rw [hlimited, hfull]
      refine ⟨rfl, hsink, hplace, hid, hflushes, fun rounds' r' => ?_⟩
      have husable := perform_of_silent rounds' s' r'
      rwa [hsink] at husable
  · -- the two sinks take the same, so only the answer of a flush can tell them apart
    have hwrite := fun fails => sink.write_withFlush fails text
    cases hw : (sink.write text).1 with
    | true =>
      rw [h.taken _ (by rw [hwrite, hw]), h.taken _ (by rw [hwrite, hw])]
      cases a <;> rfl
    | false =>
      obtain ⟨_, hfails, -⟩ := h.failed { sink with flushFails := true } (by rw [hwrite, hw])
      obtain ⟨_, hflushes, -⟩ := h.failed { sink with flushFails := false } (by rw [hwrite, hw])
      rw [hfails, hflushes]
      rfl

/-- There is room for one line only. With room for both the sink is asked to flush. -/
theorem full_sink_cuts_short_oneLine :
    let s := start .unlimited (.ticking 0)
    let full := (s.withSink ⟨"", none, false⟩).perform 0 (.run "print nil; print true;")
    let limited := (s.withSink ⟨"", some 1, false⟩).perform 0 (.run "print nil; print true;")
    Sink.Cut 1 "nil\ntrue\n".toList "nil\n".toList ∧
      limited.1 = .failed (.failed (.host .sinkFull)) ∧
      limited.2.machine.sink = ⟨"nil\n", some 0, false⟩ ∧
      limited.2.machine.flushes = 0 ∧ full.2.machine.flushes = 1 := by
  intro s full limited
  have hcut : Sink.Cut 1 "nil\ntrue\n".toList "nil\n".toList :=
    ⟨⟨"true\n".toList, by decide, by decide⟩, by decide, by simp⟩
  obtain ⟨text, hfull, -, hshort⟩ :=
    (full_sink_cuts_short 0 s (.run "print nil; print true;")).1 "" false 1
  have hb : Begins (.run "print nil; print true;") (s.withSink ⟨"", none, false⟩)
      (.stmts [.print .nil, .print (.boolean true)])
      ⟨(s.withSink ⟨"", none, false⟩).machine.record ∅, 0⟩ := .run_of_spans (by cbv) (by cbv) rfl
  have hrun : (Task.stmts [.print .nil, .print (.boolean true)]).run 0
      ((s.withSink ⟨"", none, false⟩).machine.record ∅) = .ok .normal _ := rfl
  have hflushed : full.2.machine = Machine.flushed _ :=
    ((full_sink_cuts_short 0 _ _).2.2.2.1 _ ⟨_, _, _, hb, hrun⟩).2
  have hperform := hb.perform_run hrun
  rw [hperform] at hfull
  obtain rfl : "nil\ntrue\n" = text := by
    have hwritten : "" ++ (Value.nil.display ++ "\n") ++ ((Value.boolean true).display ++ "\n") =
      "" ++ text := congrArg Sink.written hfull
    simpa [Value.display] using hwritten
  obtain ⟨hanswer, hs⟩ := hshort _ hcut
  exact ⟨hcut, hanswer, hs.printed, hs.unflushed, congrArg Machine.flushes hflushed⟩

end Session
end Lox
