import Lox.Proofs.Scope.Moved
import Lox.Proofs.Session.Alike

/-
  Histories without the requests that evaluate nothing

  A request that only parses, or whose source is refused, uses up ids and leaves
  everything else as it was. Without such requests a history goes on with other
  ids, so the two sessions are not the same; but one `Tracks` the other: nodes
  that stand for each other have the same distances, and all functions and
  classes in the heaps are alike. This is kept by every request, so nobody can
  tell from the remaining answers that requests were left out
  (`refused_leave_no_trace`).
-/

namespace Lox

open Eval

/-! ## What can be seen of a history -/

/-- Requests that build a tree and evaluate nothing. -/
def Request.OnlyParses : Request → Prop
  | .run _ | .evaluate _ => False
  | .parseProgram _ | .parseExpression _ | .readExpression _ => True

/-- Answers that tell lexical, syntax or scoping errors. -/
def Answer.Refused : Answer → Prop
  | .failed (.malformed _) | .failed (.misscoped _) => True
  | _ => False

instance : DecidablePred Request.OnlyParses
  | .run _ | .evaluate _ => .isFalse id
  | .parseProgram _ | .parseExpression _ | .readExpression _ => .isTrue trivial

instance : DecidablePred Answer.Refused
  | .failed (.malformed _) | .failed (.misscoped _) => .isTrue trivial
  | .failed (.failed _) | .done | .value _ | .parsed | .unfinished => .isFalse id

theorem Answer.refused_of_quiet {a : Answer} (h : a.Quiet) (hparsed : a ≠ .parsed) : a.Refused := by
  obtain _ | _ | _ | (_ | _ | _) | _ := a
  case parsed => exact absurd rfl hparsed
  case failed.malformed => trivial
  case failed.misscoped => trivial
  all_goals exact h.elim

theorem Answer.quiet_of_refused {a : Answer} (h : a.Refused) : a.Quiet := by
  obtain _ | _ | _ | (_ | _ | _) | _ := a
  case failed.malformed => trivial
  case failed.misscoped => trivial
  all_goals exact h.elim

/-- The same answer, as far as a caller can tell: values are of the same kind, with
the same text, truth and arity, and errors are the same, lines included. -/
inductive Answer.Same : Answer → Answer → Prop
  | done : Same .done .done
  | value {v v' : Value} : v'.kindName = v.kindName → v'.display = v.display →
      v'.truthy = v.truthy → v'.arity? = v.arity? → Same (.value v) (.value v')
  | failed (e : RunError) : Same (.failed e) (.failed e)
  | unfinished : Same .unfinished .unfinished

/-- What can be seen of one request: its answer, and what was printed on the way. -/
structure Entry where
  request : Request
  answer : Answer
  printed : String

/-- The request evaluates nothing: it only parses, or its source is refused. -/
def Entry.Idle (e : Entry) : Prop := e.request.OnlyParses ∨ e.answer.Refused

instance : DecidablePred Entry.Idle := fun e =>
  inferInstanceAs (Decidable (e.request.OnlyParses ∨ e.answer.Refused))

/-- The same request with the same answer and the same text printed. -/
structure Entry.Same (e e' : Entry) : Prop where
  request : e'.request = e.request
  answer : e.answer.Same e'.answer
  printed : e'.printed = e.printed

namespace Session

/-- A session whose printed text was taken. -/
def emptied (s : Session) : Session :=
  { s with machine := { s.machine with sink := { s.machine.sink with written := "" } } }

/-- What is seen of a request if all that was printed before was taken. -/
def watch (rounds : Nat) (s : Session) (r : Request) : Entry where
  request := r
  answer := (s.emptied.perform rounds r).1
  printed := (s.emptied.perform rounds r).2.machine.sink.written

/-- What is seen of requests that are performed one after another. -/
def transcript (rounds : Nat) : Session → List Request → List Entry
  | _, [] => []
  | s, r :: rs => s.watch rounds r :: transcript rounds (s.emptied.perform rounds r).2 rs

/-! ## Idle requests -/

variable {rounds : Nat} {r : Request} {s s₁ : Session} {t : Task}

theorem conclude_ne_parsed {α : Type} {f : α → Answer} (hf : ∀ a, f a ≠ .parsed)
    (result : EStateM.Result (Halt RunError) Session α) : (conclude f result).1 ≠ .parsed := by
  obtain ⟨a, _⟩ | ⟨_ | _, _⟩ := result
  · exact hf a
  all_goals exact fun h => by cases h

theorem idle_of_quiet (h : (s.perform rounds r).1.Quiet) :
    r.OnlyParses ∨ (s.perform rounds r).1.Refused := by
  cases r with
  | run source =>
    exact .inr (Answer.refused_of_quiet h (conclude_ne_parsed (fun _ => by simp) _))
  | evaluate source =>
    exact .inr (Answer.refused_of_quiet h (conclude_ne_parsed (fun _ => by simp) _))
  | _ => exact .inl trivial

theorem Begins.not_idle (h : Begins r s t s₁) :
    ¬(r.OnlyParses ∨ (s.perform rounds r).1.Refused) := by
  rintro (hr | ha)
  · cases h <;> exact hr
  · exact h.not_quiet (Answer.quiet_of_refused ha)

/-! ## Distances that a request records -/

theorem Begins.distances_old (h : Begins r s t s₁) {id : Nat} (hid : id < s.nextId) :
    s₁.machine.distances[id]? = s.machine.distances[id]? := by
  obtain ⟨-, -, hfills, hrecord⟩ := h.recorded
  have hnot : id ∉ t.sites.map Site.id := fun hm =>
    absurd (hfills.mem_iff.1 hm).1 (Nat.not_le.2 hid)
  rw [hrecord, Machine.getElem?_record, Site.getElem?_recordAll_of_not_mem hnot,
    Std.TreeMap.getElem?_emptyc, Option.none_or]

theorem Begins.distances_unused (h : Begins r s t s₁)
    (hs : ∀ id, s.nextId ≤ id → s.machine.distances[id]? = none) {id : Nat}
    (hid : s₁.nextId ≤ id) : s₁.machine.distances[id]? = none := by
  obtain ⟨-, -, hfills, hrecord⟩ := h.recorded
  have hnot : id ∉ t.sites.map Site.id := fun hm =>
    absurd hid (Nat.not_le.2 (hfills.mem_iff.1 hm).2)
  rw [hrecord, Machine.getElem?_record, Site.getElem?_recordAll_of_not_mem hnot,
    Std.TreeMap.getElem?_emptyc, Option.none_or]
  exact hs id (Nat.le_trans h.nextId_le hid)

/-- A tree whose ids begin further on is one whose ids do not, moved, and has the same
distances under the moved ids. -/
theorem unmoved {α : Type} {rule : List Token → Nat → Parse.Outcome α}
    {resolve : α → Except (List ScopeError) Distances} {shift : α → α} {tokens : List Token}
    {firstId c k : Nat} {tree : α} {ds : Distances}
    (hadd : rule tokens (firstId + c) = (rule tokens firstId).move (fun l => l) c shift)
    (hwalk : ∀ tree₀, ∃ r r', Resolution.Moved (fun l => l) c (fun _ => none) r r' ∧
      resolve tree₀ = r.result ∧ resolve (shift tree₀) = r'.result)
    (hp : rule tokens (firstId + c) = ⟨.ok tree, k⟩) (hr : resolve tree = .ok ds) :
    ∃ tree₀ k₀ ds₀, rule tokens firstId = ⟨.ok tree₀, k₀⟩ ∧ resolve tree₀ = .ok ds₀ ∧
      tree = shift tree₀ ∧ k = k₀ + c ∧ ∀ id : Nat, ds[id + c]? = ds₀[id]? := by
  rw [hadd] at hp
  cases hparse : rule tokens firstId with
  | mk result k₀ =>
    rw [hparse] at hp
    cases result with
    | error errors => cases hp
    | ok tree₀ =>
      cases hp
      obtain ⟨r, r', hmoved, hr₀, hr₁⟩ := hwalk tree₀
      cases hresult : r.result with
      | error errors =>
        -- a tree that breaks rules breaks them under any ids
        cases (hr₁.trans (hmoved.result_of_error hresult)).symm.trans hr
      | ok ds₀ =>
        obtain ⟨ds₁, hds₁, hlookup⟩ := hmoved.result_of_ok hresult
        cases (hr₁.trans hds₁).symm.trans hr
        exact ⟨tree₀, k₀, ds₀, rfl, hr₀.trans hresult, rfl, rfl,
          fun id => (hlookup id).trans (Option.or_none ..)⟩

/-- What begins with ids further on begins here as well, under the ids from here on. -/
theorem Begins.moved (h : Begins r s t s₁) (p : Session) {c : Nat}
    (hc : s.nextId = p.nextId + c) :
    ∃ t' k ds ds', Begins r p t' ⟨p.machine.record ds, k⟩ ∧
      s₁ = ⟨s.machine.record ds', k + c⟩ ∧ (∀ id : Nat, ds'[id + c]? = ds[id]?) ∧
      t = t'.relabel (fun l => l) (· + c) := by
  cases h with
  | @run source _ program k ds' hl hp hr =>
    rw [hc] at hp
    obtain ⟨program', k', ds, hp', hr', rfl, rfl, hlookup⟩ :=
      unmoved (Parse.parseProgram_add ..) (fun program => ⟨_, _,
        Stmt.moved_resolveAll program (Resolution.Moved.start (fun l => l) c), rfl, rfl⟩) hp hr
    exact ⟨_, k', ds, ds', .run hl hp' hr', rfl, hlookup, rfl⟩
  | @evaluate source _ e k ds' hl hp hr =>
    rw [hc] at hp
    obtain ⟨e', k', ds, hp', hr', rfl, rfl, hlookup⟩ :=
      unmoved (Parse.parseExpression_add ..) (fun e => ⟨_, _,
        e.moved_resolve (Resolution.Moved.start (fun l => l) c), rfl, rfl⟩) hp hr
    exact ⟨_, k', ds, ds', .evaluate hl hp' hr', rfl, hlookup, rfl⟩

/-! ## Sessions that track each other -/

/-- Ids that were given out stand for each other if they have the same distance. -/
def likeness (p s : Session) : Likeness where
  ids i j := i < p.nextId ∧ j < s.nextId ∧ s.machine.distances[j]? = p.machine.distances[i]?
  lines := Eq

/-- The second session has given out more ids; apart from ids it is like the first. -/
structure Tracks (p s : Session) : Prop where
  machine : p.machine.Alike (likeness p s) s.machine
  nextId : p.nextId ≤ s.nextId
  unused : ∀ id, p.nextId ≤ id → p.machine.distances[id]? = none
  unused' : ∀ id, s.nextId ≤ id → s.machine.distances[id]? = none

namespace Tracks

variable {p : Session}

theorem emptied (h : Tracks p s) : Tracks p.emptied s.emptied where
  machine := { h.machine with
    sink := congrArg (fun sink => { sink with written := "" }) h.machine.sink }
  nextId := h.nextId
  unused := h.unused
  unused' := h.unused'

theorem usedUp (h : Tracks p s) {k : Nat} (hk : s.nextId ≤ k) : Tracks p { s with nextId := k } where
  machine := by
    have hle : (likeness p s).Le (likeness p { s with nextId := k }) :=
      ⟨fun i j hi => ⟨hi.1, Nat.lt_of_lt_of_le hi.2.1 hk, hi.2.2⟩, fun _ _ hl => hl⟩
    exact h.machine.withDistances hle fun _ _ hi => hi.2.2
  nextId := Nat.le_trans h.nextId hk
  unused := h.unused
  unused' id hid := h.unused' id (Nat.le_trans hk hid)

/-- What begins in one session begins in the other. -/
theorem begins (h : Tracks p s) (hb : Begins r s t s₁) :
    ∃ t' p₁, Begins r p t' p₁ ∧ Tracks p₁ s₁ ∧ t'.Alike (likeness p₁ s₁) t := by
  obtain ⟨c, hc⟩ := Nat.exists_eq_add_of_le h.nextId
  obtain ⟨t', k, ds, ds', hb', rfl, hds, rfl⟩ := hb.moved p hc
  -- ids that were alike before are old in both sessions, so their distances stay
  have hle : (likeness p s).Le (likeness ⟨p.machine.record ds, k⟩ ⟨s.machine.record ds', k + c⟩) := by
    refine ⟨fun i j hi => ⟨?_, ?_, ?_⟩, fun _ _ hl => hl⟩
    · exact Nat.lt_of_lt_of_le hi.1 hb'.nextId_le
    · exact Nat.lt_of_lt_of_le hi.2.1 hb.nextId_le
    · rw [hb.distances_old hi.2.1, hb'.distances_old hi.1]
      exact hi.2.2
  refine ⟨t', _, hb', ⟨?_, ?_, fun _ => hb'.distances_unused h.unused,
    fun _ => hb.distances_unused h.unused'⟩, ?_⟩
  · exact h.machine.withDistances hle fun _ _ hi => hi.2.2
  · exact Nat.le_add_right k c
  · refine hb'.alike_relabel (fun _ => rfl) fun i hlow hhigh => ⟨hhigh, Nat.add_lt_add_right hhigh c, ?_⟩
    show (s.machine.record ds').distances[i + c]? = (p.machine.record ds).distances[i]?
    rw [Machine.getElem?_record, Machine.getElem?_record, hds, h.unused i hlow,
      h.unused' (i + c) (hc ▸ Nat.add_le_add_right hlow c)]

/-- A request that evaluates something is answered in the same way. -/
theorem perform (h : Tracks p s) (rounds : Nat) (hb : Begins r s t s₁) :
    (p.perform rounds r).1.Alike (likeness (p.perform rounds r).2 (s.perform rounds r).2)
        (s.perform rounds r).1 ∧
      Tracks (p.perform rounds r).2 (s.perform rounds r).2 := by
  obtain ⟨t', p₁, hb', h₁, ht⟩ := h.begins hb
  have halike := hb'.alike rounds hb ht h₁.machine
  have hp := t'.steady_run rounds p₁.machine
  have hs := t.steady_run rounds s₁.machine
  -- evaluations leave the distances as they are
  have hlikeness : likeness (p.perform rounds r).2 (s.perform rounds r).2 = likeness p₁ s₁ := by
    rw [hb.session_eq, hb'.session_eq]
    simp only [likeness, hp.distances, hs.distances]
  refine ⟨hlikeness ▸ halike.1, hlikeness ▸ halike.2, ?_, fun id hid => ?_, fun id hid => ?_⟩
  · rw [hb.session_eq, hb'.session_eq]
    exact h₁.nextId
  · rw [hb'.session_eq] at hid ⊢
    exact (congrArg (·[id]?) hp.distances).trans (h₁.unused id hid)
  · rw [hb.session_eq] at hid ⊢
    exact (congrArg (·[id]?) hs.distances).trans (h₁.unused' id hid)

end Tracks

/-- In the first machine no node has a distance yet. -/
theorem alike_start (L : Likeness) (sink : Sink) (clock : Clock) :
    (start sink clock).machine.Alike L (start sink clock).machine := by
  have hvalues : ∀ f n, Value.OptionAlike L (((start sink clock).machine.heap.bindings f).find? n)
      (((start sink clock).machine.heap.bindings f).find? n) := by
    intro f n
    rw [start, Machine.start, Heap.find?_define, Heap.bindings_newFrame,
      Heap.bindings_fresh (Nat.zero_le f)]
    exact .ite (.some .clock) .none
  have hdistances : ∀ i : Nat, (start sink clock).machine.distances[i]? = none :=
    fun _ => Std.TreeMap.getElem?_emptyc
  exact ⟨⟨rfl, fun _ => rfl, hvalues, rfl, fun _ _ => .none, rfl⟩, rfl, rfl,
    fun i j _ => (hdistances j).trans (hdistances i).symm, rfl, rfl, rfl⟩

theorem tracks_start (sink : Sink) (clock : Clock) :
    Tracks (start sink clock) (start sink clock) where
  machine := alike_start _ sink clock
  nextId := Nat.le_refl _
  unused _ _ := Std.TreeMap.getElem?_emptyc
  unused' _ _ := Std.TreeMap.getElem?_emptyc

/-! ## Leaving out what evaluates nothing -/

/-- Answers of sessions that track each other cannot be told apart. -/
theorem same_of_alike {p s : Session} {a a' : Answer} (h : a.Alike (likeness p s) a') :
    a.Same a' := by
  cases h with
  | done => exact .done
  | value hv =>
    have hs := hv.similar
    exact .value hs.kindName_eq hs.display_eq hs.truthy_eq hs.arity?_eq
  | program problem hl =>
    cases hl
    exact .failed _
  | host problem => exact .failed _
  | unfinished => exact .unfinished

/-- The entries that are not idle. -/
def busy (entries : List Entry) : List Entry := entries.filter fun e => ¬e.Idle

theorem busy_transcript {p : Session} (h : Tracks p.emptied s.emptied) (rs : List Request) :
    List.Forall₂ Entry.Same
      (transcript rounds p ((busy (transcript rounds s rs)).map Entry.request))
      (busy (transcript rounds s rs)) := by
  induction rs generalizing p s with
  | nil => exact .nil
  | cons r rs ih =>
    rw [transcript]
    obtain ⟨t, s₁, hb⟩ | ⟨a, k, hs, hk, ha⟩ := perform_cases rounds s.emptied r
    · have hbusy : ¬(s.watch rounds r).Idle := hb.not_idle
      obtain ⟨hanswer, hafter⟩ := h.perform rounds hb
      rw [busy, List.filter_cons_of_pos (by simpa using hbusy), List.map_cons, transcript]
      refine .cons ⟨rfl, same_of_alike hanswer, ?_⟩ (ih hafter.emptied)
      exact congrArg Sink.written hafter.machine.sink
    · have hidle : (s.watch rounds r).Idle := idle_of_quiet (hs ▸ ha)
      rw [busy, List.filter_cons_of_neg (by simpa using hidle)]
      exact ih (hs ▸ (h.usedUp hk).emptied)

/-- Requests that only parse, and those that are refused, leave no trace. A history
without them goes on as before: each of the remaining requests prints the same text
and ends with the same value, as far as a caller can tell, or with the same error. -/
theorem refused_leave_no_trace (rounds : Nat) (sink : Sink) (clock : Clock) (rs : List Request) :
    List.Forall₂ Entry.Same
      (transcript rounds (start sink clock)
        ((busy (transcript rounds (start sink clock) rs)).map Entry.request))
      (busy (transcript rounds (start sink clock) rs)) :=
  busy_transcript (tracks_start sink clock).emptied rs

end Session
end Lox
