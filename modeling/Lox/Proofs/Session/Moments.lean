import Lox.Proofs.Eval.Scoped
import Lox.Proofs.Session.Accepted

/-
  Moments of a history

  `Happens` says what a session comes to while requests are performed, and
  `Accepts` which sites the trees of these requests have. Between two requests a
  session is sound: its heap fits, and it knows the distances of all sites so
  far. Hence every moment of a history is a good one (`Happens.moment`).
-/

namespace Lox

open Eval
open Resolution (distance?)

namespace Session

/-- `Happens rounds s rs t m`: while the requests are performed one after another, the
evaluator comes to the task `t` with the machine `m`. -/
inductive Happens (rounds : Nat) : Session → List Request → Task → Machine → Prop
  | now {s : Session} {r : Request} {rs : List Request} {n : Nat} {t : Task} {m : Machine} :
      Comes rounds r s n t m → Happens rounds s (r :: rs) t m
  | later {s : Session} {r : Request} {rs : List Request} {t : Task} {m : Machine} :
      Happens rounds (s.perform rounds r).2 rs t m → Happens rounds s (r :: rs) t m

/-- `Accepts rounds s rs site`: the site is one of a tree that one of the requests
begins to evaluate. -/
inductive Accepts (rounds : Nat) : Session → List Request → Site → Prop
  | now {s s₁ : Session} {r : Request} {rs : List Request} {t : Task} {site : Site} :
      Begins r s t s₁ → site ∈ t.sites → Accepts rounds s (r :: rs) site
  | later {s : Session} {r : Request} {rs : List Request} {site : Site} :
      Accepts rounds (s.perform rounds r).2 rs site → Accepts rounds s (r :: rs) site

/-- The frame was made for the construct while the requests were performed. -/
def Made (rounds : Nat) (s : Session) (rs : List Request) (f : FrameId) (o : Opener) : Prop :=
  ∃ t m, Happens rounds s rs t m ∧ Creates rounds t m f o

/-- A session between two requests, with the sites that it has seen. -/
structure Sound (ok : Site → Prop) (made : FrameId → Opener → Prop) (s : Session) : Prop where
  frame : s.machine.frame = Heap.globals
  depth : s.machine.depth = 0
  heap : s.machine.heap.Fitted ok made
  fine : ∀ site, ok site → site.Fine
  used : ∀ site, ok site → site.id < s.nextId
  distances : ∀ site, ok site →
    s.machine.distances[site.id]? = distance? site.scopes site.name
  unused : ∀ id, s.nextId ≤ id → s.machine.distances[id]? = none

/-- A moment of an evaluation: a good task, and sites whose distances are known. -/
structure Moment (ok : Site → Prop) (made : FrameId → Opener → Prop) (rounds : Nat) (t : Task)
    (m : Machine) : Prop where
  depth : m.depth ≤ maxCallDepth
  makes : Makes made rounds t m
  good : Good ok made t m
  fine : ∀ site, ok site → site.Fine
  distances : ∀ site, ok site → m.distances[site.id]? = distance? site.scopes site.name

variable {ok : Site → Prop} {made : FrameId → Opener → Prop} {rounds : Nat}

theorem sound_start (sink : Sink) (clock : Clock) :
    Sound (fun _ => False) made (start sink clock) where
  frame := rfl
  depth := rfl
  heap := by
    refine ⟨by simp [start, Machine.start, Heap.define, Heap.newFrame, Heap.empty], rfl,
      fun f name v hv => ?_, fun object name v hv => by cases hv⟩
    have hsize : (Heap.empty.newFrame none).2.frames.size = 1 := rfl
    rw [start, Machine.start, Heap.find?_define, Heap.bindings_newFrame] at hv
    split at hv
    · cases hv
      trivial
    · rw [Heap.bindings_fresh (Nat.zero_le f)] at hv
      cases hv
  fine _ h := h.elim
  used _ h := h.elim
  distances _ h := h.elim
  unused _ _ := Std.TreeMap.getElem?_emptyc

namespace Sound

variable {s s₁ : Session} {r : Request} {t : Task}

/-- Ids that are used up do no harm. -/
theorem usedUp (h : Sound ok made s) {k : Nat} (hk : s.nextId ≤ k) :
    Sound ok made { s with nextId := k } :=
  { h with
    used := fun site hs => Nat.lt_of_lt_of_le (h.used site hs) hk
    unused := fun id hid => h.unused id (Nat.le_trans hk hid) }

/-- A tree adds its sites to the known ones. -/
theorem begins (h : Sound ok made s) (hb : Begins r s t s₁) :
    Sound (fun site => ok site ∨ site ∈ t.sites) made s₁ := by
  obtain ⟨-, hfine, hfills, hrecord⟩ := hb.recorded
  -- distances are recorded for the new sites only
  have hids : ∀ id, id ∉ t.sites.map Site.id → (Site.recordAll ∅ t.sites)[id]? = none :=
    fun id hid => (Site.getElem?_recordAll_of_not_mem hid).trans Std.TreeMap.getElem?_emptyc
  have hlookup : ∀ id, s₁.machine.distances[id]? =
      (Site.recordAll ∅ t.sites)[id]?.or s.machine.distances[id]? := fun id => by
    rw [hrecord, Machine.getElem?_record]
  refine ⟨by rw [hrecord]; exact h.frame, by rw [hrecord]; exact h.depth, ?_, ?_, ?_, ?_, ?_⟩
  · rw [hrecord]
    exact h.heap.weaken fun site hs => .inl hs
  · rintro site (hs | hs)
    · exact h.fine site hs
    · exact hfine site hs
  · rintro site (hs | hs)
    · exact Nat.lt_of_lt_of_le (h.used site hs) hb.nextId_le
    · exact (hfills.mem_iff.1 (List.mem_map_of_mem hs)).2
  · rintro site (hs | hs)
    · -- the new sites have ids of their own, so an old one keeps its distance
      have hold : site.id ∉ t.sites.map Site.id := fun hm =>
        absurd (hfills.mem_iff.1 hm).1 (Nat.not_le.2 (h.used site hs))
      rw [hlookup, hids _ hold, Option.none_or]
      exact h.distances site hs
    · have hnew := h.unused site.id (hfills.mem_iff.1 (List.mem_map_of_mem hs)).1
      rw [hlookup, hnew, Option.or_none]
      exact Site.getElem?_recordAll hfills.nodup hs Std.TreeMap.getElem?_emptyc
  · intro id hid
    have hnot : id ∉ t.sites.map Site.id := fun hm =>
      absurd hid (Nat.not_le.2 (hfills.mem_iff.1 hm).2)
    rw [hlookup, hids id hnot, Option.none_or]
    exact h.unused id (Nat.le_trans hb.nextId_le hid)

/-- The tree of a request is good. -/
theorem good (h : Sound ok made s) (hb : Begins r s t s₁) :
    Good (fun site => ok site ∨ site ∈ t.sites) made t s₁.machine := by
  have h₁ := h.begins hb
  have hproper := hb.recorded.1
  have hfits : Fits made s₁.machine.heap s₁.machine.frame [] [] := h₁.frame ▸ .global
  refine ⟨h₁.heap, ?_⟩
  cases t with
  | expr e => exact ⟨hproper, [], .start, hfits, fun site hs => .inr hs⟩
  | stmts ss => exact ⟨hproper, [], .start, hfits, fun site hs => .inr hs⟩
  | _ => exact hproper.elim

/-- A request leaves a session that is sound again. -/
theorem perform (h : Sound ok made s) (hb : Begins r s t s₁)
    (hmakes : Makes made rounds t s₁.machine) :
    Sound (fun site => ok site ∨ site ∈ t.sites) made (s.perform rounds r).2 := by
  have h₁ := h.begins hb
  have hdepth : s₁.machine.depth ≤ maxCallDepth := h₁.depth ▸ Nat.zero_le _
  have hkeeps := t.steady_run rounds s₁.machine
  rw [hb.session_eq]
  refine ⟨hkeeps.frame.trans h₁.frame, hkeeps.depth.trans h₁.depth, ?_, h₁.fine, h₁.used,
    fun site hs => ?_, fun id hid => ?_⟩
  · exact (Task.safe hdepth hmakes (h.good hb)).after_fitted
  · rw [hkeeps.distances]
    exact h₁.distances site hs
  · rw [hkeeps.distances]
    exact h₁.unused id hid

end Sound

/-- What a request makes is made while the requests from this one on are performed. -/
theorem Begins.makes {s s₁ : Session} {r : Request} {t : Task} (hb : Begins r s t s₁)
    {rs : List Request} (hmade : ∀ f o, Made rounds s (r :: rs) f o → made f o) :
    Makes made rounds t s₁.machine :=
  fun _ t' m' f o hreach hc => hmade f o ⟨t', m', .now ⟨t, s₁, hb, hreach⟩, hc⟩

theorem Made.later {s : Session} {r : Request} {rs : List Request} {f : FrameId} {o : Opener}
    (h : Made rounds (s.perform rounds r).2 rs f o) : Made rounds s (r :: rs) f o := by
  obtain ⟨t, m, h, hc⟩ := h
  exact ⟨t, m, .later h, hc⟩

/-- The heap grows while a request is evaluated. -/
theorem Sound.extends_perform {s s₁ : Session} {r : Request} {t : Task} (hs : Sound ok made s)
    (hb : Begins r s t s₁) (hmakes : Makes made rounds t s₁.machine) :
    s.machine.heap.Extends (s.perform rounds r).2.machine.heap := by
  have hdepth : s₁.machine.depth ≤ maxCallDepth := (hs.begins hb).depth ▸ Nat.zero_le _
  have hheap : s₁.machine.heap = s.machine.heap := by
    rw [hb.recorded.2.2.2]
    rfl
  rw [hb.session_eq, ← hheap]
  exact (Task.safe hdepth hmakes (hs.good hb)).extends_after

/-- While requests are performed, a session stays sound and its heap grows. -/
theorem Sound.afterAll_grown {s : Session} {rs : List Request} (hs : Sound ok made s)
    (hmade : ∀ f o, Made rounds s rs f o → made f o) :
    (∃ ok', Sound ok' made (s.afterAll rounds rs)) ∧
      s.machine.heap.Extends (s.afterAll rounds rs).machine.heap := by
  induction rs generalizing s ok with
  | nil => exact ⟨⟨ok, hs⟩, .refl _⟩
  | cons r rs ih =>
    have hlater := fun f o (h : Made rounds (s.perform rounds r).2 rs f o) => hmade f o h.later
    obtain ⟨t, s₁, hb⟩ | ⟨a, k, hp, hk, -⟩ := perform_cases rounds s r
    · have hmakes := hb.makes hmade
      obtain ⟨hsound, hext⟩ := ih (hs.perform hb hmakes) hlater
      exact ⟨hsound, (hs.extends_perform hb hmakes).trans hext⟩
    · rw [afterAll]
      rw [hp] at hlater ⊢
      exact ih (hs.usedUp hk) hlater

/-- All that happens while requests are performed happens at good moments. -/
theorem Happens.moment {s : Session} {rs : List Request} {t : Task} {m : Machine}
    (h : Happens rounds s rs t m) {ok : Site → Prop} (hs : Sound ok made s)
    (hmade : ∀ f o, Made rounds s rs f o → made f o) :
    ∃ ok', (∀ site, ok' site → ok site ∨ Accepts rounds s rs site) ∧ Moment ok' made rounds t m := by
  induction h generalizing ok with
  | @now s r rs n t m hcomes =>
    obtain ⟨t₀, s₁, hb, hreach⟩ := hcomes
    have h₁ := hs.begins hb
    have hdepth : s₁.machine.depth ≤ maxCallDepth := h₁.depth ▸ Nat.zero_le _
    have hmakes := hb.makes hmade
    refine ⟨_, fun site hsite => hsite.imp id (.now hb), hreach.depth_le hdepth,
      fun n t' m' f o hr hc => hmakes _ t' m' f o (hreach.trans hr) hc,
      (hs.good hb).reaches hdepth hmakes hreach, h₁.fine, fun site hsite => ?_⟩
    -- distances are recorded before an evaluation, never on the way
    rw [hreach.sameRecords.distances]
    exact h₁.distances site hsite
  | @later s r rs t m _ ih =>
    have hmade' := fun f o (h : Made rounds (s.perform rounds r).2 rs f o) => hmade f o h.later
    obtain ⟨t₀, s₁, hb⟩ | ⟨a, k, hp, hk, -⟩ := perform_cases rounds s r
    · obtain ⟨ok', hok, hm⟩ := ih (hs.perform hb (hb.makes hmade)) hmade'
      refine ⟨ok', fun site hsite => ?_, hm⟩
      -- a site is known from before, from this request, or from a later one
      obtain (hold | hnew) | hlater := hok site hsite
      · exact .inl hold
      · exact .inr (.now hb hnew)
      · exact .inr (.later hlater)
    · rw [hp] at ih hmade'
      obtain ⟨ok', hok, hm⟩ := ih (hs.usedUp hk) hmade'
      refine ⟨ok', fun site hsite => (hok site hsite).imp id fun h => .later ?_, hm⟩
      rwa [hp]

/-- Every moment of a history. -/
theorem moment_of_happens {sink : Sink} {clock : Clock} {rs : List Request} {t : Task}
    {m : Machine} (h : Happens rounds (start sink clock) rs t m) :
    ∃ ok, (∀ site, ok site → Accepts rounds (start sink clock) rs site) ∧
      Moment ok (Made rounds (start sink clock) rs) rounds t m := by
  obtain ⟨ok, hok, hm⟩ := h.moment (sound_start sink clock) fun _ _ h => h
  exact ⟨ok, fun site hs => (hok site hs).resolve_left id, hm⟩

end Session
end Lox
