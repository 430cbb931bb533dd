import Lox.Proofs.Grammar.Exact
import Lox.Proofs.Scope.Fine
import Lox.Proofs.Scope.Ids
import Lox.Proofs.Session.History

/-
  Accepted trees

  A request evaluates a tree only if it was derived from genuine tokens and
  its walk reported nothing. So the tree is proper, its sites are fine and have
  the ids that the request took, and exactly their distances are recorded
  (`Session.Begins.recorded`).
-/

namespace Lox

open Grammar

/-! ## Recording -/

section Recording

variable {ds : Distances} {l : List (Nat × Nat)} {id d : Nat}

theorem getElem?_insertAll_of_not_mem (h : ∀ d, (id, d) ∉ l) :
    (l.foldl (fun ds entry => ds.insert entry.1 entry.2) ds)[id]? = ds[id]? := by
  induction l generalizing ds with
  | nil => rfl
  | cons entry rest ih =>
    have hne : entry.1 ≠ id := fun he => h entry.2 (he ▸ .head _)
    refine (ih fun d hd => h d (.tail _ hd)).trans ?_
    simp [Std.TreeMap.getElem?_insert, hne]

theorem getElem?_insertAll_of_mem (hl : ∀ d', (id, d') ∈ l → d' = d) (h : (id, d) ∈ l) :
    (l.foldl (fun ds entry => ds.insert entry.1 entry.2) ds)[id]? = some d := by
  induction l generalizing ds with
  | nil => cases h
  | cons entry rest ih =>
    by_cases hrest : ∃ d', (id, d') ∈ rest
    · obtain ⟨d', hd'⟩ := hrest
      exact ih (fun d' hd' => hl d' (.tail _ hd')) (hl d' (.tail _ hd') ▸ hd')
    · obtain rfl | h := List.mem_cons.1 h
      · refine (getElem?_insertAll_of_not_mem fun d' hd' => hrest ⟨d', hd'⟩).trans ?_
        simp
      · exact absurd ⟨d, h⟩ hrest

end Recording

/-- New distances are found, and those of other nodes stay. -/
theorem Machine.getElem?_record (m : Machine) (ds : Distances) (id : Nat) :
    (m.record ds).distances[id]? = ds[id]?.or m.distances[id]? := by
  have hmem : ∀ d, (id, d) ∈ ds.toList ↔ ds[id]? = some d := fun d =>
    Std.TreeMap.mem_toList_iff_getElem?_eq_some
  rw [Machine.record, Std.TreeMap.foldl_eq_foldl_toList]
  cases h : ds[id]? with
  | none =>
    refine getElem?_insertAll_of_not_mem fun d hd => ?_
    rw [hmem, h] at hd
    cases hd
  | some d =>
    refine getElem?_insertAll_of_mem (fun d' hd' => ?_) ((hmem d).2 h)
    rw [hmem, h] at hd'
    exact (Option.some.inj hd').symm

/-! ## Derivations of sources -/

theorem genuine_rest (source : String) :
    AllGenuine ((tokens source).takeWhile (!·.isEof)) := by
  obtain ⟨body, last, hsource, hbody⟩ := tokens_genuine source
  intro t ht
  have hend := List.mem_takeWhile_imp ht
  have hmem : t ∈ tokens source := (List.takeWhile_prefix _).subset ht
  rw [hsource] at hmem
  obtain hm | hm := List.mem_append.1 hmem
  · exact hbody t hm
  · rw [List.mem_singleton.1 hm] at hend
    cases hend

section Derived

variable {source : String} {n k : Nat}

theorem derived_of_parseProgram {program : List Stmt}
    (h : Parse.parseProgram (tokens source) n = ⟨.ok program, k⟩) :
    ∃ p q : Place, Declarations .nearest p program q ∧ p.nextId = n ∧ q.nextId = k ∧
      AllGenuine p.tokens := by
  obtain ⟨q, ⟨hderives, -⟩, hk⟩ := Parse.runRule_sound
    (Parse.sound_program (Nat.lt_succ_self _) _ (Nat.lt_succ_self _)) h
  exact ⟨_, q, hderives, rfl, hk, genuine_rest source⟩

theorem derived_of_parseExpression {e : Expr}
    (h : Parse.parseExpression (tokens source) n = ⟨.ok e, k⟩) :
    ∃ p q : Place, Derives .expression p e q ∧ p.nextId = n ∧ q.nextId = k ∧
      AllGenuine p.tokens := by
  obtain ⟨q, ⟨hderives, -⟩, hk⟩ := Parse.runRule_sound
    (Parse.sound_wholeExpression (Nat.le_succ _)) h
  exact ⟨_, q, hderives, rfl, hk, genuine_rest source⟩

end Derived

/-! ## What begins -/

namespace Task

/-- The sites of a tree at the top level. -/
def sites : Task → List Site
  | expr e => e.sites [] .start
  | stmts ss => Stmt.sitesAll [] ss .start
  | _ => []

/-- A tree that a source can have. -/
def Proper : Task → Prop
  | expr e => e.Proper
  | stmts ss => Stmt.AllProper ss
  | _ => False

end Task

/-- The tree of a request is proper, its sites are fine and have the ids that were
given out, and their distances are what is recorded. -/
theorem Session.Begins.recorded {r : Request} {s s₁ : Session} {t : Task} (h : Begins r s t s₁) :
    t.Proper ∧ (∀ site ∈ t.sites, site.Fine) ∧ Fills s.nextId s₁.nextId (t.sites.map Site.id) ∧
      s₁.machine = s.machine.record (Site.recordAll ∅ t.sites) := by
  cases h with
  | run _ hp hr =>
    obtain ⟨p, q, hderives, hn, rfl, hgenuine⟩ := derived_of_parseProgram hp
    rw [← hn]
    obtain ⟨herrors, rfl⟩ := Resolution.of_result hr
    have hproper := hderives.proper hgenuine
    exact ⟨hproper, Stmt.fineAll [] _ .start .start hproper herrors, hderives.fills [] .start,
      congrArg s.machine.record (Stmt.distances_resolveAll [] _ .start herrors)⟩
  | evaluate _ hp hr =>
    obtain ⟨p, q, hderives, hn, rfl, hgenuine⟩ := derived_of_parseExpression hp
    rw [← hn]
    obtain ⟨herrors, rfl⟩ := Resolution.of_result hr
    have hproper := hderives.proper hgenuine
    exact ⟨hproper, Sane.start.fine [] hproper herrors, hderives.fills [] .start,
      congrArg s.machine.record (Expr.distances_resolve [] _ .start herrors)⟩

end Lox
