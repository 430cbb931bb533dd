import Lox.Proofs.Scope.Nodes
import Lox.Proofs.Session.Traceless

/-
  Node identity

  An id is given to one node only, in a whole history: every tree that is built
  has ids that lie behind those of all earlier ones, whether or not it is run,
  and what a failing source used up is not given out again. So a recorded
  distance belongs to one node, and nothing that comes later takes its place
  (`ids_identify_nodes`).
-/

namespace Lox

open Eval

/-- The ids of the nodes of a tree at the top level. -/
def Task.ids : Task → List Nat
  | .expr e => e.ids
  | .stmts ss => Stmt.idsAll ss
  | _ => []

theorem Task.perm_ids : (t : Task) → (t.sites.map Site.id).Perm t.ids
  | .expr e => e.perm_ids [] .start
  | .stmts ss => Stmt.perm_idsAll [] ss .start
  | .items _ _ | .operands _ | .stmt _ | .loop _ _ _ | .call _ _ _ | .invoke _ _
  | .function _ _ => .nil

namespace Session

/-! ## Trees that are built -/

/-- The tree of a step that succeeds. -/
def built {α : Type} (tree : α → Task) : EStateM.Result (Halt RunError) Session α → Option Task
  | .ok a _ => some (tree a)
  | .error _ _ => none

/-- The tree that a request builds, unless its source has errors. -/
def tree? (s : Session) : Request → Option Task
  | .run source | .parseProgram source => built .stmts (parseProgram source s)
  | .evaluate source | .parseExpression source => built .expr (parseExpression source s)
  | .readExpression source => built .expr (readExpression source s)

/-- All trees that are built in a history. -/
def trees (rounds : Nat) : Session → List Request → List Task
  | _, [] => []
  | s, r :: rs => (s.tree? r).toList ++ trees rounds (s.perform rounds r).2 rs

variable {rounds : Nat} {r : Request} {s s₁ : Session} {t : Task}

/-- A step that parses leaves everything but the next id as it was. -/
theorem ok_of_parse {α : Type} {rule : List Token → Nat → Parse.Outcome α} {source : String}
    {tree : α} (h : parse rule source s = .ok tree s₁) :
    rule (tokens source) s.nextId = ⟨.ok tree, s₁.nextId⟩ ∧ s₁.machine = s.machine := by
  obtain ⟨tree', k, hl, hp⟩ | ⟨errors, h'⟩ := parse_cases rule source s
  · rw [parse_of_ok hl hp] at h
    cases h
    exact ⟨hp, rfl⟩
  · rw [h'] at h
    cases h

theorem ok_of_built {α : Type} {tree : α → Task}
    {result : EStateM.Result (Halt RunError) Session α} (h : built tree result = some t) : ∃ a s₁, result = .ok a s₁ ∧ t = tree a := by
  cases result with
  | ok a s₁ => exact ⟨a, s₁, rfl, (Option.some.inj h).symm⟩
  | error e s₁ => cases h

theorem ok_of_readExpression {source : String} {e : Expr}
    (h : readExpression source s = .ok e s₁) : Form.read source s.nextId = .ok (e, s₁.nextId) := by
  rw [readExpression] at h
  cases hread : Form.read source s.nextId with
  | error d => rw [hread] at h; cases h
  | ok found =>
    rw [hread] at h
    cases h
    rfl

theorem nextId_perform_run (rounds : Nat) (s : Session) (source : String) :
    (s.perform rounds (.run source)).2.nextId =
      (Parse.parseProgram (tokens source) s.nextId).nextId := by
  obtain ⟨_, _, rfl, -, h⟩ | ⟨_, _, _, -, hp, -, h⟩ | ⟨_, _, _, hb⟩ := run_cases rounds s source
  · rw [h]
  · rw [h, hp]
  · rw [hb.session_eq]
    generalize (⟨_, _⟩ : Session) = s₁ at hb
    cases hb with
    | run _ hp _ => rw [hp]

theorem nextId_perform_evaluate (rounds : Nat) (s : Session) (source : String) :
    (s.perform rounds (.evaluate source)).2.nextId =
      (Parse.parseExpression (tokens source) s.nextId).nextId := by
  obtain ⟨_, _, rfl, -, h⟩ | ⟨_, _, _, -, hp, -, h⟩ | ⟨_, _, _, hb⟩ :=
    evaluate_cases rounds s source
  · rw [h]
  · rw [h, hp]
  · rw [hb.session_eq]
    generalize (⟨_, _⟩ : Session) = s₁ at hb
    cases hb with
    | evaluate _ hp _ => rw [hp]

/-- A tree that is built has the ids that its request takes. -/
theorem fills_tree (rounds : Nat) (h : s.tree? r = some t) :
    Fills s.nextId (s.perform rounds r).2.nextId t.ids := by
  cases r with
  | run source =>
    obtain ⟨program, s₁, hparse, rfl⟩ := ok_of_built h
    obtain ⟨hp, -⟩ := ok_of_parse hparse
    rw [nextId_perform_run, hp]
    exact fills_of_parseProgram hp
  | evaluate source =>
    obtain ⟨e, s₁, hparse, rfl⟩ := ok_of_built h
    obtain ⟨hp, -⟩ := ok_of_parse hparse
    rw [nextId_perform_evaluate, hp]
    exact fills_of_parseExpression hp
  | parseProgram source =>
    obtain ⟨program, s₁, hparse, rfl⟩ := ok_of_built h
    rw [perform, hparse]
    exact fills_of_parseProgram (ok_of_parse hparse).1
  | parseExpression source =>
    obtain ⟨e, s₁, hparse, rfl⟩ := ok_of_built h
    rw [perform, hparse]
    exact fills_of_parseExpression (ok_of_parse hparse).1
  | readExpression source =>
    obtain ⟨e, s₁, hread, rfl⟩ := ok_of_built h
    rw [perform, hread]
    exact fills_of_read (ok_of_readExpression hread)

theorem nextId_le_perform (rounds : Nat) (s : Session) (r : Request) :
    s.nextId ≤ (s.perform rounds r).2.nextId := by
  obtain ⟨t, s₁, hb⟩ | ⟨a, k, h, hk, -⟩ := perform_cases rounds s r
  · rw [hb.session_eq]
    exact hb.nextId_le
  · rw [h]
    exact hk

theorem nextId_le_afterAll (rounds : Nat) (s : Session) (rs : List Request) :
    s.nextId ≤ (s.afterAll rounds rs).nextId := by
  induction rs generalizing s with
  | nil => exact Nat.le_refl _
  | cons r rs ih => exact Nat.le_trans (nextId_le_perform rounds s r) (ih _)

/-- No id is given to two nodes of a history, and all of them are behind those that
were given out before. -/
theorem ids_trees (rounds : Nat) (s : Session) (rs : List Request) :
    ((trees rounds s rs).flatMap Task.ids).Nodup ∧
      ∀ id ∈ (trees rounds s rs).flatMap Task.ids,
        s.nextId ≤ id ∧ id < (s.afterAll rounds rs).nextId := by
  induction rs generalizing s with
  | nil => exact ⟨List.nodup_nil, fun _ h => nomatch h⟩
  | cons r rs ih =>
    obtain ⟨hnodup, hbounds⟩ := ih (s.perform rounds r).2
    have hle := nextId_le_perform rounds s r
    rw [trees]
    cases htree : s.tree? r with
    | none =>
      exact ⟨hnodup, fun id hid => ⟨Nat.le_trans hle (hbounds id hid).1, (hbounds id hid).2⟩⟩
    | some t =>
      have hfills := fills_tree rounds htree
      rw [Option.toList_some, List.singleton_append, List.flatMap_cons]
      constructor
      · -- the ids of the tree lie below those of all later trees
        refine List.nodup_append.2 ⟨hfills.nodup, hnodup, ?_⟩
        rintro id hid _ hid' rfl
        exact absurd (hfills.mem_iff.1 hid).2 (Nat.not_lt.2 (hbounds id hid').1)
      · intro id hid
        obtain hid | hid := List.mem_append.1 hid
        · obtain ⟨hlow, hhigh⟩ := hfills.mem_iff.1 hid
          exact ⟨hlow, Nat.lt_of_lt_of_le hhigh (nextId_le_afterAll rounds _ rs)⟩
        · exact ⟨Nat.le_trans hle (hbounds id hid).1, (hbounds id hid).2⟩

/-! ## Distances that are recorded -/

/-- What is evaluated is the tree that was built. -/
theorem Begins.tree?_eq (h : Begins r s t s₁) : s.tree? r = some t := by
  cases h with
  | run hl hp _ => rw [tree?, parseProgram, parse_of_ok hl hp]; rfl
  | evaluate hl hp _ => rw [tree?, parseExpression, parse_of_ok hl hp]; rfl

/-- An id without a node in the tree keeps its distance, or its lack of one. -/
theorem Begins.distances_of_not_mem (h : Begins r s t s₁) {id : Nat} (hid : id ∉ t.ids) :
    s₁.machine.distances[id]? = s.machine.distances[id]? := by
  obtain ⟨-, -, -, hrecord⟩ := h.recorded
  have hnot : id ∉ t.sites.map Site.id := fun hm => hid (t.perm_ids.mem_iff.1 hm)
  rw [hrecord, Machine.getElem?_record, Site.getElem?_recordAll_of_not_mem hnot,
    Std.TreeMap.getElem?_emptyc, Option.none_or]

/-- A request adds distances of nodes of its tree, if any. -/
theorem distances_perform (rounds : Nat) (s : Session) (r : Request) {id d : Nat}
    (h : (s.perform rounds r).2.machine.distances[id]? = some d) :
    s.machine.distances[id]? = some d ∨ ∃ t, s.tree? r = some t ∧ id ∈ t.ids := by
  obtain ⟨t, s₁, hb⟩ | ⟨a, k, hs, -, -⟩ := perform_cases rounds s r
  · rw [hb.session_eq] at h
    have h : s₁.machine.distances[id]? = some d :=
      (congrArg (·[id]?) (t.steady_run rounds s₁.machine).distances).symm.trans h
    by_cases hid : id ∈ t.ids
    · exact .inr ⟨t, hb.tree?_eq, hid⟩
    · exact .inl ((hb.distances_of_not_mem hid).symm.trans h)
  · rw [hs] at h
    exact .inl h

theorem distances_afterAll (rounds : Nat) (s : Session) (rs : List Request) {id d : Nat}
    (h : (s.afterAll rounds rs).machine.distances[id]? = some d) :
    s.machine.distances[id]? = some d ∨ id ∈ (trees rounds s rs).flatMap Task.ids := by
  induction rs generalizing s with
  | nil => exact .inl h
  | cons r rs ih =>
    rw [trees, List.flatMap_append, List.mem_append]
    obtain hd | hid := ih _ h
    · obtain hold | ⟨t, htree, hid⟩ := distances_perform rounds s r hd
      · exact .inl hold
      · refine .inr (.inl ?_)
        rw [htree]
        exact List.mem_flatMap.2 ⟨t, .head _, hid⟩
    · exact .inr (.inr hid)

section Reachable

variable {sink : Sink} {clock : Clock} {rs : List Request}

/-- Only nodes that were built have distances. -/
theorem built_of_distance {id d : Nat}
    (h : ((start sink clock).afterAll rounds rs).machine.distances[id]? = some d) :
    id ∈ (trees rounds (start sink clock) rs).flatMap Task.ids := by
  obtain hstart | hid := distances_afterAll rounds _ rs h
  · have hnone : (start sink clock).machine.distances[id]? = none := Std.TreeMap.getElem?_emptyc
    rw [hnone] at hstart
    cases hstart
  · exact hid

theorem lt_nextId_of_distance {id d : Nat}
    (h : ((start sink clock).afterAll rounds rs).machine.distances[id]? = some d) :
    id < ((start sink clock).afterAll rounds rs).nextId :=
  ((ids_trees rounds (start sink clock) rs).2 id (built_of_distance h)).2

theorem unused_afterAll (id : Nat) (hid : ((start sink clock).afterAll rounds rs).nextId ≤ id) :
    ((start sink clock).afterAll rounds rs).machine.distances[id]? = none :=
  Option.eq_none_iff_forall_ne_some.2 fun _ hd =>
    absurd (lt_nextId_of_distance hd) (Nat.not_lt.2 hid)

/-- The nodes of a new tree have no distances yet. -/
theorem Begins.distances_new (h : Begins r ((start sink clock).afterAll rounds rs) t s₁) {id : Nat}
    (hid : id ∈ t.ids) : ((start sink clock).afterAll rounds rs).machine.distances[id]? = none := by
  obtain ⟨-, -, hfills, -⟩ := h.recorded
  exact unused_afterAll id ((hfills.of_perm t.perm_ids).mem_iff.1 hid).1

/-- A node that was given a distance keeps it. -/
theorem distances_kept {id d : Nat}
    (h : ((start sink clock).afterAll rounds rs).machine.distances[id]? = some d) (r : Request) :
    (((start sink clock).afterAll rounds rs).perform rounds r).2.machine.distances[id]? = some d := by
  obtain ⟨t, s₁, hb⟩ | ⟨a, k, hs, -, -⟩ :=
    perform_cases rounds ((start sink clock).afterAll rounds rs) r
  · rw [hb.session_eq]
    calc ((t.run rounds).after s₁.machine).distances[id]?
        = s₁.machine.distances[id]? := by rw [(t.steady_run rounds s₁.machine).distances]
      _ = ((start sink clock).afterAll rounds rs).machine.distances[id]? :=
        hb.distances_old (lt_nextId_of_distance h)
      _ = some d := h
  · rw [hs]
    exact h

/-- Every node of a new tree gets its own distance. -/
theorem Begins.distances_own (h : Begins r ((start sink clock).afterAll rounds rs) t s₁)
    {site : Site} (hsite : site ∈ t.sites) :
    s₁.machine.distances[site.id]? = Resolution.distance? site.scopes site.name := by
  obtain ⟨-, -, hfills, hrecord⟩ := h.recorded
  have hnew := h.distances_new (t.perm_ids.mem_iff.1 (List.mem_map_of_mem hsite))
  rw [hrecord, Machine.getElem?_record, hnew, Option.or_none]
  exact Site.getElem?_recordAll hfills.nodup hsite Std.TreeMap.getElem?_emptyc

end Reachable

/-- Ids identify nodes. The parser and the reader give each id between the first one
and the one they end with to one node, and a parse that fails does not go back. So in a
history no two nodes have the same id, whatever trees they belong to; only nodes that
were built have distances; and a new tree adds its own distances, beside those of all
earlier nodes, which stay. -/
theorem ids_identify_nodes :
    (∀ (tokens : List Token) (firstId : Nat),
      let outcome := Parse.parseProgram tokens firstId
      firstId ≤ outcome.nextId ∧ ∀ program, outcome.result = .ok program →
        Fills firstId outcome.nextId (Stmt.idsAll program)) ∧
    (∀ (tokens : List Token) (firstId : Nat),
      let outcome := Parse.parseExpression tokens firstId
      firstId ≤ outcome.nextId ∧ ∀ e, outcome.result = .ok e →
        Fills firstId outcome.nextId e.ids) ∧
    (∀ (source : String) (firstId nextId : Nat) (e : Expr),
      Form.read source firstId = .ok (e, nextId) → Fills firstId nextId e.ids) ∧
    ∀ (rounds : Nat) (sink : Sink) (clock : Clock) (rs : List Request),
      let s := (start sink clock).afterAll rounds rs
      let ids := (trees rounds (start sink clock) rs).flatMap Task.ids
      ids.Nodup ∧ (∀ id ∈ ids, id < s.nextId) ∧
      (∀ id d, s.machine.distances[id]? = some d → id ∈ ids ∧
        ∀ r, (s.perform rounds r).2.machine.distances[id]? = some d) ∧
      ∀ r t s₁, Begins r s t s₁ →
        s.tree? r = some t ∧ (t.sites.map Site.id).Perm t.ids ∧
        (∀ id ∈ t.ids, s.machine.distances[id]? = none) ∧
        (∀ id ∉ t.ids, s₁.machine.distances[id]? = s.machine.distances[id]?) ∧
        ∀ site ∈ t.sites,
          s₁.machine.distances[site.id]? = Resolution.distance? site.scopes site.name := by
  refine ⟨fun tokens n => ⟨nextId_le_parseProgram tokens n, fun program h => ?_⟩,
    fun tokens n => ⟨nextId_le_parseExpression tokens n, fun e h => ?_⟩,
    fun _ _ _ _ h => fills_of_read h, fun rounds sink clock rs => ?_⟩
  · exact @fills_of_parseProgram _ _ tokens program (by rw [← h])
  · exact @fills_of_parseExpression _ _ tokens e (by rw [← h])
  · -- each request goes on with the ids behind those of the trees before it
    obtain ⟨hnodup, hbounds⟩ := ids_trees rounds (start sink clock) rs
    refine ⟨hnodup, fun id hid => (hbounds id hid).2,
      fun id d hd => ⟨built_of_distance hd, distances_kept hd⟩, fun r t s₁ hb => ?_⟩
    exact ⟨hb.tree?_eq, t.perm_ids, fun _ => hb.distances_new, fun _ => hb.distances_of_not_mem,
      fun _ => hb.distances_own⟩

/-- The increment of a counting loop is written before the body and goes behind it. -/
theorem ids_identify_nodes_forLoop :
    let outcome := Parse.parseProgram (tokens "for (; a; b = c) d;") 7
    ∃ program, outcome.result = .ok program ∧ Stmt.idsAll program = [7, 10, 8, 9] ∧
      Fills 7 outcome.nextId (Stmt.idsAll program) := by
  have hparse : Parse.parseProgram (tokens "for (; a; b = c) d;") 7 =
      ⟨.ok [.loop (.var 7 ⟨.identifier, "a", 1⟩)
        (.block [.expression (.var 10 ⟨.identifier, "d", 1⟩), .expression
          (.assign 8 ⟨.identifier, "b", 1⟩ (.var 9 ⟨.identifier, "c", 1⟩))])], 11⟩ := by
    rw [tokens_eq]
    cbv
  have hok := congrArg Parse.Outcome.result hparse
  exact ⟨_, hok, rfl, (ids_identify_nodes.1 _ 7).2 _ hok⟩

end Session

end Lox
