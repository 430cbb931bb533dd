import Lox.Proofs.Scope.Waiting
import Lox.Proofs.Session.Scoping

/-
  Assignments to local variables

  A scope gets a name before the initializer of its declaration is read, and the
  frame gets it after the initializer was evaluated. In between an assignment to
  the name has a distance and nothing to assign to (`assign_in_own_initializer`).
  Everywhere else an assignment with a distance finds its variable, and changes
  nothing but that (`assign_finds_local`).
-/

namespace Lox

open Eval
open Resolution (distance?)

namespace Session

/-- `Runs rounds s rs program`: one of the requests begins to run this program. -/
inductive Runs (rounds : Nat) : Session → List Request → List Stmt → Prop
  | now {s s₁ : Session} {r : Request} {rs : List Request} {program : List Stmt} :
      Begins r s (.stmts program) s₁ → Runs rounds s (r :: rs) program
  | later {s : Session} {r : Request} {rs : List Request} {program : List Stmt} :
      Runs rounds (s.perform rounds r).2 rs program → Runs rounds s (r :: rs) program

/-- A single request runs at most one program. -/
theorem Runs.unique {rounds : Nat} {s s₁ : Session} {r : Request} {program other : List Stmt}
    (hb : Begins r s (.stmts program) s₁) (h : Runs rounds s [r] other) : other = program := by
  cases h with
  | now hb' =>
    cases (hb.unique hb').1
    rfl
  | later h => cases h

/-- A site that waits is in the initializer of its own name, in a program that runs. -/
theorem Accepts.initializes {rounds : Nat} {s : Session} {rs : List Request} {site : Site}
    (h : Accepts rounds s rs site) (hwaits : site.Waits) :
    ∃ program, Runs rounds s rs program ∧ Initializes program site.node site.name := by
  induction h with
  | @now s s₁ r rs t site hb hsite =>
    have hproper := hb.recorded.1
    cases t with
    | expr e => exact absurd hwaits (Sane.start.not_waits hsite)
    | stmts program =>
      have htop : ∀ s ∈ program, Stands program [] s := fun _ => .top
      exact ⟨program, .now hb, Stmt.initializesAll [] program .start htop .start
        (fun h => absurd rfl h) hproper site hsite hwaits⟩
    | _ => exact hproper.elim
  | later _ ih =>
    obtain ⟨program, hruns, hinitializes⟩ := ih hwaits
    exact ⟨program, .later hruns, hinitializes⟩

/-- Whenever a history comes to an assignment that has a distance, and that is not a part
of the initializer of its own variable, the frame at that distance binds the name. If there
is a value to assign, this binding becomes the value, every other binding of every frame
stays, and the assignment has that value. -/
theorem assign_finds_local {rounds : Nat} {sink : Sink} {clock : Clock} {rs : List Request}
    {id d : Nat} {name : Token} {value : Expr} {m : Machine}
    (h : Happens rounds (start sink clock) rs (.expr (.assign id name value)) m)
    (hd : m.distances[id]? = some d)
    (hown : ∀ program, Runs rounds (start sink clock) rs program →
      ¬Initializes program (.assign id name value) name.lexeme) :
    ∃ f, m.heap.ancestor? m.frame d = some f ∧ m.heap.Binds f name.lexeme ∧
      ∀ v m₁, Lox.evaluate rounds value m = .ok v m₁ →
        m₁.heap.ancestor? m₁.frame d = some f ∧
        Lox.evaluate rounds (.assign id name value) m =
          .ok v { m₁ with heap := m₁.heap.define f name.lexeme v } ∧
        ∀ g n, ((m₁.heap.define f name.lexeme v).bindings g).find? n =
          if g = f ∧ n = name.lexeme then some v else (m₁.heap.bindings g).find? n := by
  obtain ⟨ok, hok, hm⟩ := moment_of_happens h
  obtain ⟨site, hsite, hnode, rfl, hname, hfits⟩ := hm.good.site rfl
  obtain ⟨frames, hmatches⟩ := hfits.matches hm.good.heap.outermost (hm.distances site hsite)
  have hdistance : distance? site.scopes site.name = some d := hmatches.distance.symm.trans hd
  -- a variable that still waits for its value is that of an initializer around the assignment
  have hready : ¬site.Waits := by
    intro hwaits
    obtain ⟨program, hruns, hinitializes⟩ := (hok site hsite).initializes hwaits
    rw [hnode, hname] at hinitializes
    exact hown program hruns hinitializes
  have hknown : Known site.scopes site.name d :=
    known_of_ready (fun scope hscope hlookup => hready ⟨scope, hscope, hlookup⟩) hdistance
  obtain ⟨f, hf, hbinds, -⟩ := hmatches.known hfits hknown
  rw [hname] at hbinds
  refine ⟨f, hmatches.ancestors d f hf, hbinds, fun v m₁ hv => ?_⟩
  obtain ⟨hext, hdenotes, hassign⟩ := assign_of_value hm.good hm.depth hm.makes hmatches hfits rfl
    (hmatches.denotes_at hd hf) hv
  -- the value may change the heap, but the frame keeps what it binds
  have hlt : f < m.heap.frames.size := Heap.lt_size_of_binds hbinds
  obtain ⟨w, hw⟩ := Option.isSome_iff_exists.1 (hext.binds f hlt _ hbinds)
  refine ⟨?_, ?_, fun g n => ?_⟩
  · rwa [Machine.Denotes, ((steady_evaluate rounds value).of_ok hv).distances, hd] at hdenotes
  · rw [hassign, Machine.writeIn, hw]
  · rw [Heap.find?_define]
    have hlt₁ : f < m₁.heap.frames.size := Nat.lt_of_lt_of_le hlt hext.size
    by_cases hg : g = f
    · simp [hg, hlt₁]
    · simp [hg]

/-- A variable of a block, assigned to behind its declaration. -/
theorem assign_finds_local_block :
    let s := start .unlimited (.ticking 0)
    let rs := [.run "\x7b var a; a = nil; \x7d"]
    let name : Token := ⟨.identifier, "a", 1⟩
    ∃ m, Happens 0 s rs (.expr (.assign 0 name .nil)) m ∧ m.distances[0]? = some 0 ∧
      (∀ program, Runs 0 s rs program → ¬Initializes program (.assign 0 name .nil) "a") ∧
      ∃ f, m.heap.ancestor? m.frame 0 = some f ∧ m.heap.Binds f "a" ∧
        ∀ v m₁, Lox.evaluate 0 .nil m = .ok v m₁ →
          m₁.heap.ancestor? m₁.frame 0 = some f ∧
          Lox.evaluate 0 (.assign 0 name .nil) m =
            .ok v { m₁ with heap := m₁.heap.define f "a" v } ∧
          ∀ g n, ((m₁.heap.define f "a" v).bindings g).find? n =
            if g = f ∧ n = "a" then some v else (m₁.heap.bindings g).find? n := by
  intro s rs name
  let e := Expr.assign 0 name .nil
  let declaration : Stmt := .varDecl name none
  let program : List Stmt := [.block [declaration, .expression e]]
  obtain ⟨s₁, hb, hd⟩ : ∃ s₁, Begins (.run "\x7b var a; a = nil; \x7d") s (.stmts program) s₁ ∧
      s₁.machine.distances[0]? = some 0 := ⟨_, .run_of_spans (by cbv) (by cbv) rfl, by cbv⟩
  obtain ⟨m, hrun⟩ : ∃ m, execute 0 declaration (s₁.machine.inNewFrame s₁.machine.frame []) =
    .ok .normal m := ⟨_, rfl⟩
  have hreach : Reaches 0 (.stmts program) s₁.machine _ (.expr e) m :=
    .step .first (.step .block (.step (.more hrun) (.step .first (.step .expression .here))))
  have h : Happens 0 s rs (.expr e) m := .now ⟨_, _, hb, hreach⟩
  have hdistance : m.distances[0]? = some 0 := hreach.sameRecords.distances ▸ hd
  have hstands : ∀ path s, Stands program path s →
      s ∈ [.block [declaration, .expression e], declaration, .expression e] := by
    intro path s hs
    induction hs with
    | top hs => exact List.mem_append_left _ hs
    | block _ hs ih =>
      obtain rfl : _ = [declaration, .expression e] := by simpa [declaration] using ih
      exact .tail _ hs
    | _ => simp_all [declaration]
  have hown : ∀ other, Runs 0 s rs other → ¬Initializes other e "a" := by
    rintro other hruns ⟨path, declared, initial, hs, -⟩
    obtain rfl := hruns.unique hb
    simpa [declaration] using hstands _ _ hs
  exact ⟨m, h, hdistance, hown, assign_finds_local h hdistance hown⟩

/-- In the initializer of its own variable an assignment is accepted, gets the distance of
the scope around it, and does not find the variable there. -/
theorem assign_in_own_initializer :
    let s := start .unlimited (.ticking 0)
    let rs := [.run "\x7b var a = (a = true); print a; \x7d"]
    let name : Token := ⟨.identifier, "a", 1⟩
    let e := Expr.assign 0 name (.boolean true)
    ∃ m, Happens 0 s rs (.expr e) m ∧ m.distances[0]? = some 0 ∧
      Lox.evaluate 0 (.boolean true) m = .ok (.boolean true) m ∧
      Lox.evaluate 0 e m = .error (.error (.program 1 (.undefinedVariable "a"))) m ∧
      (s.perform 0 (.run "\x7b var a = (a = true); print a; \x7d")).1 =
        .failed (.failed (.program 1 (.undefinedVariable "a"))) := by
  intro s rs name e
  let declaration : Stmt := .varDecl name (some (.group e))
  let program : List Stmt := [.block [declaration, .print (.var 1 name)]]
  -- the block has a frame of its own, which does not bind the variable yet
  obtain ⟨s₁, hb, hd, hassign, m', hrun⟩ : ∃ s₁,
      Begins (.run "\x7b var a = (a = true); print a; \x7d") s (.stmts program) s₁ ∧
      s₁.machine.distances[0]? = some 0 ∧
      Lox.evaluate 0 e (s₁.machine.inNewFrame s₁.machine.frame []) =
        .error (.error (.program 1 (.undefinedVariable "a")))
          (s₁.machine.inNewFrame s₁.machine.frame []) ∧
      ∃ m', (Task.stmts program).run 0 s₁.machine =
        .error (.error (.program 1 (.undefinedVariable "a"))) m' :=
    ⟨_, .run_of_spans (by cbv) (by cbv) rfl, by cbv, rfl, _, rfl⟩
  have hreach : Reaches 0 (.stmts program) s₁.machine _ (.expr e)
      (s₁.machine.inNewFrame s₁.machine.frame []) :=
    .step .first (.step .block (.step .first (.step .initial (.step .group .here))))
  refine ⟨_, .now ⟨_, _, hb, hreach⟩, hreach.sameRecords.distances ▸ hd, rfl, hassign, ?_⟩
  rw [hb.perform_of_error hrun]
  rfl

end Session
end Lox
