import Lox.Proofs.Eval.Renamed
import Lox.Proofs.Scope.Renamed
import Lox.Proofs.Scope.Verdict
import Lox.Proofs.Session.Identity
import Lox.Proofs.Session.Moments

/-
  Programs with a renamed variable

  In an accepted program the names of a scope are distinct, and the recorded distances
  are those of its nodes; so renaming a local variable keeps what the resolver does.
  What a session holds before the program is run lies outside the scope of the variable,
  and is the same after the renaming. Hence the program and the renamed program go
  through the same steps from there (`rename_local`).
-/

namespace Lox

open Eval
open Renaming (Inside)

variable {R : Renaming} {ok : Site → Prop} {made : FrameId → Opener → Prop} {h : Heap}

/-! ## What is there before the program -/

open Classical in
/-- Frames that fit some scopes lie outside the scope of the variable. -/
noncomputable def Heap.marks (made : FrameId → Opener → Prop) (h : Heap) : Marks := fun f =>
  if ∃ os scopes, Fits made h f os scopes then some none else none

theorem Fits.mark {f : FrameId} {os : List Opener} {scopes : List Scope}
    (hfits : Fits made h f os scopes) : h.marks made f = some none := if_pos ⟨os, scopes, hfits⟩

theorem Heap.fits_of_mark {f : FrameId} {away : Option Nat} (hf : h.marks made f = some away) :
    away = none ∧ ∃ os scopes, Fits made h f os scopes := by
  unfold Heap.marks at hf
  split at hf
  · rename_i hfits
    exact ⟨(Option.some.inj hf).symm, hfits⟩
  · cases hf

theorem Closure.Renamed.self (c : Closure) (hc : c.declaration.Proper) : c.Renamed R none c :=
  ⟨rfl, rfl, none, .inl rfl, Function.renamed_self hc⟩

theorem Class.Fitted.renamed {c : Class} (hc : c.Fitted ok made h) :
    c.Renamed R (h.marks made) c := by
  refine ⟨rfl, fun n => rel_self_of fun method hm => ?_⟩
  obtain ⟨hproper, _, _, _, _, -, hfits, -⟩ := hc.methods n method hm
  exact ⟨none, hfits.mark, .self method hproper⟩

theorem Value.Fitted.renamed {v : Value} (hv : v.Fitted ok made h) :
    v.Renamed R (h.marks made) v := by
  cases v with
  | function id closure =>
    obtain ⟨hproper, _, _, _, hfits, -⟩ : closure.Fitted ok made h := hv
    exact .function ⟨none, hfits.mark, .self closure hproper⟩
  | cls id c => exact .cls (Class.Fitted.renamed hv)
  | object id c => exact .object (Class.Fitted.renamed hv)
  | _ => constructor

/-- A heap that fits stands for itself. -/
theorem Heap.Fitted.renamed (hh : h.Fitted ok made) : h.Renamed R (h.marks made) h where
  size := rfl
  enclosing _ := rfl
  global := Fits.global.mark
  known f away hf := by
    obtain ⟨-, _, _, hfits⟩ := fits_of_mark hf
    exact hfits.lt_size hh.global
  -- a marked frame fits some scopes, and the frame around it fits the outer ones
  inside f inner e hf he := by
    obtain ⟨rfl, _, _, hfits⟩ := fits_of_mark hf
    cases hfits with
    | global =>
      rw [hh.outermost] at he
      cases he
    | inner _ he' _ _ _ _ _ _ houter =>
      cases he.symm.trans he'
      exact ⟨none, houter.mark, .inl rfl⟩
  bindings f away n hf := by
    obtain ⟨rfl, -⟩ := fits_of_mark hf
    rw [R.name_none]
    exact rel_self_of fun v hv => (hh.bindings f n v hv).renamed
  objects := rfl
  fields o n := rel_self_of fun v hv => (hh.fields o n v hv).renamed
  identity := rfl

namespace Session

/-- So does the machine of a sound session. -/
theorem Sound.renamed {s : Session} (hs : Sound ok made s)
    (hR : R.distances = s.machine.distances) :
    s.machine.Renamed R (s.machine.heap.marks made) none s.machine where
  heap := hs.heap.renamed
  place := by
    rw [hs.frame]
    exact Fits.global.mark
  frame := rfl
  depth := rfl
  recorded := hR.symm
  distances := rfl
  sink := rfl
  clock := rfl
  readings := rfl

end Session

/-! ## The program -/

/-- Renaming a local variable of an accepted program renames the parts of the program. -/
theorem Stmt.AllRenames.renamed_of_accepted {program program' : List Stmt}
    (hrenames : Stmt.AllRenames R program program') (hproper : Stmt.AllProper program)
    (havoids : Stmt.AllAvoid R.new program)
    (herrors : (Stmt.resolveAll program .start).errors = []) :
    Stmt.AllRenamed R none program program' :=
  hrenames.renamed (fun _ hshares => hshares.nodup herrors) hproper havoids
    fun _ hs => ⟨[], .top hs⟩

/-- The renamed program is resolved like the program. -/
theorem Stmt.AllRenamed.resolveProgram_eq {program program' : List Stmt} {distances : Distances}
    (hrenamed : Stmt.AllRenamed R none program program')
    (hfollows : R.Follows (Stmt.sitesAll [] program .start))
    (hr : resolveProgram program = .ok distances) : resolveProgram program' = .ok distances := by
  obtain ⟨herrors, rfl⟩ := Resolution.of_result hr
  have hwalk := hrenamed.resolve [] hfollows ⟨.outside, rfl, rfl, rfl, rfl⟩
  have herrors' : (Stmt.resolveAll program' .start).errors = [] :=
    List.length_eq_zero_iff.1 (hwalk.errors.trans (congrArg List.length herrors))
  rw [resolveProgram, Resolution.result, herrors', hwalk.distances]
  rfl

/-- Ends of two runs that look the same: both succeed, or both halt for the same reason,
up to the name of an undefined variable, and the same was printed. -/
inductive SameEnd (R : Renaming) : EStateM.Result (Halt RuntimeError) Machine Unit →
    EStateM.Result (Halt RuntimeError) Machine Unit → Prop
  | finished {m m' : Machine} : m'.sink = m.sink → SameEnd R (.ok () m) (.ok () m')
  | halted {e e' : Halt RuntimeError} {m m' : Machine} : e.Renamed R e' → m'.sink = m.sink →
      SameEnd R (.error e m) (.error e' m')

theorem EndRenamed.sameEnd {W : Marks} {away : Option Nat} {Q : Marks → Unit → Unit → Prop}
    {r r' : EStateM.Result (Halt RuntimeError) Machine Unit} (h : EndRenamed R W away Q r r') :
    SameEnd R r r' := by
  cases h with
  | ok _ _ hm => exact .finished hm.sink
  | error _ he hm => exact .halted he hm.sink

namespace Session

variable {sink : Sink} {clock : Clock} {rounds : Nat} {rs : List Request}

/-- Renaming a local variable changes nothing. Whatever was performed before, take a
program that is accepted, a variable or parameter that one of its inner scopes declares,
and a name that nothing in the program is called. The variable can be renamed, and with
the name in its declaration and at exactly the nodes whose distances lead to it, the
program is accepted with the same distances; and from the same state it prints the same,
and succeeds or halts for the same reason, up to the name where an undefined variable is
reported. The new name may even be that of a global variable, as only other programs can
use it. -/
theorem rename_local {source : String} {program : List Stmt} {s₁ : Session}
    (hb : Begins (.run source) ((start sink clock).afterAll rounds rs) (.stmts program) s₁)
    (hR : R.distances = s₁.machine.distances) (havoids : Stmt.AllAvoid R.new program) :
    (DeclaresLocal program R.old → ∃ program', Stmt.AllRenames R program program') ∧
    ∀ program', Stmt.AllRenames R program program' →
      (∃ distances, resolveProgram program = .ok distances ∧
        resolveProgram program' = .ok distances ∧
        s₁.machine = ((start sink clock).afterAll rounds rs).machine.record distances) ∧
      ∀ n, SameEnd R (interpret n program s₁.machine) (interpret n program' s₁.machine) := by
  refine ⟨DeclaresLocal.exists_renames, fun program' hrenames => ?_⟩
  obtain ⟨distances, hr, hrecord⟩ : ∃ distances, resolveProgram program = .ok distances ∧
      s₁.machine = ((start sink clock).afterAll rounds rs).machine.record distances := by
    cases hb with
    | run _ _ hr => exact ⟨_, hr, rfl⟩
  have hrenamed := hrenames.renamed_of_accepted hb.recorded.1 havoids (Resolution.of_result hr).1
  have hfollows : R.Follows (Stmt.sitesAll [] program .start) := fun site hsite => by
    rw [hR]
    exact hb.distances_own hsite
  refine ⟨⟨distances, hr, hrenamed.resolveProgram_eq hfollows hr, hrecord⟩, fun n => ?_⟩
  -- what was there before stands for itself
  obtain ⟨⟨ok, hsound⟩, -⟩ := (sound_start sink clock).afterAll_grown
    fun _ _ (h : Made rounds _ rs _ _) => h
  exact (hrenamed.interpret n _ _ ((hsound.begins hb).renamed hR)).sameEnd

/-- A variable of a block is renamed, and the one that shadows it is not. -/
theorem rename_local_shadowed :
    let s := start .unlimited (.ticking 0)
    let a : Token := ⟨.identifier, "a", 1⟩
    let b : Token := ⟨.identifier, "b", 1⟩
    let shadowed : Stmt := .block [.varDecl a none, .expression (.assign 0 a .nil)]
    let program : List Stmt := [.block [.varDecl a none, shadowed, .expression (.var 1 a)]]
    let program' : List Stmt := [.block [.varDecl b none, shadowed, .expression (.var 1 b)]]
    ∃ s₁ R, Begins (.run "\x7b var a; \x7b var a; a = nil; \x7d a; \x7d") s (.stmts program) s₁ ∧
      R.distances = s₁.machine.distances ∧ R.old = "a" ∧ R.new = "b" ∧
      Stmt.AllAvoid R.new program ∧ Stmt.AllRenames R program program' ∧
      (∃ distances, resolveProgram program = .ok distances ∧
        resolveProgram program' = .ok distances ∧ s₁.machine = s.machine.record distances) ∧
      ∀ n, SameEnd R (interpret n program s₁.machine) (interpret n program' s₁.machine) := by
  intro s a b shadowed program program'
  obtain ⟨s₁, hb, h₀, h₁⟩ : ∃ s₁, Begins (.run "\x7b var a; \x7b var a; a = nil; \x7d a; \x7d") s
      (.stmts program) s₁ ∧ s₁.machine.distances[0]? = some 0 ∧
      s₁.machine.distances[1]? = some 0 := ⟨_, .run_of_spans (by cbv) (by cbv) rfl, by cbv, by cbv⟩
  let R : Renaming := ⟨s₁.machine.distances, "a", "b", by unfold Heap.Reserved; decide,
    by unfold Heap.Reserved; decide⟩
  have havoids : Stmt.AllAvoid "b" program := by
    simp [program, shadowed, a, Stmt.AllAvoid, Stmt.Avoids, Expr.Avoids]
  have hrenames : Stmt.AllRenames R program program' := by
    have hhere : Stmt.AllRenames R program [.block (Stmt.renameAll R (some 0) _)] :=
      .head (.here ⟨a, none, .head _, rfl⟩)
    -- the outer block is renamed throughout, up to the inner declaration
    have hnew : Stmt.renameAll R (some 0)
        [.varDecl a none, shadowed, .expression (.var 1 a)] =
        [.varDecl b none, shadowed, .expression (.var 1 b)] := by
      simp [Stmt.renameAll, Stmt.rename, Expr.rename, Renaming.declare, Renaming.use, R, shadowed,
        a, b, h₀, h₁]
    rwa [hnew] at hhere
  exact ⟨s₁, R, hb, rfl, rfl, rfl, havoids, hrenames,
    (@rename_local R .unlimited (.ticking 0) 0 [] _ _ _ hb rfl havoids).2 program' hrenames⟩

end Session

end Lox
