import Lox.Proofs.Session.Discipline
import Lox.Proofs.Session.Scoping

/-
  What programs fail with

  Operators of accepted programs are operators, and a `super` always finds its
  class and its object. So a run never ends with an error of the evaluator's own:
  it ends with one of the documented messages (`problems_documented`), or the host
  fails.
-/

namespace Lox

open Eval
open RuntimeProblem (ofOperands)

namespace RuntimeProblem

/-- Problems that only a broken evaluation could have. -/
def Internal : RuntimeProblem → Prop
  | invalidUnary _ | invalidBinary _ | unresolvedSuper => True
  | _ => False

end RuntimeProblem

/-- The messages that programs can fail with. -/
inductive DocumentedMessage : String → Prop
  | operand : DocumentedMessage "Operand must be a number."
  | operands : DocumentedMessage "Operands must be numbers."
  | addition : DocumentedMessage "Operands must be two numbers or a string."
  | division : DocumentedMessage "Division by zero."
  | variable (name : String) : DocumentedMessage ("Undefined variable '" ++ name ++ "'.")
  | call : DocumentedMessage "Can only call functions and classes."
  | arguments (expected got : Nat) : DocumentedMessage
      ("Expected " ++ toString expected ++ " arguments but got " ++ toString got ++ ".")
  | properties : DocumentedMessage "Only instances have properties."
  | fields : DocumentedMessage "Only instances have fields."
  | property (name : String) : DocumentedMessage ("Undefined property '" ++ name ++ "'.")
  | superclass : DocumentedMessage "Superclass must be a class."
  | overflow : DocumentedMessage "Stack overflow."

theorem RuntimeProblem.documented_of_not_internal {problem : RuntimeProblem}
    (h : ¬problem.Internal) : DocumentedMessage problem.message := by
  cases problem with
  | invalidUnary _ | invalidBinary _ | unresolvedSuper => exact absurd trivial h
  | _ => constructor

theorem RuntimeProblem.not_internal_of_mem_ofOperands {problem : RuntimeProblem}
    (h : problem ∈ ofOperands) : ¬problem.Internal := by
  simp only [ofOperands, List.mem_cons, List.not_mem_nil, or_false] at h
  obtain rfl | rfl | rfl | rfl := h <;> exact id

variable {ok : Site → Prop} {made : FrameId → Opener → Prop} {rounds : Nat} {t : Task} {m : Machine}

namespace Session

theorem Moment.super?_ne_none {id : Nat} {keyword method : Token}
    (hm : Moment ok made rounds (.expr (.super id keyword method)) m) : m.super? id ≠ none := by
  obtain ⟨site, hsite, hnode, hid, hname, hfits⟩ := hm.good.site rfl
  obtain ⟨frames, hmatches⟩ := hfits.matches hm.good.heap.outermost (hm.distances site hsite)
  obtain ⟨d, f, g, i, superclass, object, c, -, -, -, -, -, -, hfound⟩ :=
    hmatches.super hfits (hm.fine site hsite) hnode (hname.trans hm.good.settled.1)
  rw [← hid, hfound]
  exact Option.some_ne_none _

/-- Nothing internal is raised at a good moment. -/
theorem Moment.not_internal (hm : Moment ok made rounds t m) {line : Nat}
    {problem : RuntimeProblem} (h : Raises rounds t m (.program line problem)) :
    ¬problem.Internal := by
  generalize he : Halt.program line problem = e at h
  cases h with
  -- an operator of a tree that was parsed is one that the evaluator knows
  | unary _ hp =>
    cases he
    obtain h | ⟨h, -⟩ := Value.problem_of_unary hp
    · exact RuntimeProblem.not_internal_of_mem_ofOperands h
    · exact absurd hm.good.settled.1.1 h
  | binary _ _ hp =>
    cases he
    obtain h | ⟨h, -⟩ := Value.problem_of_binary hp
    · exact RuntimeProblem.not_internal_of_mem_ofOperands h
    · exact absurd hm.good.settled.1.1 h
  -- an accepted `super` has a distance
  | unresolvedSuper h => exact absurd h hm.super?_ne_none
  | baseClass h | derivedClass _ h =>
    subst he
    cases error_of_declareClass h
    exact id
  | rounds | sink _ _ => cases he
  | _ =>
    cases he
    exact id

/-- What happens after some requests happens in the whole history. -/
theorem happens_append {s : Session} {rs more : List Request}
    (h : Happens rounds (s.afterAll rounds rs) more t m) : Happens rounds s (rs ++ more) t m := by
  induction rs generalizing s with
  | nil => exact h
  | cons r rs ih => exact .later (ih h)

/-- A failed request of a history has come to what raised its error. -/
theorem raised_of_failed {sink : Sink} {clock : Clock} {rs : List Request} {r : Request}
    {line : Nat} {problem : RuntimeProblem}
    (h : (((start sink clock).afterAll rounds rs).perform rounds r).1 =
      .failed (.failed (.program line problem))) :
    ∃ t m, Happens rounds (start sink clock) (rs ++ [r]) t m ∧
      Raises rounds t m (.program line problem) := by
  obtain ⟨t₀, s₁, hb⟩ | ⟨a, k, hp, -, hquiet⟩ :=
    perform_cases rounds ((start sink clock).afterAll rounds rs) r
  · have hdepth : s₁.machine.depth ≤ maxCallDepth := by
      rw [hb.samePlace.2, (samePlace_afterAll rounds rs (start sink clock)).2]
      exact Nat.zero_le _
    obtain ⟨n, t, m, hreach, hraises⟩ := (fails_iff hdepth).1 (hb.failed_iff.1 h)
    exact ⟨t, m, happens_append (.now ⟨t₀, s₁, hb, hreach⟩), hraises⟩
  · obtain rfl : a = _ := (congrArg Prod.fst hp).symm.trans h
    exact absurd hquiet id

/-- Internal problems are raised nowhere in a history; so an error that one of its
requests ends with is a fault of the host, or has one of the documented messages. -/
theorem problems_documented {rounds : Nat} {sink : Sink} {clock : Clock} :
    (∀ rs t m line problem, Happens rounds (start sink clock) rs t m →
      Raises rounds t m (.program line problem) → ¬problem.Internal) ∧
    ∀ rs r e, (((start sink clock).afterAll rounds rs).perform rounds r).1 = .failed (.failed e) →
      (∃ problem, e = .host problem) ∨
        ∃ line problem, e = .program line problem ∧ DocumentedMessage problem.message ∧
          ¬problem.Internal := by
  have hnever : ∀ rs t m line problem, Happens rounds (start sink clock) rs t m →
      Raises rounds t m (.program line problem) → ¬problem.Internal := by
    intro rs t m line problem h hraises
    obtain ⟨ok, -, hm⟩ := moment_of_happens h
    exact hm.not_internal hraises
  refine ⟨hnever, fun rs r e h => ?_⟩
  cases e with
  | host problem => exact .inl ⟨problem, rfl⟩
  | program line problem =>
    obtain ⟨t, m, hhappens, hraises⟩ := raised_of_failed h
    have hinternal := hnever _ t m line problem hhappens hraises
    exact .inr ⟨line, problem, rfl, RuntimeProblem.documented_of_not_internal hinternal, hinternal⟩

/-- What cannot be negated. -/
theorem problems_documented_negation :
    ((start .unlimited (.ticking 0)).perform 0 (.run "-nil;")).1 =
        .failed (.failed (.program 1 .operandNotNumber)) ∧
      DocumentedMessage RuntimeProblem.operandNotNumber.message := by
  let s := start .unlimited (.ticking 0)
  obtain ⟨s₁, hb⟩ : ∃ s₁, Begins (.run "-nil;") s
      (.stmts [.expression (.unary ⟨.minus, "-", 1⟩ .nil)]) s₁ := ⟨_, .run_of_spans (by cbv) (by cbv) rfl⟩
  have h : s.perform 0 (.run "-nil;") = (halted (.program 1 .operandNotNumber), _) :=
    hb.perform_of_error rfl
  have hfailed : (s.perform 0 (.run "-nil;")).1 =
    .failed (.failed (.program 1 .operandNotNumber)) := congrArg Prod.fst h
  obtain ⟨_, hhost⟩ | ⟨_, _, he, hdocumented, -⟩ := problems_documented.2 [] _ _ hfailed
  · cases hhost
  · cases he
    exact ⟨hfailed, hdocumented⟩

end Session
end Lox
