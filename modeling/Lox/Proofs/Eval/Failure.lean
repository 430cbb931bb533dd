import Lox.Proofs.Eval.Reach

/-
  Failures — where an error comes from

  `Raises` lists the tasks that fail by themselves: after all that they enter
  has gone well. An evaluation fails with an error exactly if it reaches a task
  that raises the error (`fails_iff`), so whatever is known of the tasks that
  are reached bounds the errors that can come out.
-/

namespace Lox

open Eval

/-- An error of the program. -/
abbrev Halt.program (line : Nat) (problem : RuntimeProblem) : Halt RuntimeError :=
  .error (.program line problem)

/-- `Raises rounds t m e`: begun with the machine `m`, the task `t` itself fails with `e`. -/
inductive Raises (rounds : Nat) : Task → Machine → Halt RuntimeError → Prop
  | rounds {condition : Expr} {body : Stmt} {m : Machine} :
      Raises rounds (.loop condition body 0) m .outOfFuel
  | unary {operator : Token} {operand : Expr} {m m₁ : Machine} {v : Value}
      {problem : RuntimeProblem} :
      evaluate rounds operand m = .ok v m₁ → v.unary operator = .error problem →
      Raises rounds (.expr (.unary operator operand)) m (.program operator.line problem)
  | binary {operator : Token} {left right : Expr} {m m₁ m₂ : Machine} {a b : Value}
      {problem : RuntimeProblem} :
      evaluate rounds left m = .ok a m₁ → evaluate rounds right m₁ = .ok b m₂ →
      a.binary operator b = .error problem →
      Raises rounds (.expr (.binary left operator right)) m (.program operator.line problem)
  | undefined {id : Nat} {name : Token} {m : Machine} :
      m.lookup? id name.lexeme = none →
      Raises rounds (.expr (.var id name)) m (.program name.line (.undefinedVariable name.lexeme))
  | undefinedSelf {id : Nat} {keyword : Token} {m : Machine} :
      m.lookup? id keyword.lexeme = none →
      Raises rounds (.expr (.self id keyword)) m
        (.program keyword.line (.undefinedVariable keyword.lexeme))
  | unassigned {id : Nat} {name : Token} {value : Expr} {m m₁ : Machine} {v : Value} :
      evaluate rounds value m = .ok v m₁ → m₁.holder? id name.lexeme = none →
      Raises rounds (.expr (.assign id name value)) m
        (.program name.line (.undefinedVariable name.lexeme))
  | noProperties {object : Expr} {name : Token} {m m₁ : Machine} {v : Value} :
      evaluate rounds object m = .ok v m₁ → (∀ id c, v ≠ .object id c) →
      Raises rounds (.expr (.get object name)) m (.program name.line .noProperties)
  | property {object : Expr} {name : Token} {m m₁ : Machine} {id : Nat} {c : Class} :
      evaluate rounds object m = .ok (.object id c) m₁ →
      (m₁.heap.fields id).find? name.lexeme = none → c.findMethod? name.lexeme = none →
      Raises rounds (.expr (.get object name)) m
        (.program name.line (.undefinedProperty name.lexeme))
  | noFields {object value : Expr} {name : Token} {m m₁ : Machine} {v : Value} :
      evaluate rounds object m = .ok v m₁ → (∀ id c, v ≠ .object id c) →
      Raises rounds (.expr (.set object name value)) m (.program name.line .noFields)
  | superProperty {id object : Nat} {keyword method : Token} {m : Machine}
      {superclass c : Class} :
      m.super? id = some (superclass, object, c) → superclass.findMethod? method.lexeme = none →
      Raises rounds (.expr (.super id keyword method)) m
        (.program method.line (.undefinedProperty method.lexeme))
  | unresolvedSuper {id : Nat} {keyword method : Token} {m : Machine} :
      m.super? id = none →
      Raises rounds (.expr (.super id keyword method)) m (.program keyword.line .unresolvedSuper)
  | notCallable {paren : Token} {callee : Value} {arguments : List Value} {m : Machine} :
      callee.arity? = none →
      Raises rounds (.call paren callee arguments) m (.program paren.line .notCallable)
  | arity {paren : Token} {callee : Value} {arguments : List Value} {m : Machine} {arity : Nat} :
      callee.arity? = some arity → arguments.length ≠ arity →
      Raises rounds (.call paren callee arguments) m
        (.program paren.line (.wrongArity arity arguments.length))
  | overflow {paren : Token} {callee : Value} {arguments : List Value} {m : Machine} :
      callee.arity? = some arguments.length → maxCallDepth ≤ m.depth →
      Raises rounds (.call paren callee arguments) m (.program paren.line .stackOverflow)
  | sink {e : Expr} {m m₁ : Machine} {v : Value} :
      evaluate rounds e m = .ok v m₁ → (m₁.sink.write (v.display ++ "\n")).1 = false →
      Raises rounds (.stmt (.print e)) m (.error (.host .sinkFull))
  | superclass {name : Token} {superclass : Expr} {methods : List Function} {m m₁ : Machine}
      {v : Value} :
      evaluate rounds superclass { m with heap := m.heap.define m.frame name.lexeme .nil } =
        .ok v m₁ →
      (∀ id c, v ≠ .cls id c) →
      Raises rounds (.stmt (.classDecl name (some superclass) methods)) m
        (.program (superclass.line?.getD name.line) .superclassNotClass)
  | baseClass {name : Token} {methods : List Function} {m m₁ : Machine}
      {e : Halt RuntimeError} :
      declareClass name methods none { m with heap := m.heap.define m.frame name.lexeme .nil } =
        .error e m₁ →
      Raises rounds (.stmt (.classDecl name none methods)) m e
  | derivedClass {name : Token} {superclass : Expr} {methods : List Function}
      {m m₁ m₂ : Machine} {id : Nat} {c : Class} {e : Halt RuntimeError} :
      evaluate rounds superclass { m with heap := m.heap.define m.frame name.lexeme .nil } =
        .ok (.cls id c) m₁ →
      declareClass name methods (some (id, c)) m₁ = .error e m₂ →
      Raises rounds (.stmt (.classDecl name (some superclass) methods)) m e

namespace Eval

theorem ofExcept_of_error {α : Type} {line : Nat} {r : Except RuntimeProblem α}
    {problem : RuntimeProblem} (h : r = .error problem) (m : Machine) :
    Eval.ofExcept line r m = .error (.program line problem) m := by
  rw [h]
  rfl

/-- A computation without effects fails where it stands. -/
theorem error_of_ofExcept {α : Type} {line : Nat} {r : Except RuntimeProblem α} {m m' : Machine}
    {e : Halt RuntimeError} (h : Eval.ofExcept line r m = .error e m') :
    ∃ problem, r = .error problem ∧ e = .program line problem := by
  cases r with
  | ok a => cases h
  | error problem =>
    cases h
    exact ⟨problem, rfl, rfl⟩

theorem print_of_false {text : String} {m : Machine} (h : (m.sink.write text).1 = false) :
    Eval.print text m =
      .error (.error (.host .sinkFull)) { m with sink := (m.sink.write text).2 } := by
  have hp : Eval.print text m = if (m.sink.write text).1 = true
    then .ok () { m with sink := (m.sink.write text).2 }
    else .error (.error (.host .sinkFull)) { m with sink := (m.sink.write text).2 } := rfl
  rw [hp, if_neg (by simp [h])]

theorem print_of_true {text : String} {m : Machine} (h : (m.sink.write text).1 = true) :
    Eval.print text m = .ok () { m with sink := (m.sink.write text).2 } := by
  have hp : Eval.print text m = if (m.sink.write text).1 = true
    then .ok () { m with sink := (m.sink.write text).2 }
    else .error (.error (.host .sinkFull)) { m with sink := (m.sink.write text).2 } := rfl
  rw [hp, if_pos h]

/-- Assigning fails if no frame of the chain has the name. -/
theorem error_of_assign {name : Token} {v : Value} {m m' : Machine} {e : Halt RuntimeError}
    (h : assign name v m = .error e m') :
    e = .program name.line (.undefinedVariable name.lexeme) := by
  rw [assign] at h
  cases hh : m.heap.holder? m.frame name.lexeme with
  | none =>
    rw [hh] at h
    cases h
    rfl
  | some f =>
    rw [hh] at h
    cases h

/-- The one thing that can go wrong with a class whose superclass is one. -/
theorem error_of_declareClass {name : Token} {methods : List Function}
    {c : Option (Nat × Class)} {m m' : Machine} {e : Halt RuntimeError}
    (h : declareClass name methods c m = .error e m') :
    e = .program name.line (.undefinedVariable name.lexeme) := by
  cases c with
  | none => exact error_of_assign (m := { m with heap := m.heap.newIdentity.2 }) h
  | some c =>
    let m₁ : Machine := { m with heap := (m.heap.newFrame (some m.frame)).2 }
    let m₂ : Machine :=
      { m₁ with heap := m₁.heap.define m.heap.frames.size superName (.cls c.1 c.2) }
    exact error_of_assign (m := { m₂ with heap := m₂.heap.newIdentity.2 }) h

theorem boundMethod_ne_error {method : Closure} {object : Nat} {c : Class} {m m' : Machine}
    {e : Halt RuntimeError} : boundMethod method object c m ≠ .error e m' := by
  intro h
  cases h

end Eval

variable {rounds : Nat} {t : Task} {m : Machine} {e : Halt RuntimeError}

/-- What is raised is an error of the task. -/
theorem Raises.fails (h : Raises rounds t m e) : Fails rounds t m e := by
  cases h with
  | rounds => exact ⟨m, rfl⟩
  | unary h hp => exact ⟨_, (bind_of_ok h).trans (ofExcept_of_error hp _)⟩
  | binary h h' hp =>
    exact ⟨_, (bind_of_ok h).trans ((bind_of_ok h').trans (ofExcept_of_error hp _))⟩
  | undefined h | undefinedSelf h => exact ⟨m, readVariable_of_none h⟩
  | unassigned h hn => exact ⟨_, (bind_of_ok h).trans (bind_of_error (writeVariable_of_none hn))⟩
  | noProperties h hv => exact ⟨_, (bind_of_ok h).trans (getProperty_of_not_object hv)⟩
  | property h hf hc => exact ⟨_, (bind_of_ok h).trans (getProperty_of_none hf hc)⟩
  | @noFields _ _ _ _ m₁ v h hv =>
    refine ⟨m₁, (bind_of_ok h).trans ?_⟩
    cases v with
    | object id c => exact absurd rfl (hv id c)
    | _ => rfl
  | superProperty h hc => exact ⟨m, superMethod_of_no_method h hc⟩
  | unresolvedSuper h => exact ⟨m, superMethod_of_none h⟩
  | notCallable h => exact ⟨m, call_of_not_callable h⟩
  | arity h hl => exact ⟨m, call_of_arity_ne h hl⟩
  | overflow h hd => exact ⟨m, call_of_too_deep h hd⟩
  | sink h hw => exact ⟨_, (bind_of_ok h).trans (bind_of_error (print_of_false hw))⟩
  | @superclass _ _ _ _ m₁ v h hv =>
    refine ⟨m₁, (bind_of_ok rfl).trans ((bind_of_ok h).trans (bind_of_error ?_))⟩
    cases v with
    | cls id c => exact absurd rfl (hv id c)
    | _ => rfl
  | baseClass h => exact ⟨_, (bind_of_ok rfl).trans (bind_of_error h)⟩
  | derivedClass h h' =>
    exact ⟨_, (bind_of_ok rfl).trans ((bind_of_ok h).trans ((bind_of_ok rfl).trans
      (bind_of_error h')))⟩

/-- What a task comes to fails it. -/
theorem Fails.of_reaches {t' : Task} {m' : Machine} {n : Nat} (h : Reaches rounds t m n t' m')
    (hm : m.depth ≤ maxCallDepth) (hf : Fails rounds t' m' e) : Fails rounds t m e := by
  induction h with
  | here => exact hf
  | step henter _ ih => exact .of_enters henter hm (ih (henter.depth_le hm) hf)

namespace Eval

/-! ### What lookups fail with -/

theorem error_of_readVariable {id : Nat} {name : Token} {m' : Machine}
    (h : readVariable id name m = .error e m') :
    m.lookup? id name.lexeme = none ∧
      e = .program name.line (.undefinedVariable name.lexeme) := by
  cases hv : m.lookup? id name.lexeme with
  | some v =>
    rw [readVariable_of_some hv] at h
    cases h
  | none =>
    rw [readVariable_of_none hv] at h
    cases h
    exact ⟨rfl, rfl⟩

theorem error_of_writeVariable {id : Nat} {name : Token} {v : Value} {m' : Machine}
    (h : writeVariable id name v m = .error e m') :
    m.holder? id name.lexeme = none ∧
      e = .program name.line (.undefinedVariable name.lexeme) := by
  cases hf : m.holder? id name.lexeme with
  | some f =>
    rw [writeVariable_of_some hf] at h
    cases h
  | none =>
    rw [writeVariable_of_none hf] at h
    cases h
    exact ⟨rfl, rfl⟩

theorem error_of_print {text : String} {m' : Machine} (h : Eval.print text m = .error e m') :
    (m.sink.write text).1 = false ∧ e = .error (.host .sinkFull) := by
  cases hw : (m.sink.write text).1 with
  | true =>
    rw [print_of_true hw] at h
    cases h
  | false =>
    rw [print_of_false hw] at h
    cases h
    exact ⟨rfl, rfl⟩

end Eval

section Cases

variable {m' : Machine}

theorem raises_get {object : Expr} {name : Token} {m₁ : Machine} {v : Value}
    (hv : evaluate rounds object m = .ok v m₁) (h : getProperty v name m₁ = .error e m') :
    Raises rounds (.expr (.get object name)) m e := by
  cases v with
  | object id c =>
    cases hf : (m₁.heap.fields id).find? name.lexeme with
    | some v =>
      rw [getProperty_of_field hf] at h
      cases h
    | none =>
      cases hc : c.findMethod? name.lexeme with
      | some method =>
        rw [getProperty_of_method hf hc] at h
        exact absurd h boundMethod_ne_error
      | none =>
        rw [getProperty_of_none hf hc] at h
        cases h
        exact .property hv hf hc
  | _ =>
    cases h
    exact .noProperties hv (by simp)

theorem raises_super {id : Nat} {keyword method : Token}
    (h : superMethod id keyword method m = .error e m') :
    Raises rounds (.expr (.super id keyword method)) m e := by
  cases hs : m.super? id with
  | none =>
    rw [superMethod_of_none hs] at h
    cases h
    exact .unresolvedSuper hs
  | some found =>
    obtain ⟨superclass, object, c⟩ := found
    cases hc : superclass.findMethod? method.lexeme with
    | some method =>
      rw [superMethod_of_method hs hc] at h
      exact absurd h boundMethod_ne_error
    | none =>
      rw [superMethod_of_no_method hs hc] at h
      cases h
      exact .superProperty hs hc

/-- The failure of a task is explained: the task itself raises the error, or it enters a
task that fails with it. -/
def Explained (rounds : Nat) (t : Task) (m : Machine) (e : Halt RuntimeError) : Prop :=
  Raises rounds t m e ∨ ∃ t' m', Enters rounds t m t' m' ∧ Fails rounds t' m' e

theorem Enters.explained {t' : Task} {m₁ : Machine} (he : Enters rounds t m t' m₁)
    (h : t'.run rounds m₁ = .error e m') : Explained rounds t m e := .inr ⟨t', m₁, he, m', h⟩

theorem explained_expr {ex : Expr} (h : (Task.expr ex).run rounds m = .error e m') :
    Explained rounds (.expr ex) m e := by
  cases ex with
  | number _ | string _ | boolean _ | nil => cases h
  | group inner => exact Enters.explained .group h
  | unary operator operand =>
    obtain h | ⟨v, m₁, hv, h⟩ := error_of_bind h
    · exact Enters.explained .unary h
    · obtain ⟨problem, hp, rfl⟩ := error_of_ofExcept h
      exact .inl (.unary hv hp)
  | binary left operator right =>
    obtain h | ⟨a, m₁, ha, h⟩ := error_of_bind h
    · exact Enters.explained .binaryLeft h
    · obtain h | ⟨b, m₂, hb, h⟩ := error_of_bind h
      · exact Enters.explained (.binaryRight ha) h
      · obtain ⟨problem, hp, rfl⟩ := error_of_ofExcept h
        exact .inl (.binary ha hb hp)
  | logical left operator right =>
    obtain h | ⟨a, m₁, ha, h⟩ := error_of_bind h
    · exact Enters.explained .logicalLeft h
    · cases hd : decidesLogical operator a with
      | true => cases (ite_of_true hd).symm.trans h
      | false => exact Enters.explained (.logicalRight ha hd) ((ite_of_false hd).symm.trans h)
  | choice condition thenCase elseCase =>
    obtain h | ⟨v, m₁, hv, h⟩ := error_of_bind h
    · exact Enters.explained .choiceCondition h
    · cases ht : v.truthy with
      | true => exact Enters.explained (.choiceThen hv ht) ((ite_of_true ht).symm.trans h)
      | false => exact Enters.explained (.choiceElse hv ht) ((ite_of_false ht).symm.trans h)
  | comma es => exact Enters.explained .comma h
  | var id name =>
    obtain ⟨hv, rfl⟩ := error_of_readVariable h
    exact .inl (.undefined hv)
  | assign id name value =>
    obtain h | ⟨v, m₁, hv, h⟩ := error_of_bind h
    · exact Enters.explained .assigned h
    · obtain h | ⟨_, _, _, h⟩ := error_of_bind h
      · obtain ⟨hn, rfl⟩ := error_of_writeVariable h
        exact .inl (.unassigned hv hn)
      · cases h
  | call callee paren arguments =>
    obtain h | ⟨f, m₁, hf, h⟩ := error_of_bind h
    · exact Enters.explained .callee h
    · obtain h | ⟨vs, m₂, hvs, h⟩ := error_of_bind h
      · exact Enters.explained (.arguments hf) h
      · exact Enters.explained (.call hf hvs) h
  | get object name =>
    obtain h | ⟨v, m₁, hv, h⟩ := error_of_bind h
    · exact Enters.explained .getObject h
    · exact .inl (raises_get hv h)
  | set object name value =>
    obtain h | ⟨o, m₁, ho, h⟩ := error_of_bind h
    · exact Enters.explained .setObject h
    · cases o with
      | object id c =>
        obtain h | ⟨_, _, _, h⟩ := error_of_bind h
        · exact Enters.explained (.setValue ho) h
        · cases h
      | _ =>
        cases h
        exact .inl (.noFields ho (by simp))
  | self id keyword =>
    obtain ⟨hv, rfl⟩ := error_of_readVariable h
    exact .inl (.undefinedSelf hv)
  | super id keyword method => exact .inl (raises_super h)

theorem explained_call {paren : Token} {callee : Value} {arguments : List Value}
    (h : (Task.call paren callee arguments).run rounds m = .error e m') :
    Explained rounds (.call paren callee arguments) m e := by
  cases ha : callee.arity? with
  | none =>
    cases (call_of_not_callable ha).symm.trans h
    exact .inl (.notCallable ha)
  | some arity =>
    by_cases hl : arguments.length = arity
    · subst hl
      rcases Nat.lt_or_ge m.depth maxCallDepth with hd | hd
      · have h := (call_of_checked ha hd).symm.trans h
        cases hi : (Task.invoke callee arguments).run rounds { m with depth := m.depth + 1 } with
        | ok v m₁ => cases (oneDeeper_of_ok hi).symm.trans h
        | error e₁ m₁ =>
          cases (oneDeeper_of_error hi).symm.trans h
          exact Enters.explained (.invoke ha hd) hi
      · cases (call_of_too_deep ha hd).symm.trans h
        exact .inl (.overflow ha hd)
    · cases (call_of_arity_ne ha hl).symm.trans h
      exact .inl (.arity ha hl)

theorem explained_invoke {callee : Value} {arguments : List Value}
    (h : (Task.invoke callee arguments).run rounds m = .error e m') :
    Explained rounds (.invoke callee arguments) m e := by
  cases callee with
  | function id closure => exact Enters.explained .function h
  | cls id c =>
    cases hc : c.findMethod? Class.initializerName with
    | none => cases (construct_of_none hc).symm.trans h
    | some method =>
      obtain ⟨closure, m₂, hb⟩ : ∃ closure m₂, Eval.bind method m.heap.objects.size c
          { m with heap := m.heap.newObject.2 } = .ok closure m₂ := ⟨_, _, rfl⟩
      obtain h | ⟨_, _, _, h⟩ := error_of_bind ((construct_of_some hc rfl hb).symm.trans h)
      · exact Enters.explained (.initializer hc rfl hb) h
      · cases h
  | _ => cases h

theorem explained_function {closure : Closure} {arguments : List Value}
    (hm : m.depth ≤ maxCallDepth)
    (h : (Task.function closure arguments).run rounds m = .error e m') :
    Explained rounds (.function closure arguments) m e := by
  cases hb : (Task.stmts closure.declaration.body).run rounds (closure.entered arguments m) with
  | ok flow m₁ =>
    have h := (callFunction_of_ok hm hb).symm.trans h
    cases hi : closure.initializer with
    | true => cases (ite_of_true hi).symm.trans h
    | false => cases (ite_of_false hi).symm.trans h
  | error e₁ m₁ =>
    cases (callFunction_of_error hm hb).symm.trans h
    exact Enters.explained .body hb

theorem explained_stmt {s : Stmt} (h : (Task.stmt s).run rounds m = .error e m') :
    Explained rounds (.stmt s) m e := by
  cases s with
  | expression ex =>
    obtain h | ⟨_, _, _, h⟩ := error_of_bind h
    · exact Enters.explained .expression h
    · cases h
  | print ex =>
    obtain h | ⟨v, m₁, hv, h⟩ := error_of_bind h
    · exact Enters.explained .print h
    · obtain h | ⟨_, _, _, h⟩ := error_of_bind h
      · obtain ⟨hw, rfl⟩ := error_of_print h
        exact .inl (.sink hv hw)
      · cases h
  | varDecl name initial =>
    cases initial with
    | none => cases h
    | some ex =>
      obtain h | ⟨_, _, _, h⟩ := error_of_bind h
      · exact Enters.explained .initial h
      · cases h
  | block body =>
    cases hb : (Task.stmts body).run rounds (m.inNewFrame m.frame []) with
    | ok flow m₁ => cases (execute_block_of_ok hb).symm.trans h
    | error e₁ m₁ =>
      cases (execute_block_of_error hb).symm.trans h
      exact Enters.explained .block hb
  | branch condition thenCase elseCase =>
    cases elseCase with
    | none =>
      obtain h | ⟨v, m₁, hv, h⟩ := error_of_bind h
      · exact Enters.explained .branchCondition h
      · cases ht : v.truthy with
        | true => exact Enters.explained (.branchThen hv ht) ((ite_of_true ht).symm.trans h)
        | false => cases (ite_of_false ht).symm.trans h
    | some elseCase =>
      obtain h | ⟨v, m₁, hv, h⟩ := error_of_bind h
      · exact Enters.explained .branchCondition h
      · cases ht : v.truthy with
        | true => exact Enters.explained (.branchThen hv ht) ((ite_of_true ht).symm.trans h)
        | false => exact Enters.explained (.branchElse hv ht) ((ite_of_false ht).symm.trans h)
  | loop condition body => exact Enters.explained .loop h
  | function declaration => cases h
  | yield keyword value =>
    cases value with
    | none => cases h
    | some ex =>
      obtain h | ⟨_, _, _, h⟩ := error_of_bind h
      · exact Enters.explained .returned h
      · cases h
  | classDecl name superclass methods =>
    cases superclass with
    | none =>
      obtain h | ⟨_, _, _, h⟩ := error_of_bind ((bind_of_ok rfl).symm.trans h)
      · exact .inl (.baseClass h)
      · cases h
    | some superclass =>
      obtain h | ⟨v, m₁, hv, h⟩ := error_of_bind ((bind_of_ok rfl).symm.trans h)
      · exact Enters.explained .superclass h
      · cases v with
        | cls id c =>
          obtain h | ⟨_, _, _, h⟩ := error_of_bind ((bind_of_ok rfl).symm.trans h)
          · exact .inl (.derivedClass hv h)
          · cases h
        | _ =>
          cases h
          exact .inl (.superclass hv (by simp))

theorem explained_loop {condition : Expr} {body : Stmt} {left : Nat}
    (h : (Task.loop condition body left).run rounds m = .error e m') :
    Explained rounds (.loop condition body left) m e := by
  cases left with
  | zero =>
    cases h
    exact .inl .rounds
  | succ left =>
    obtain h | ⟨v, m₁, hv, h⟩ := error_of_bind h
    · exact Enters.explained .loopCondition h
    · cases ht : v.truthy with
      | false => cases (ite_of_false ht).symm.trans h
      | true =>
        obtain h | ⟨flow, m₂, hf, h⟩ := error_of_bind ((ite_of_true ht).symm.trans h)
        · exact Enters.explained (.loopBody hv ht) h
        · cases flow with
          | normal => exact Enters.explained (.nextRound hv ht hf) h
          | returned v => cases h

/-- A task that fails either raises its error or enters a task that fails with it. -/
theorem Fails.explained (hm : m.depth ≤ maxCallDepth) (h : Fails rounds t m e) :
    Explained rounds t m e := by
  obtain ⟨m', h⟩ := h
  cases t with
  | expr ex => exact explained_expr h
  | items last es =>
    cases es with
    | nil => cases h
    | cons e es =>
      obtain h | ⟨v, m₁, hv, h⟩ := error_of_bind h
      · exact Enters.explained .item h
      · exact Enters.explained (.moreItems hv) h
  | operands es =>
    cases es with
    | nil => cases h
    | cons e es =>
      obtain h | ⟨v, m₁, hv, h⟩ := error_of_bind h
      · exact Enters.explained .operand h
      · obtain h | ⟨_, _, _, h⟩ := error_of_bind h
        · exact Enters.explained (.moreOperands hv) h
        · cases h
  | call paren callee arguments => exact explained_call h
  | invoke callee arguments => exact explained_invoke h
  | function closure arguments => exact explained_function hm h
  | stmt s => exact explained_stmt h
  | stmts ss =>
    cases ss with
    | nil => cases h
    | cons s rest =>
      obtain h | ⟨flow, m₁, hs, h⟩ := error_of_bind h
      · exact Enters.explained .first h
      · cases flow with
        | normal => exact Enters.explained (.more hs) h
        | returned v => cases h
  | loop condition body left => exact explained_loop h

end Cases

/-- An evaluation fails with an error exactly if it comes to a task that raises
the error. -/
theorem fails_iff (hm : m.depth ≤ maxCallDepth) :
    Fails rounds t m e ↔ ∃ n t' m', Reaches rounds t m n t' m' ∧ Raises rounds t' m' e := by
  constructor
  · refine Task.induction rounds (P := fun t m => Fails rounds t m e →
      ∃ n t' m', Reaches rounds t m n t' m' ∧ Raises rounds t' m' e) (fun t m hm ih h => ?_) t m hm
    obtain h | ⟨t₁, m₁, henter, h⟩ := h.explained hm
    · exact ⟨0, t, m, .here, h⟩
    · obtain ⟨n, t', m', hreach, hraise⟩ := ih t₁ m₁ henter h
      exact ⟨_, t', m', .step henter hreach, hraise⟩
  · rintro ⟨n, t', m', hreach, hraise⟩
    exact .of_reaches hreach hm hraise.fails

end Lox
