import Lox.Proofs.Form.Alike
import Lox.Proofs.Session.Identity
import Lox.Proofs.Session.Joined

/-
  Printed and read again

  What an expression means does not depend on its lines or ids: at the top level
  no node of it has a distance. So an expression with finite literals that is
  printed, read again and evaluated agrees with the one that was parsed, on
  values, on runtime errors and on what is printed (`reread_agrees`). A literal
  with too many digits is infinite, its printed form is the name `inf`, and
  evaluating that looks up a variable (`reread_disagrees`).
-/

namespace Lox

open Eval

/-- Values that a caller cannot tell apart: they are of the same kind, with the same
text, truth and arity, and numbers are the same. -/
structure Value.Seems (v v' : Value) : Prop where
  kindName : v'.kindName = v.kindName
  display : v'.display = v.display
  truthy : v'.truthy = v.truthy
  arity? : v'.arity? = v.arity?
  number : ∀ x, v' = .number x ↔ v = .number x

/-- Ends of two evaluations with the same value, as far as a caller can tell, or with
errors of the same message. -/
inductive Answer.Agrees : Answer → Answer → Prop
  | value {v v' : Value} : v.Seems v' → Agrees (.value v) (.value v')
  | program {line line' : Nat} (problem : RuntimeProblem) :
      Agrees (.failed (.failed (.program line problem))) (.failed (.failed (.program line' problem)))
  | host (problem : HostProblem) :
      Agrees (.failed (.failed (.host problem))) (.failed (.failed (.host problem)))
  | unfinished : Agrees .unfinished .unfinished

theorem Value.Alike.seems {L : Likeness} {v v' : Value} (h : v.Alike L v') : v.Seems v' where
  kindName := h.similar.kindName_eq
  display := h.similar.display_eq
  truthy := h.similar.truthy_eq
  arity? := h.similar.arity?_eq
  number x := by cases h <;> simp

namespace Value.Seems

variable {v v' v'' : Value}

theorem symm (h : v.Seems v') : v'.Seems v :=
  ⟨h.kindName.symm, h.display.symm, h.truthy.symm, h.arity?.symm, fun x => (h.number x).symm⟩

theorem trans (h : v.Seems v') (h' : v'.Seems v'') : v.Seems v'' :=
  ⟨h'.kindName.trans h.kindName, h'.display.trans h.display, h'.truthy.trans h.truthy,
    h'.arity?.trans h.arity?, fun x => (h'.number x).trans (h.number x)⟩

end Value.Seems

namespace Answer.Agrees

variable {a a' a'' : Answer}

theorem of_alike {L : Likeness} (h : a.Alike L a') (hdone : a ≠ .done) : a.Agrees a' := by
  cases h with
  | done => exact absurd rfl hdone
  | value hv => exact .value hv.seems
  | program problem _ => exact .program problem
  | host problem => exact .host problem
  | unfinished => exact .unfinished

theorem symm (h : a.Agrees a') : a'.Agrees a := by
  cases h with
  | value hv => exact .value hv.symm
  | program problem => exact .program problem
  | host problem => exact .host problem
  | unfinished => exact .unfinished

theorem trans (h : a.Agrees a') (h' : a'.Agrees a'') : a.Agrees a'' := by
  cases h with
  | value hv =>
    cases h' with
    | value hv' => exact .value (hv.trans hv')
  | program problem =>
    cases h' with
    | program _ => exact .program problem
  | host problem => exact h'
  | unfinished => exact h'

end Answer.Agrees

/-! ## Distances at the top level -/

theorem Site.recordAll_eq_self {ds : Distances} {sites : List Site}
    (h : ∀ site ∈ sites, Resolution.distance? site.scopes site.name = none) :
    Site.recordAll ds sites = ds := by
  induction sites with
  | nil => rfl
  | cons site sites ih =>
    have hsite : site.recordIn ds = ds := by
      rw [Site.recordIn, h site (.head _)]
    rw [Site.recordAll, List.foldl_cons, hsite]
    exact ih fun site hs => h site (.tail _ hs)

namespace Session

variable {rounds : Nat} {s s₁ : Session} {source : String} {e e' : Expr} {n k : Nat}

/-- An expression at the top level uses no local variable. -/
theorem Begins.distances_evaluate (h : Begins (.evaluate source) s (.expr e) s₁) (id : Nat) :
    s₁.machine.distances[id]? = s.machine.distances[id]? := by
  obtain ⟨-, -, -, hrecord⟩ := h.recorded
  have hnone : Site.recordAll ∅ (Task.expr e).sites = ∅ := by
    refine Site.recordAll_eq_self fun site hsite => ?_
    rw [e.scopes_of_mem_sites [] .start site hsite]
    rfl
  rw [hrecord, Machine.getElem?_record, hnone, Std.TreeMap.getElem?_emptyc, Option.none_or]

/-! ## Evaluating trees that are alike -/

/-- Ids that a machine knows the same of, on any lines. -/
def indistinct (m : Machine) : Likeness where
  ids i j := m.distances[j]? = m.distances[i]?
  lines _ _ := True

/-- The end of an evaluation at the top level. -/
def answer (rounds : Nat) (e : Expr) (s : Session) : Answer × Session :=
  conclude .value (onMachine (Lox.evaluate rounds e) s)

/-- The same answer, and the same text printed. -/
def Agree (end₁ end₂ : Answer × Session) : Prop :=
  end₁.1.Agrees end₂.1 ∧ end₂.2.machine.sink = end₁.2.machine.sink

theorem Agree.trans {a b c : Answer × Session} (h : Agree a b) (h' : Agree b c) : Agree a c :=
  ⟨h.1.trans h'.1, h'.2.trans h.2⟩

theorem Agree.symm {a b : Answer × Session} (h : Agree a b) : Agree b a := ⟨h.1.symm, h.2.symm⟩

theorem answer_ne_done (rounds : Nat) (e : Expr) (s : Session) : (answer rounds e s).1 ≠ .done := by
  rw [answer]
  cases onMachine (Lox.evaluate rounds e) s with
  | ok v s₁ => exact nofun
  | error halt s₁ => cases halt <;> exact nofun

theorem answer_agree {L : Likeness} (rounds : Nat) (he : e.Alike L e')
    (hm : s.machine.Alike L s₁.machine) : Agree (answer rounds e s) (answer rounds e' s₁) := by
  have h : (answer rounds e s).1.Alike L (answer rounds e' s₁).1 ∧
      (answer rounds e s).2.machine.Alike L (answer rounds e' s₁).2.machine :=
    conclude_alike (he.evaluate rounds _ _ hm) fun _ _ hv => .value hv
  exact ⟨.of_alike h.1 (answer_ne_done rounds e s), h.2.sink⟩

/-! ## Reading what was printed -/

/-- Parses an expression, prints it, reads it again and evaluates what was read. No
distances are recorded for it. -/
def evaluateReread (rounds : Nat) (source : String) : Step Value := do
  let e ← parseExpression source
  let e' ← readExpression e.printed
  onMachine (Lox.evaluate rounds e')

/-- A parsed expression is read again under the ids that follow its own. -/
theorem reads_printed (h : Parse.parseExpression (tokens source) n = ⟨.ok e, k⟩) (he : e.Finite) :
    ∃ e' c, n + c = k ∧ Form.read e.printed k = .ok (e', k + c) ∧
      e'.unlined = (e.relabel (fun l => l) (· + c)).unlined := by
  have hle : n ≤ k := by
    have hle := nextId_le_parseExpression (tokens source) n
    rwa [h] at hle
  obtain ⟨c, rfl⟩ := Nat.exists_eq_add_of_le hle
  -- the same source, parsed under the next ids
  have hagain : Parse.parseExpression (tokens source) (n + c) =
      ⟨.ok (e.relabel (fun l => l) (· + c)), n + c + c⟩ := by
    rw [Parse.parseExpression_add, h]
    rfl
  have halike : e.Alike ⟨fun _ _ => True, Eq⟩ (e.relabel (fun l => l) (· + c)) :=
    e.alike_relabel (fun _ => rfl) (show SitesAlike _ _ (e.sites [] .start) from fun _ _ => trivial)
  obtain ⟨hreadable, hnumbered⟩ :=
    Form.readable_of_parsed hagain (fun t ht => ⟨source, ht⟩) (halike.finite he)
  obtain ⟨e', hread, hunlined⟩ := Form.read_printed hreadable hnumbered
  exact ⟨e', c, rfl, halike.printed_eq ▸ hread, hunlined⟩

/-- Lines do not matter to any machine. -/
theorem alike_unlined (m : Machine) (e : Expr) : e.Alike (indistinct m) e.unlined :=
  e.alike_relabel (fun _ => trivial) (show SitesAlike _ _ (e.sites [] .start) from fun _ _ => rfl)

/-- The tree that was read is evaluated as the one that was parsed. -/
theorem Begins.reread_agree {s₂ : Session} {c : Nat} (rounds : Nat)
    (h : Begins (.evaluate source) s (.expr e) s₁) (hs : s.Closed)
    (hunused : ∀ id, s.nextId ≤ id → s.machine.distances[id]? = none)
    (hread : e'.unlined = (e.relabel (fun l => l) (· + c)).unlined)
    (hmachine : s₂.machine = s.machine) :
    Agree (answer rounds e s₁) (answer rounds e' s₂) := by
  have hle : (ownIds s.nextId).Le (indistinct s.machine) :=
    ⟨fun i j hi => hi.1 ▸ rfl, fun _ _ _ => trivial⟩
  have hsame : s₂.machine.Alike (indistinct s.machine) s₂.machine := by
    rw [hmachine]
    exact Machine.Alike.withDistances hs hle fun _ _ hi => hi
  have hresolved : s₁.machine.Alike (indistinct s.machine) s₂.machine := by
    obtain ⟨-, -, -, hrecord⟩ := h.recorded
    rw [hmachine, hrecord]
    refine Machine.Alike.withDistances hs hle fun i j hi => ?_
    calc s.machine.distances[j]?
        = s.machine.distances[i]? := hi
      _ = s₁.machine.distances[i]? := (h.distances_evaluate i).symm
      _ = _ := by rw [hrecord]; rfl
  have hmoved : e.Alike (indistinct s.machine) (e.relabel (fun l => l) (· + c)) := by
    have htask : (Task.expr e).Alike (indistinct s.machine)
        ((Task.expr e).relabel (fun l => l) (· + c)) :=
      h.alike_relabel (fun _ => trivial) fun i hi _ =>
        (hunused (i + c) (Nat.le_add_right_of_le hi)).trans (hunused i hi).symm
    cases htask with
    | expr he => exact he
  -- both trees are the same without lines
  have hplain := answer_agree rounds (alike_unlined s.machine (e.relabel (fun l => l) (· + c))) hsame
  have hreread := answer_agree rounds (alike_unlined s.machine e') hsame
  rw [hread] at hreread
  exact (answer_agree rounds hmoved hresolved).trans (hplain.trans hreread.symm)

/-- Printing and reading again preserves meaning. After any history, an expression with
finite literals that is parsed, printed, read again and evaluated without resolving it
ends as if it had been evaluated directly: with the same value, as far as a caller can
tell, or with an error of the same message, and with the same text printed. -/
theorem reread_agrees {earlier : Nat} {sink : Sink} {clock : Clock} {rs : List Request}
    (hparse : parseExpression source ((start sink clock).afterAll earlier rs) = .ok e s₁)
    (hfinite : e.Finite) (rounds : Nat) :
    let s := (start sink clock).afterAll earlier rs
    let direct := s.perform rounds (.evaluate source)
    let reread := conclude .value (evaluateReread rounds source s)
    ¬direct.1.Refused →
      direct.1.Agrees reread.1 ∧
        reread.2.machine.sink.written = direct.2.machine.sink.written := by
  intro s direct reread hran
  obtain ⟨hp, hmachine⟩ := ok_of_parse hparse
  obtain ⟨e', c, -, hread, hunlined⟩ := reads_printed hp hfinite
  have hread : readExpression e.printed s₁ = .ok e' { s₁ with nextId := s₁.nextId + c } := by
    rw [readExpression, hread]
  have hreread : reread = answer rounds e' { s₁ with nextId := s₁.nextId + c } := by
    show conclude .value (evaluateReread rounds source s) = _
    rw [evaluateReread, bind_of_ok' hparse, bind_of_ok' hread, answer]
  obtain ⟨_, _, -, -, hrefused⟩ | ⟨_, _, _, -, -, -, hrefused⟩ | ⟨e₁, k, ds, hb⟩ :=
    evaluate_cases rounds s source
  · exact absurd (show direct.1.Refused by rw [show direct = _ from hrefused]; trivial) hran
  · exact absurd (show direct.1.Refused by rw [show direct = _ from hrefused]; trivial) hran
  · -- the tree that is evaluated is the one that is printed
    have htree : s.tree? (.evaluate source) = some (.expr e) := by rw [tree?, hparse]; rfl
    obtain rfl : e₁ = e := Task.expr.inj (Option.some.inj (hb.tree?_eq.symm.trans htree))
    have hdirect : direct = answer rounds e₁ _ := congrArg (conclude .value) (evaluate_of_begins hb)
    obtain ⟨hanswer, hsink⟩ := hb.reread_agree rounds
      (closed_afterAll earlier rs (alike_start _ sink clock)) unused_afterAll hunlined
      (show ({ s₁ with nextId := s₁.nextId + c } : Session).machine = s.machine from hmachine)
    rw [hdirect, hreread]
    exact ⟨hanswer, congrArg Sink.written hsink⟩

/-- An expression on the second line of a source, printed on one line. -/
theorem reread_agrees_negation :
    let s := (start .unlimited (.ticking 0)).afterAll 0 [.run "var a;"]
    let direct := s.perform 0 (.evaluate "\n-a")
    ∃ e s₁, parseExpression "\n-a" s = .ok e s₁ ∧ e.Finite ∧ ¬direct.1.Refused ∧
      direct.1.Agrees (conclude .value (evaluateReread 0 "\n-a" s)).1 := by
  intro s direct
  have hb₁ : Begins (.run "var a;") (start .unlimited (.ticking 0))
      (.stmts [.varDecl ⟨.identifier, "a", 1⟩ none])
      ⟨(start .unlimited (.ticking 0)).machine.record ∅, 0⟩ := .run_of_spans (by cbv) (by cbv) rfl
  have hnext : s.nextId = 0 := congrArg (·.2.nextId) (hb₁.perform_run rfl)
  have hl : lexicalErrors "\n-a" = [] := by
    rw [lexicalErrors_eq]
    cbv
  have hp : Parse.parseExpression (tokens "\n-a") 0 =
      ⟨.ok (.unary ⟨.minus, "-", 2⟩ (.var 0 ⟨.identifier, "a", 2⟩)), 1⟩ := by
    rw [tokens_eq]
    cbv
  rw [← hnext] at hp
  have hparse : parseExpression "\n-a" s = .ok _ { s with nextId := 1 } := parse_of_ok hl hp
  have hran : ¬direct.1.Refused := fun h =>
    (Begins.evaluate hl hp rfl).not_quiet (Answer.quiet_of_refused h)
  exact ⟨_, _, hparse, trivial, hran, (reread_agrees hparse trivial 0 hran).1⟩

/-! ## Infinite literals -/

/-- A numeral without a point, as the only token of its source. -/
theorem scan_digits {c : Char} {cs : List Char} (h : ∀ d ∈ c :: cs, Scan.isDigit d = true) :
    scan (.ofList (c :: cs)) =
      [.token ⟨.number (Number.ofDigits (c :: cs) []), .ofList (c :: cs), 1⟩,
        .token ⟨.eof, "", 1⟩] := by
  have hspan : Scan.span c cs = ⟨.token (.number (Number.ofDigits (c :: cs) [])), c :: cs, []⟩ := by
    have hscan := @Scan.again_number c cs [] (by simpa using h) [] stops_nil
    simpa using hscan
  have hlines : newlines (c :: cs) = 0 := by
    refine List.count_eq_zero.2 fun hmem => ?_
    cases h '\n' hmem
  rw [scan_eq, String.toList_ofList, scanFrom_cons, hspan]
  simp only [hlines, scanFrom]
  rfl

/-- The digits of a number that is too large. -/
def manyDigits : List Char := '1' :: List.replicate 309 '0'

theorem infinite_manyDigits : Number.decode (Number.ofDigits manyDigits []) = .infinite false := by
  rw [Number.ofDigits, Number.Decimal.toFloat, Number.nearest,
    Number.decode_ofBits (Number.nearestBits_le _ _)]
  decide +kernel

/-- A literal of too many digits is evaluated to infinity, and its printed form to the
value of a variable. -/
theorem reread_disagrees :
    let s := start .unlimited (.ticking 0)
    let source := String.ofList manyDigits
    ∃ x s₁, parseExpression source s = .ok (.number x) s₁ ∧
      (s.perform 0 (.evaluate source)).1 = .value (.number x) ∧
      (conclude .value (evaluateReread 0 source s)).1 =
        .failed (.failed (.program 1 (.undefinedVariable "inf"))) ∧
      ¬(s.perform 0 (.evaluate source)).1.Agrees
        (conclude .value (evaluateReread 0 source s)).1 := by
  intro s source
  let x := Number.ofDigits manyDigits []
  have hscan : scan source = [.token ⟨.number x, source, 1⟩, .token ⟨.eof, "", 1⟩] := by
    refine scan_digits fun d hd => ?_
    obtain rfl | hd := List.mem_cons.1 hd
    · rfl
    · obtain rfl := List.eq_of_mem_replicate hd
      rfl
  have hl : lexicalErrors source = [] := by
    rw [lexicalErrors, hscan]
    rfl
  have hp : Parse.parseExpression (tokens source) s.nextId = ⟨.ok (.number x), 0⟩ := by
    rw [tokens, hscan]
    rfl
  have hparse : parseExpression source s = .ok (.number x) s := parse_of_ok hl hp
  -- an infinite number is printed as a word
  have hprinted : (Expr.number x).printed = "inf" := by
    rw [Expr.printed, Expr.chars, Number.Plain.chars, infinite_manyDigits]
    rfl
  have hread : readExpression "inf" s =
      .ok (.var 0 ⟨.identifier, "inf", 1⟩) { s with nextId := 1 } := by
    have hread : Form.read "inf" 0 = .ok (.var 0 ⟨.identifier, "inf", 1⟩, 1) := by
      rw [Form.read, lexicalErrors_eq, tokens_eq]
      cbv
    rw [readExpression, show s.nextId = 0 from rfl, hread]
  have hb : Begins (.evaluate source) s (.expr (.number x)) ⟨s.machine.record ∅, 0⟩ :=
    .evaluate hl hp rfl
  have hdirect : (s.perform 0 (.evaluate source)).1 = .value (.number x) :=
    congrArg Prod.fst (hb.perform_evaluate rfl)
  have hreread : (conclude .value (evaluateReread 0 source s)).1 =
      .failed (.failed (.program 1 (.undefinedVariable "inf"))) := by
    -- and no variable has that name
    have hlookup : s.machine.lookup? 0 "inf" = none := by cbv
    have hfails : Lox.evaluate 0 (.var 0 ⟨.identifier, "inf", 1⟩) s.machine =
        .error (.error (.program 1 (.undefinedVariable "inf"))) s.machine := by
      refine (readVariable_eq 0 ⟨.identifier, "inf", 1⟩ s.machine).trans ?_
      rw [hlookup]
      rfl
    rw [evaluateReread, bind_of_ok' hparse, hprinted, bind_of_ok' hread]
    have hends := onMachine_of_error (s := ⟨s.machine, 1⟩) hfails
    exact congrArg (fun result => (conclude .value result).1) hends
  refine ⟨x, s, hparse, hdirect, hreread, fun hagrees => ?_⟩
  rw [hdirect, hreread] at hagrees
  cases hagrees

end Session

end Lox
