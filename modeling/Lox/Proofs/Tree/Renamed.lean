import Lox.Proofs.Scope.Rules
import Lox.Proofs.Tree.Rename

/-
  Renamed trees

  `Stmt.Renamed R away s s'` relates a statement to what a renaming makes of it, for
  a place that lies `away` scopes inside the scope of the variable, or outside of it.
  Unlike the renaming itself it does not single out the one scope that is renamed:
  outside, any scope may be the one. So it also relates each part of a program to the
  same part of the renamed program (`Stmt.Renames.renamed`), and whatever lies outside
  to itself.
-/

namespace Lox

namespace Renaming

/-- A scope or frame inside another one: it is one further away, or it is that of the
variable itself. -/
def Inside (outer inner : Option Nat) : Prop :=
  inner = outer.map (· + 1) ∨ outer = none ∧ inner = some 0

/-- A name in a scope where only the variable is called `R.old`. -/
structure Keeps (R : Renaming) (away : Option Nat) (name : Token) : Prop where
  new : away ≠ none → name.lexeme ≠ R.new
  old : away = some 0 → name.lexeme ≠ R.old

/-- A name that is no other in its own scope. -/
theorem Keeps.name_eq {R : Renaming} {away : Option Nat} {name : Token} (h : R.Keeps away name) :
    R.name away (some 0) name.lexeme = name.lexeme := by
  by_cases hhere : some 0 = away
  · exact R.name_of_ne (h.old hhere.symm) (h.new (hhere ▸ nofun))
  · exact R.name_of_distance_ne hhere

end Renaming

open Renaming (Inside)

section Clear

variable (R : Renaming) (away : Option Nat)

mutual

/-- In the scope of the variable, the new name does not occur yet, and no keyword is
spelled like one of the names. -/
def Expr.Clear : Expr → Prop
  | .number _ | .string _ | .boolean _ | .nil => True
  | .group inner => inner.Clear
  | .unary _ operand => operand.Clear
  | .binary left _ right | .logical left _ right => left.Clear ∧ right.Clear
  | .choice condition thenCase elseCase => condition.Clear ∧ thenCase.Clear ∧ elseCase.Clear
  | .comma items => Expr.AllClear items
  | .var _ name => away ≠ none → name.lexeme ≠ R.new
  | .assign _ name value => (away ≠ none → name.lexeme ≠ R.new) ∧ value.Clear
  | .call callee _ arguments => callee.Clear ∧ Expr.AllClear arguments
  | .get object _ => object.Clear
  | .set object _ value => object.Clear ∧ value.Clear
  | .self _ keyword | .super _ keyword _ =>
    away ≠ none → keyword.lexeme ≠ R.old ∧ keyword.lexeme ≠ R.new

def Expr.AllClear : List Expr → Prop
  | [] => True
  | e :: es => e.Clear ∧ Expr.AllClear es

end

end Clear

mutual

inductive Stmt.Renamed (R : Renaming) : Option Nat → Stmt → Stmt → Prop
  | expression {away : Option Nat} {e : Expr} : e.Clear R away →
      Stmt.Renamed R away (.expression e) (.expression (e.rename R away))
  | print {away : Option Nat} {e : Expr} : e.Clear R away →
      Stmt.Renamed R away (.print e) (.print (e.rename R away))
  | declare {away : Option Nat} {name : Token} : (away ≠ none → name.lexeme ≠ R.new) →
      Stmt.Renamed R away (.varDecl name none) (.varDecl (R.declare away name) none)
  | initialized {away : Option Nat} {name : Token} {e : Expr} :
      (away ≠ none → name.lexeme ≠ R.new) → e.Clear R away →
      Stmt.Renamed R away (.varDecl name (some e))
        (.varDecl (R.declare away name) (some (e.rename R away)))
  | block {away inner : Option Nat} {ss ss' : List Stmt} : Inside away inner →
      Stmt.AllRenamed R inner ss ss' → Stmt.Renamed R away (.block ss) (.block ss')
  | ifThen {away : Option Nat} {c : Expr} {s s' : Stmt} : c.Clear R away →
      Stmt.Renamed R away s s' →
      Stmt.Renamed R away (.branch c s none) (.branch (c.rename R away) s' none)
  | ifElse {away : Option Nat} {c : Expr} {a a' b b' : Stmt} : c.Clear R away →
      Stmt.Renamed R away a a' → Stmt.Renamed R away b b' →
      Stmt.Renamed R away (.branch c a (some b)) (.branch (c.rename R away) a' (some b'))
  | loop {away : Option Nat} {c : Expr} {s s' : Stmt} : c.Clear R away →
      Stmt.Renamed R away s s' → Stmt.Renamed R away (.loop c s) (.loop (c.rename R away) s')
  | function {away inner : Option Nat} {f f' : Function} : R.Keeps away f.name →
      Inside away inner → Function.Renamed R inner f f' →
      Stmt.Renamed R away (.function f) (.function f')
  | leave {away : Option Nat} {keyword : Token} :
      Stmt.Renamed R away (.yield keyword none) (.yield keyword none)
  | yield {away : Option Nat} {keyword : Token} {e : Expr} : e.Clear R away →
      Stmt.Renamed R away (.yield keyword (some e)) (.yield keyword (some (e.rename R away)))
  | base {away : Option Nat} {name : Token} {fs fs' : List Function} : R.Keeps away name →
      Function.AllRenamed R (away.map (· + 1)) fs fs' →
      Stmt.Renamed R away (.classDecl name none fs) (.classDecl name none fs')
  | derived {away : Option Nat} {name word : Token} {id : Nat} {fs fs' : List Function} :
      R.Keeps away name → (away ≠ none → word.lexeme ≠ R.new) →
      Function.AllRenamed R (away.map (· + 2)) fs fs' →
      Stmt.Renamed R away (.classDecl name (some (.var id word)) fs)
        (.classDecl name (some (.var id (R.use away id word))) fs')

inductive Stmt.AllRenamed (R : Renaming) : Option Nat → List Stmt → List Stmt → Prop
  | nil {away : Option Nat} : Stmt.AllRenamed R away [] []
  | cons {away : Option Nat} {s s' : Stmt} {ss ss' : List Stmt} : Stmt.Renamed R away s s' →
      Stmt.AllRenamed R away ss ss' → Stmt.AllRenamed R away (s :: ss) (s' :: ss')

/-- A function or method, by the place of its own scope. -/
inductive Function.Renamed (R : Renaming) : Option Nat → Function → Function → Prop
  | mk {away : Option Nat} {name : Token} {parameters : List Token} {ss ss' : List Stmt} :
      (∀ parameter ∈ parameters, away ≠ none → parameter.lexeme ≠ R.new) →
      Stmt.AllRenamed R away ss ss' →
      Function.Renamed R away (.mk name parameters ss)
        (.mk name (parameters.map (R.declare away)) ss')

/-- The methods of a class, by the place of the scope around them. -/
inductive Function.AllRenamed (R : Renaming) : Option Nat → List Function → List Function → Prop
  | nil {away : Option Nat} : Function.AllRenamed R away [] []
  | cons {away inner : Option Nat} {f f' : Function} {fs fs' : List Function} :
      Inside away inner → Function.Renamed R inner f f' →
      Function.AllRenamed R away fs fs' → Function.AllRenamed R away (f :: fs) (f' :: fs')

end

theorem Function.Renamed.name_eq {R : Renaming} {away : Option Nat} {f f' : Function}
    (h : f.Renamed R away f') : f'.name = f.name := by
  cases h
  rfl

/-! ## Renaming a scope -/

variable {R : Renaming} {away : Option Nat}

mutual

theorem Expr.clear : (e : Expr) → e.Proper → (away ≠ none → e.Avoids R.new) → e.Clear R away
  | .number _, _, _ | .string _, _, _ | .boolean _, _, _ | .nil, _, _ => trivial
  | .group inner, hp, ha => inner.clear hp ha
  | .unary _ operand, hp, ha => operand.clear hp.2 ha
  | .binary left _ right, hp, ha =>
    ⟨left.clear hp.2.1 fun h => (ha h).1, right.clear hp.2.2 fun h => (ha h).2⟩
  | .logical left _ right, hp, ha =>
    ⟨left.clear hp.1 fun h => (ha h).1, right.clear hp.2 fun h => (ha h).2⟩
  | .choice condition thenCase elseCase, hp, ha =>
    ⟨condition.clear hp.1 fun h => (ha h).1, thenCase.clear hp.2.1 fun h => (ha h).2.1,
      elseCase.clear hp.2.2 fun h => (ha h).2.2⟩
  | .comma items, hp, ha => Expr.allClear items hp ha
  | .var _ _, _, ha => ha
  | .assign _ _ value, hp, ha => ⟨fun h => (ha h).1, value.clear hp.2 fun h => (ha h).2⟩
  | .call callee _ arguments, hp, ha =>
    ⟨callee.clear hp.1 fun h => (ha h).1, Expr.allClear arguments hp.2 fun h => (ha h).2⟩
  | .get object _, hp, ha => object.clear hp ha
  | .set object _ value, hp, ha =>
    ⟨object.clear hp.1 fun h => (ha h).1, value.clear hp.2 fun h => (ha h).2⟩
  | .self _ _, hp, _ => fun _ =>
    ⟨fun h => R.old_free (.inl (h.symm.trans hp)), fun h => R.new_free (.inl (h.symm.trans hp))⟩
  | .super _ _ _, hp, _ => fun _ =>
    ⟨fun h => R.old_free (.inr (h.symm.trans hp)), fun h => R.new_free (.inr (h.symm.trans hp))⟩

theorem Expr.allClear : (es : List Expr) → Expr.AllProper es →
    (away ≠ none → Expr.AllAvoid R.new es) → Expr.AllClear R away es
  | [], _, _ => trivial
  | e :: es, hp, ha => ⟨e.clear hp.1 fun h => (ha h).1, Expr.allClear es hp.2 fun h => (ha h).2⟩

end

/-- In the scope of the variable nothing else is declared under its name. -/
def Stmt.Sole (R : Renaming) (away : Option Nat) (s : Stmt) : Prop :=
  away = some 0 → ∀ name ∈ s.declared, name.lexeme = R.old → ∃ initial, s = .varDecl name initial

theorem Stmt.Sole.deeper (s : Stmt) (k : Nat) : s.Sole R (away.map (· + (k + 1))) := by
  cases away <;> exact fun h => by simp at h

theorem Stmt.Sole.undeclared {s : Stmt} (h : s.declared = []) : s.Sole R away := by
  rintro - name hname
  rw [h] at hname
  cases hname

theorem Renaming.Inside.deeper (away : Option Nat) : Inside away (away.map (· + 1)) := .inl rfl

theorem map_deeper (away : Option Nat) (k : Nat) :
    away.map (· + (k + 1)) = (away.map (· + k)).map (· + 1) := by
  cases away <;> rfl

theorem ne_none_of_map {k : Nat} (h : away.map (· + k) ≠ none) : away ≠ none := by
  rintro rfl
  exact h rfl

mutual

theorem Stmt.renamed_rename : (s : Stmt) → {away : Option Nat} → s.Proper →
    (away ≠ none → s.Avoids R.new) → s.Sole R away → s.Renamed R away (s.rename R away)
  | .expression e, _, hp, ha, _ => .expression (e.clear hp ha)
  | .print e, _, hp, ha, _ => .print (e.clear hp ha)
  | .varDecl _ none, _, _, ha, _ => .declare fun h => (ha h).1
  | .varDecl _ (some initial), _, hp, ha, _ =>
    .initialized (fun h => (ha h).1) (initial.clear (hp.2 _ rfl) fun h => (ha h).2 _ rfl)
  | .block body, away, hp, ha, _ =>
    .block (.deeper away) (Stmt.renamed_renameAll body hp (fun h => ha (ne_none_of_map h))
      fun s _ => .deeper s 0)
  | .branch condition thenCase none, _, hp, ha, _ =>
    .ifThen (condition.clear hp.1 fun h => (ha h).1)
      (thenCase.renamed_rename hp.2.1 (fun h => (ha h).2) (.undeclared hp.2.2))
  | .branch condition thenCase (some elseCase), _, hp, ha, _ =>
    .ifElse (condition.clear hp.1 fun h => (ha h).1)
      (thenCase.renamed_rename hp.2.1.1 (fun h => (ha h).2.1) (.undeclared hp.2.1.2))
      (elseCase.renamed_rename hp.2.2.1 (fun h => (ha h).2.2) (.undeclared hp.2.2.2))
  | .loop condition body, _, hp, ha, _ =>
    .loop (condition.clear hp.1 fun h => (ha h).1)
      (body.renamed_rename hp.2.1 (fun h => (ha h).2) (.undeclared hp.2.2))
  | .function declaration, away, hp, ha, hs =>
    .function ⟨fun h => (ha h).1, fun h heq => nomatch hs h _ (.head _) heq⟩ (.deeper away)
      (declaration.renamed_rename hp (fun h => (ha (ne_none_of_map h)).2) fun s _ => .deeper s 0)
  | .yield _ none, _, _, _, _ => .leave
  | .yield _ (some value), _, hp, ha, _ => .yield (value.clear (hp _ rfl) fun h => ha h _ rfl)
  | .classDecl name none methods, away, hp, ha, hs => by
    rw [Stmt.rename, map_deeper away 1]
    exact .base ⟨fun h => (ha h).1, fun h heq => nomatch hs h name (.head _) heq⟩
      (Function.renamed_renameAll methods hp.2.2 fun h => (ha (ne_none_of_map h)).2.2)
  | .classDecl name (some superclass) methods, away, hp, ha, hs => by
    obtain ⟨id, word, rfl, -⟩ := hp.2.1 _ rfl
    rw [Stmt.rename, map_deeper away 2]
    exact .derived ⟨fun h => (ha h).1, fun h heq => nomatch hs h name (.head _) heq⟩
      (fun h => (ha h).2.1 _ rfl)
      (Function.renamed_renameAll methods hp.2.2 fun h => (ha (ne_none_of_map h)).2.2)

theorem Stmt.renamed_renameAll : (ss : List Stmt) → {away : Option Nat} → Stmt.AllProper ss →
    (away ≠ none → Stmt.AllAvoid R.new ss) → (∀ s ∈ ss, s.Sole R away) →
    Stmt.AllRenamed R away ss (Stmt.renameAll R away ss)
  | [], _, _, _, _ => .nil
  | s :: rest, _, hp, ha, hs =>
    .cons (s.renamed_rename hp.1 (fun h => (ha h).1) (hs s (.head _)))
      (Stmt.renamed_renameAll rest hp.2 (fun h => (ha h).2) fun s hmem => hs s (.tail _ hmem))

theorem Function.renamed_rename : (f : Function) → {away : Option Nat} → f.Proper →
    (away ≠ none → f.Avoids R.new) → (∀ s ∈ f.body, s.Sole R away) →
    f.Renamed R away (f.rename R away)
  | .mk _ _ body, _, hp, ha, hs =>
    .mk (fun parameter hmem h => (ha h).1 parameter hmem)
      (Stmt.renamed_renameAll body hp.2.2 (fun h => (ha h).2) hs)

theorem Function.renamed_renameAll : (fs : List Function) → {away : Option Nat} →
    Function.AllProper fs → (away ≠ none → Function.AllAvoid R.new fs) →
    Function.AllRenamed R away fs (Function.renameAll R (away.map (· + 1)) fs)
  | [], _, _, _ => .nil
  | f :: fs, away, hp, ha =>
    .cons (.deeper away)
      (f.renamed_rename hp.1 (fun h => (ha (ne_none_of_map h)).1) fun s _ => .deeper s 0)
      (Function.renamed_renameAll fs hp.2 fun h => (ha h).2)

end

/-! ## Outside the scope -/

theorem Stmt.Sole.outside (s : Stmt) : s.Sole R none := nofun

theorem Stmt.renamed_self {s : Stmt} (h : s.Proper) : s.Renamed R none s := by
  have hs := s.renamed_rename (R := R) h (fun h => absurd rfl h) (.outside s)
  rwa [s.rename_none] at hs

theorem Stmt.allRenamed_self {ss : List Stmt} (h : Stmt.AllProper ss) :
    Stmt.AllRenamed R none ss ss := by
  have hs := Stmt.renamed_renameAll (R := R) ss h (fun h => absurd rfl h) fun s _ => .outside s
  rwa [Stmt.renameAll_none] at hs

theorem Function.renamed_self {f : Function} (h : f.Proper) : f.Renamed R none f := by
  have hf := f.renamed_rename (R := R) h (fun h => absurd rfl h) fun s _ => .outside s
  rwa [f.rename_none] at hf

theorem Function.allRenamed_self {fs : List Function} (h : Function.AllProper fs) :
    Function.AllRenamed R none fs fs := by
  have hs := Function.renamed_renameAll (R := R) fs h fun h => absurd rfl h
  rwa [show Option.map (· + 1) (none : Option Nat) = none from rfl, Function.renameAll_none] at hs

/-! ## One scope of a program -/

/-- No scope inside the program declares two names that are spelled alike. -/
def Distinct (program : List Stmt) : Prop :=
  ∀ names, Shares program names → (names.map Token.lexeme).Nodup

theorem Stmt.lexemes_declaredAll (body : List Stmt) :
    (Stmt.declaredAll body).map Token.lexeme =
      body.flatMap fun s => s.declared.map Token.lexeme :=
  List.map_flatMap

/-- A scope in which names are distinct and a variable is declared declares nothing else
under the name of this variable. -/
theorem Stmt.DeclareVariable.sole {body : List Stmt} (h : Stmt.DeclareVariable R.old body)
    (hnodup : ((Stmt.declaredAll body).map Token.lexeme).Nodup) : ∀ s ∈ body, s.Sole R away := by
  obtain ⟨token, initial, hdecl, htoken⟩ := h
  rintro s hs - name hname hold
  rw [Stmt.lexemes_declaredAll, List.nodup_flatMap] at hnodup
  by_cases heq : s = .varDecl token initial
  · subst heq
    obtain rfl := List.mem_singleton.1 hname
    exact ⟨initial, rfl⟩
  · have : Std.Symm (Function.onFun List.Disjoint fun s : Stmt => s.declared.map Token.lexeme) :=
      ⟨fun _ _ h => h.symm⟩
    have hdisjoint := hnodup.2.forall hs hdecl heq
    exact absurd (List.mem_singleton.2 (hold.trans htoken.symm))
      (hdisjoint (List.mem_map_of_mem hname))

theorem Function.DeclaresVariable.sole {f : Function} (h : f.DeclaresVariable R.old)
    (hnodup : ((f.parameters ++ Stmt.declaredAll f.body).map Token.lexeme).Nodup) :
    ∀ s ∈ f.body, s.Sole R away := by
  rw [List.map_append, List.nodup_append] at hnodup
  obtain ⟨parameter, hmem, hparameter⟩ | hbody := h
  · rintro s hs - name hname hold
    have hne := hnodup.2.2 _ (List.mem_map_of_mem hmem) _
      (List.mem_map_of_mem (List.mem_flatMap.2 ⟨s, hs, hname⟩))
    exact absurd (hparameter.trans hold.symm) hne
  · exact hbody.sole hnodup.2.1

section Program

variable {program : List Stmt}

theorem Stmt.Renames.inAll {s s' : Stmt} (h : s.Renames R s') {ss : List Stmt} (hs : s ∈ ss) :
    ∃ ss', Stmt.AllRenames R ss ss' := by
  induction hs with
  | head rest => exact ⟨s' :: rest, .head h⟩
  | tail first _ ih =>
    obtain ⟨rest', h'⟩ := ih
    exact ⟨first :: rest', .tail h'⟩

theorem Function.Renames.inAll {f f' : Function} (h : f.Renames R f') {fs : List Function}
    (hf : f ∈ fs) : ∃ fs', Function.AllRenames R fs fs' := by
  induction hf with
  | head rest => exact ⟨f' :: rest, .head h⟩
  | tail first _ ih =>
    obtain ⟨rest', h'⟩ := ih
    exact ⟨first :: rest', .tail h'⟩

theorem Function.exists_renames {f : Function} {body' : List Stmt}
    (h : Stmt.AllRenames R f.body body') : ∃ f', f.Renames R f' := by
  cases f
  exact ⟨_, .body h⟩

/-- What can be renamed inside a statement can be renamed inside the program. -/
theorem Stands.renames {path : List Construct} {s s' : Stmt} (hs : Stands program path s)
    (h : s.Renames R s') : ∃ program', Stmt.AllRenames R program program' := by
  induction hs generalizing s' with
  | top hs => exact h.inAll hs
  | block _ hmem ih =>
    obtain ⟨_, h⟩ := h.inAll hmem
    exact ih (.block h)
  | thenCase _ ih => exact ih (.thenCase h)
  | elseCase _ ih => exact ih (.elseCase h)
  | loop _ ih => exact ih (.loop h)
  | function _ hmem ih =>
    obtain ⟨_, h⟩ := h.inAll hmem
    obtain ⟨_, h⟩ := Function.exists_renames h
    exact ih (.function h)
  | method _ hf hmem ih =>
    obtain ⟨_, h⟩ := h.inAll hmem
    obtain ⟨_, h⟩ := Function.exists_renames h
    obtain ⟨_, h⟩ := h.inAll hf
    exact ih (.method h)

/-- A scope inside the program declares the variable, or has it as a parameter. -/
inductive DeclaresLocal (program : List Stmt) (name : String) : Prop
  | block {path : List Construct} {body : List Stmt} : Stands program path (.block body) →
      Stmt.DeclareVariable name body → DeclaresLocal program name
  | function {path : List Construct} {f : Function} : Stands program path (.function f) →
      f.DeclaresVariable name → DeclaresLocal program name
  | method {path : List Construct} {token : Token} {superclass : Option Expr}
      {methods : List Function} {f : Function} :
      Stands program path (.classDecl token superclass methods) → f ∈ methods →
      f.DeclaresVariable name → DeclaresLocal program name

/-- Every local variable can be renamed. -/
theorem DeclaresLocal.exists_renames (h : DeclaresLocal program R.old) :
    ∃ program', Stmt.AllRenames R program program' := by
  cases h with
  | block hs hd => exact hs.renames (.here hd)
  | function hs hd => exact hs.renames (.function (.here hd))
  | method hs hf hd =>
    obtain ⟨_, h⟩ := (Function.Renames.here hd).inAll hf
    exact hs.renames (.method h)

mutual

/-- Where one scope is renamed, everything is renamed as it is due. -/
theorem Stmt.Renames.renamed (hprogram : Distinct program) : {s s' : Stmt} →
    s.Renames R s' → s.Proper → s.Avoids R.new →
    (∃ path, Stands program path s) → s.Renamed R none s'
  | _, _, @Stmt.Renames.here _ body hd, hp, ha, ⟨_, hs⟩ =>
    .block (.inr ⟨rfl, rfl⟩)
      (Stmt.renamed_renameAll body hp (fun _ => ha) (hd.sole (hprogram _ (.block hs))))
  | _, _, .block h, hp, ha, ⟨_, hs⟩ =>
    .block (.inl rfl) (h.renamed hprogram hp ha fun _ hmem => ⟨_, .block hs hmem⟩)
  | .branch condition _ none, _, .thenCase h, hp, ha, ⟨_, hs⟩ => by
    have hthen := h.renamed hprogram hp.2.1 ha.2 ⟨_, .thenCase hs⟩
    simpa only [Expr.rename_none] using
      Stmt.Renamed.ifThen (condition.clear hp.1 fun _ => ha.1) hthen
  | .branch condition _ (some elseCase), _, .thenCase h, hp, ha, ⟨_, hs⟩ => by
    have hthen := h.renamed hprogram hp.2.1.1 ha.2.1 ⟨_, .thenCase hs⟩
    simpa only [Expr.rename_none] using
      Stmt.Renamed.ifElse (condition.clear hp.1 fun _ => ha.1) hthen (Stmt.renamed_self hp.2.2.1)
  | .branch condition thenCase _, _, .elseCase h, hp, ha, ⟨_, hs⟩ => by
    have helse := h.renamed hprogram hp.2.2.1 ha.2.2 ⟨_, .elseCase hs⟩
    simpa only [Expr.rename_none] using
      Stmt.Renamed.ifElse (condition.clear hp.1 fun _ => ha.1) (Stmt.renamed_self hp.2.1.1) helse
  | .loop condition _, _, .loop h, hp, ha, ⟨_, hs⟩ => by
    have hbody := h.renamed hprogram hp.2.1 ha.2 ⟨_, .loop hs⟩
    simpa only [Expr.rename_none] using
      Stmt.Renamed.loop (condition.clear hp.1 fun _ => ha.1) hbody
  | _, _, .function h, hp, ha, ⟨_, hs⟩ => by
    obtain ⟨inner, hinside, hf⟩ := h.renamed hprogram hp ha.2 (hprogram _ (.function hs))
      fun _ hmem => ⟨_, .function hs hmem⟩
    exact .function ⟨fun h => absurd rfl h, nofun⟩ hinside hf
  | .classDecl _ none _, _, .method h, hp, ha, ⟨_, hs⟩ =>
    .base ⟨fun h => absurd rfl h, nofun⟩ (h.renamed hprogram hp.2.2 ha.2.2 fun _ hf =>
      ⟨hprogram _ (.method hs hf), fun _ hmem => ⟨_, .method hs hf hmem⟩⟩)
  | .classDecl name (some superclass) _, _, .method h, hp, ha, ⟨_, hs⟩ => by
    have hmethods := h.renamed hprogram hp.2.2 ha.2.2 fun _ hf =>
      ⟨hprogram _ (.method hs hf), fun _ hmem => ⟨_, .method hs hf hmem⟩⟩
    obtain ⟨id, word, rfl, -⟩ := hp.2.1 _ rfl
    have hclass : Stmt.Renamed R none (.classDecl name (some (.var id word)) _)
        (.classDecl name (some (.var id (R.use none id word))) _) :=
      .derived ⟨fun h => absurd rfl h, nofun⟩ (fun h => absurd rfl h) hmethods
    rwa [R.use_none] at hclass

theorem Stmt.AllRenames.renamed (hprogram : Distinct program) : {ss ss' : List Stmt} →
    Stmt.AllRenames R ss ss' → Stmt.AllProper ss → Stmt.AllAvoid R.new ss →
    (∀ s ∈ ss, ∃ path, Stands program path s) → Stmt.AllRenamed R none ss ss'
  | _, _, .head h, hp, ha, hs =>
    .cons (h.renamed hprogram hp.1 ha.1 (hs _ (.head _))) (Stmt.allRenamed_self hp.2)
  | _, _, .tail h, hp, ha, hs =>
    .cons (Stmt.renamed_self hp.1) (h.renamed hprogram hp.2 ha.2 fun s hmem => hs s (.tail _ hmem))

theorem Function.Renames.renamed (hprogram : Distinct program) : {f f' : Function} →
    f.Renames R f' → f.Proper → f.Avoids R.new →
    ((f.parameters ++ Stmt.declaredAll f.body).map Token.lexeme).Nodup →
    (∀ s ∈ f.body, ∃ path, Stands program path s) →
    ∃ inner, Inside none inner ∧ f.Renamed R inner f'
  | f, _, .here hd, hp, ha, hnodup, _ =>
    ⟨some 0, .inr ⟨rfl, rfl⟩, f.renamed_rename hp (fun _ => ha) (hd.sole hnodup)⟩
  | .mk name parameters _, _, .body h, hp, ha, _, hs => by
    have hf : (Function.mk name parameters _).Renamed R none
        (.mk name (parameters.map (R.declare none)) _) :=
      .mk (fun _ _ h => absurd rfl h) (h.renamed hprogram hp.2.2 ha.2 hs)
    rw [List.map_congr_left fun token _ => R.declare_none token, List.map_id'] at hf
    exact ⟨none, .inl rfl, hf⟩

theorem Function.AllRenames.renamed (hprogram : Distinct program) : {fs fs' : List Function} →
    Function.AllRenames R fs fs' → Function.AllProper fs → Function.AllAvoid R.new fs →
    (∀ f ∈ fs, ((f.parameters ++ Stmt.declaredAll f.body).map Token.lexeme).Nodup ∧
      ∀ s ∈ f.body, ∃ path, Stands program path s) →
    Function.AllRenamed R none fs fs'
  | _, _, .head h, hp, ha, hs => by
    obtain ⟨hnodup, hstands⟩ := hs _ (.head _)
    obtain ⟨inner, hinside, hf⟩ := h.renamed hprogram hp.1 ha.1 hnodup hstands
    exact .cons hinside hf (Function.allRenamed_self hp.2)
  | _, _, .tail h, hp, ha, hs =>
    .cons (.inl rfl) (Function.renamed_self hp.1)
      (h.renamed hprogram hp.2 ha.2 fun f hmem => hs f (.tail _ hmem))

end

end Program

end Lox
