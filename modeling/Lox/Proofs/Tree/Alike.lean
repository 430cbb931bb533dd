import Mathlib
import Lox.Stmt

/-
  Trees that are alike

  Two trees are alike if they differ at most in the ids of their nodes and in
  the lines of their tokens, and the ids and lines of one may stand for those of
  the other.
-/

namespace Lox

/-- What may differ between two runs: which ids and which lines stand for which
others. -/
structure Likeness where
  ids : Nat → Nat → Prop
  lines : Nat → Nat → Prop

/-- More ids and lines stand for each other. -/
structure Likeness.Le (L M : Likeness) : Prop where
  ids : ∀ i j, L.ids i j → M.ids i j
  lines : ∀ i j, L.lines i j → M.lines i j

variable {L M : Likeness}

structure Token.Matches (L : Likeness) (t t' : Token) : Prop where
  kind : t'.kind = t.kind
  lexeme : t'.lexeme = t.lexeme
  line : L.lines t.line t'.line

mutual

inductive Expr.Alike (L : Likeness) : Expr → Expr → Prop
  | number (value : Float) : Expr.Alike L (.number value) (.number value)
  | string (text : String) : Expr.Alike L (.string text) (.string text)
  | boolean (value : Bool) : Expr.Alike L (.boolean value) (.boolean value)
  | nil : Expr.Alike L .nil .nil
  | group {e e' : Expr} : e.Alike L e' → Expr.Alike L (.group e) (.group e')
  | unary {o o' : Token} {e e' : Expr} : o.Matches L o' → e.Alike L e' →
      Expr.Alike L (.unary o e) (.unary o' e')
  | binary {a a' b b' : Expr} {o o' : Token} : a.Alike L a' → o.Matches L o' → b.Alike L b' →
      Expr.Alike L (.binary a o b) (.binary a' o' b')
  | logical {a a' b b' : Expr} {o o' : Token} : a.Alike L a' → o.Matches L o' → b.Alike L b' →
      Expr.Alike L (.logical a o b) (.logical a' o' b')
  | choice {c c' a a' b b' : Expr} : c.Alike L c' → a.Alike L a' → b.Alike L b' →
      Expr.Alike L (.choice c a b) (.choice c' a' b')
  | comma {es es' : List Expr} : Expr.AllAlike L es es' → Expr.Alike L (.comma es) (.comma es')
  | var {i i' : Nat} {name name' : Token} : L.ids i i' → name.Matches L name' →
      Expr.Alike L (.var i name) (.var i' name')
  | assign {i i' : Nat} {name name' : Token} {e e' : Expr} : L.ids i i' → name.Matches L name' →
      e.Alike L e' → Expr.Alike L (.assign i name e) (.assign i' name' e')
  | call {e e' : Expr} {paren paren' : Token} {es es' : List Expr} : e.Alike L e' →
      paren.Matches L paren' → Expr.AllAlike L es es' →
      Expr.Alike L (.call e paren es) (.call e' paren' es')
  | get {e e' : Expr} {name name' : Token} : e.Alike L e' → name.Matches L name' →
      Expr.Alike L (.get e name) (.get e' name')
  | set {e e' v v' : Expr} {name name' : Token} : e.Alike L e' → name.Matches L name' →
      v.Alike L v' → Expr.Alike L (.set e name v) (.set e' name' v')
  | self {i i' : Nat} {keyword keyword' : Token} : L.ids i i' → keyword.Matches L keyword' →
      Expr.Alike L (.self i keyword) (.self i' keyword')
  | super {i i' : Nat} {keyword keyword' method method' : Token} : L.ids i i' →
      keyword.Matches L keyword' → method.Matches L method' →
      Expr.Alike L (.super i keyword method) (.super i' keyword' method')

inductive Expr.AllAlike (L : Likeness) : List Expr → List Expr → Prop
  | nil : Expr.AllAlike L [] []
  | cons {e e' : Expr} {es es' : List Expr} : e.Alike L e' → Expr.AllAlike L es es' →
      Expr.AllAlike L (e :: es) (e' :: es')

end

/-- What may be left out is left out in both, or alike. -/
inductive Expr.OptionAlike (L : Likeness) : Option Expr → Option Expr → Prop
  | none : Expr.OptionAlike L none none
  | some {e e' : Expr} : e.Alike L e' → Expr.OptionAlike L (some e) (some e')

mutual

inductive Stmt.Alike (L : Likeness) : Stmt → Stmt → Prop
  | expression {e e' : Expr} : e.Alike L e' → Stmt.Alike L (.expression e) (.expression e')
  | print {e e' : Expr} : e.Alike L e' → Stmt.Alike L (.print e) (.print e')
  | varDecl {name name' : Token} {e e' : Option Expr} : name.Matches L name' →
      Expr.OptionAlike L e e' → Stmt.Alike L (.varDecl name e) (.varDecl name' e')
  | block {ss ss' : List Stmt} : Stmt.AllAlike L ss ss' → Stmt.Alike L (.block ss) (.block ss')
  | ifThen {c c' : Expr} {s s' : Stmt} : c.Alike L c' → s.Alike L s' →
      Stmt.Alike L (.branch c s none) (.branch c' s' none)
  | ifElse {c c' : Expr} {a a' b b' : Stmt} : c.Alike L c' → a.Alike L a' → b.Alike L b' →
      Stmt.Alike L (.branch c a (some b)) (.branch c' a' (some b'))
  | loop {c c' : Expr} {s s' : Stmt} : c.Alike L c' → s.Alike L s' →
      Stmt.Alike L (.loop c s) (.loop c' s')
  | function {f f' : Function} : f.Alike L f' → Stmt.Alike L (.function f) (.function f')
  | yield {keyword keyword' : Token} {e e' : Option Expr} : keyword.Matches L keyword' →
      Expr.OptionAlike L e e' → Stmt.Alike L (.yield keyword e) (.yield keyword' e')
  | classDecl {name name' : Token} {e e' : Option Expr} {fs fs' : List Function} :
      name.Matches L name' → Expr.OptionAlike L e e' → Function.AllAlike L fs fs' →
      Stmt.Alike L (.classDecl name e fs) (.classDecl name' e' fs')

inductive Stmt.AllAlike (L : Likeness) : List Stmt → List Stmt → Prop
  | nil : Stmt.AllAlike L [] []
  | cons {s s' : Stmt} {ss ss' : List Stmt} : s.Alike L s' → Stmt.AllAlike L ss ss' →
      Stmt.AllAlike L (s :: ss) (s' :: ss')

inductive Function.Alike (L : Likeness) : Function → Function → Prop
  | mk {name name' : Token} {parameters parameters' : List Token} {ss ss' : List Stmt} :
      name.Matches L name' → List.Forall₂ (Token.Matches L) parameters parameters' →
      Stmt.AllAlike L ss ss' →
      Function.Alike L (.mk name parameters ss) (.mk name' parameters' ss')

inductive Function.AllAlike (L : Likeness) : List Function → List Function → Prop
  | nil : Function.AllAlike L [] []
  | cons {f f' : Function} {fs fs' : List Function} : f.Alike L f' →
      Function.AllAlike L fs fs' → Function.AllAlike L (f :: fs) (f' :: fs')

end

/-! ## What else stands for each other -/

theorem Token.Matches.mono (hle : L.Le M) {t t' : Token} (h : t.Matches L t') : t.Matches M t' :=
  ⟨h.kind, h.lexeme, hle.lines _ _ h.line⟩

mutual

theorem Expr.Alike.mono (hle : L.Le M) {e e' : Expr} : e.Alike L e' → e.Alike M e'
  | .number _ => .number _
  | .string _ => .string _
  | .boolean _ => .boolean _
  | .nil => .nil
  | .group h => .group (h.mono hle)
  | .unary ho h => .unary (ho.mono hle) (h.mono hle)
  | .binary ha ho hb => .binary (ha.mono hle) (ho.mono hle) (hb.mono hle)
  | .logical ha ho hb => .logical (ha.mono hle) (ho.mono hle) (hb.mono hle)
  | .choice hc ha hb => .choice (hc.mono hle) (ha.mono hle) (hb.mono hle)
  | .comma h => .comma (h.mono hle)
  | .var hi hn => .var (hle.ids _ _ hi) (hn.mono hle)
  | .assign hi hn h => .assign (hle.ids _ _ hi) (hn.mono hle) (h.mono hle)
  | .call h hp hs => .call (h.mono hle) (hp.mono hle) (hs.mono hle)
  | .get h hn => .get (h.mono hle) (hn.mono hle)
  | .set h hn hv => .set (h.mono hle) (hn.mono hle) (hv.mono hle)
  | .self hi hk => .self (hle.ids _ _ hi) (hk.mono hle)
  | .super hi hk hm => .super (hle.ids _ _ hi) (hk.mono hle) (hm.mono hle)

theorem Expr.AllAlike.mono (hle : L.Le M) {es es' : List Expr} :
    Expr.AllAlike L es es' → Expr.AllAlike M es es'
  | .nil => .nil
  | .cons h hs => .cons (h.mono hle) (hs.mono hle)

end

theorem Expr.OptionAlike.mono (hle : L.Le M) {e e' : Option Expr} :
    Expr.OptionAlike L e e' → Expr.OptionAlike M e e'
  | .none => .none
  | .some h => .some (h.mono hle)

mutual

theorem Stmt.Alike.mono (hle : L.Le M) {s s' : Stmt} : s.Alike L s' → s.Alike M s'
  | .expression h => .expression (h.mono hle)
  | .print h => .print (h.mono hle)
  | .varDecl hn h => .varDecl (hn.mono hle) (h.mono hle)
  | .block h => .block (h.mono hle)
  | .ifThen hc h => .ifThen (hc.mono hle) (h.mono hle)
  | .ifElse hc ha hb => .ifElse (hc.mono hle) (ha.mono hle) (hb.mono hle)
  | .loop hc h => .loop (hc.mono hle) (h.mono hle)
  | .function h => .function (h.mono hle)
  | .yield hk h => .yield (hk.mono hle) (h.mono hle)
  | .classDecl hn h hs => .classDecl (hn.mono hle) (h.mono hle) (hs.mono hle)

theorem Stmt.AllAlike.mono (hle : L.Le M) {ss ss' : List Stmt} :
    Stmt.AllAlike L ss ss' → Stmt.AllAlike M ss ss'
  | .nil => .nil
  | .cons h hs => .cons (h.mono hle) (hs.mono hle)

theorem Function.Alike.mono (hle : L.Le M) {f f' : Function} : f.Alike L f' → f.Alike M f'
  | .mk hn hp h => .mk (hn.mono hle) (hp.imp fun _ _ ht => ht.mono hle) (h.mono hle)

theorem Function.AllAlike.mono (hle : L.Le M) {fs fs' : List Function} :
    Function.AllAlike L fs fs' → Function.AllAlike M fs fs'
  | .nil => .nil
  | .cons h hs => .cons (h.mono hle) (hs.mono hle)

end

/-! ## What cannot differ -/

theorem Function.Alike.name {f f' : Function} (h : f.Alike L f') : f.name.Matches L f'.name := by
  cases h with
  | mk hn _ _ => exact hn

theorem Function.Alike.parameters {f f' : Function} (h : f.Alike L f') :
    List.Forall₂ (Token.Matches L) f.parameters f'.parameters := by
  cases h with
  | mk _ hp _ => exact hp

theorem Function.Alike.body {f f' : Function} (h : f.Alike L f') :
    Stmt.AllAlike L f.body f'.body := by
  cases h with
  | mk _ _ hb => exact hb

/-- The texts of tokens that are alike. -/
theorem lexemes_eq {ts ts' : List Token} (h : List.Forall₂ (Token.Matches L) ts ts') :
    ts'.map Token.lexeme = ts.map Token.lexeme := by
  induction h with
  | nil => rfl
  | cons ht _ ih => rw [List.map_cons, List.map_cons, ht.lexeme, ih]

/-- The lines that two expressions are reported at. -/
inductive LineAlike (L : Likeness) : Option Nat → Option Nat → Prop
  | none : LineAlike L none none
  | some {l l' : Nat} : L.lines l l' → LineAlike L (some l) (some l')

theorem LineAlike.getD {l l' : Option Nat} (h : LineAlike L l l') {k k' : Nat}
    (hk : L.lines k k') : L.lines (l.getD k) (l'.getD k') := by
  cases h with
  | none => exact hk
  | some hl => exact hl

mutual

theorem Expr.Alike.line? {e e' : Expr} : e.Alike L e' → LineAlike L e.line? e'.line?
  | .number _ | .string _ | .boolean _ | .nil => .none
  | .group h => h.line?
  | .unary ho _ => .some ho.line
  | .binary _ ho _ | .logical _ ho _ => .some ho.line
  | .choice hc _ _ => hc.line?
  | .comma hs => hs.firstLine?
  | .var _ hn | .assign _ hn _ => .some hn.line
  | .call _ hp _ => .some hp.line
  | .get _ hn | .set _ hn _ => .some hn.line
  | .self _ hk | .super _ hk _ => .some hk.line

theorem Expr.AllAlike.firstLine? {es es' : List Expr} :
    Expr.AllAlike L es es' → LineAlike L (Expr.firstLine? es) (Expr.firstLine? es')
  | .nil => .none
  | @Expr.AllAlike.cons _ e e' _ _ h hs => by
    have hline := h.line?
    have hrest := hs.firstLine?
    rw [Expr.firstLine?, Expr.firstLine?]
    generalize e.line? = l at hline
    generalize e'.line? = l' at hline
    cases hline with
    | none => exact hrest
    | some hl => exact .some hl

end

end Lox
