import Lox.Expr.Printed
import Lox.Proofs.Form.Parsed
import Lox.Proofs.Tree.Alike

/-
  Printed forms of trees that are alike

  A printed form tells neither ids nor lines, so trees that are alike have the
  same one; and one of them has finite literals exactly if the other has.
-/

namespace Lox

variable {L : Likeness}

mutual

theorem Expr.Alike.chars_eq {e e' : Expr} : e.Alike L e' → e'.chars = e.chars
  | .number _ | .string _ | .boolean _ | .nil => rfl
  | .group h => by rw [Expr.chars, Expr.chars, h.chars_eq]
  | .unary ho h => by rw [Expr.chars, Expr.chars, ho.lexeme, h.chars_eq]
  | .binary ha ho hb | .logical ha ho hb => by
    simp only [Expr.chars, ho.lexeme, ha.chars_eq, hb.chars_eq]
  | .choice hc ha hb => by simp only [Expr.chars, hc.chars_eq, ha.chars_eq, hb.chars_eq]
  | .comma hs => by rw [Expr.chars, Expr.chars, hs.tailChars_eq]
  | .var _ hn => congrArg String.toList hn.lexeme
  | .assign _ hn h => by
    simp only [Expr.chars, Expr.spelling, hn.lexeme, h.chars_eq]
  | .call h _ hs => by simp only [Expr.chars, h.chars_eq, hs.tailChars_eq]
  | .get h hn => by simp only [Expr.chars, Expr.spelling, hn.lexeme, h.chars_eq]
  | .set h hn hv => by
    simp only [Expr.chars, Expr.spelling, hn.lexeme, h.chars_eq, hv.chars_eq]
  | .self _ _ => rfl
  | .super _ _ hm => by simp only [Expr.chars, Expr.spelling, hm.lexeme]

theorem Expr.AllAlike.tailChars_eq {es es' : List Expr} :
    Expr.AllAlike L es es' → Expr.tailChars es' = Expr.tailChars es
  | .nil => rfl
  | .cons h hs => by simp only [Expr.tailChars, h.chars_eq, hs.tailChars_eq]

end

/-- Trees that are alike are printed as the same text. -/
theorem Expr.Alike.printed_eq {e e' : Expr} (h : e.Alike L e') : e'.printed = e.printed :=
  congrArg String.ofList h.chars_eq

mutual

theorem Expr.Alike.finite {e e' : Expr} : e.Alike L e' → e.Finite → e'.Finite
  | .number _, he => he
  | .string _, _ | .boolean _, _ | .nil, _ => trivial
  | .group h, he => h.finite he
  | .unary _ h, he => h.finite he
  | .binary ha _ hb, he | .logical ha _ hb, he => ⟨ha.finite he.1, hb.finite he.2⟩
  | .choice hc ha hb, he => ⟨hc.finite he.1, ha.finite he.2.1, hb.finite he.2.2⟩
  | .comma hs, he => hs.finite he
  | .var _ _, _ | .self _ _, _ | .super _ _ _, _ => trivial
  | .assign _ _ h, he => h.finite he
  | .call h _ hs, he => ⟨h.finite he.1, hs.finite he.2⟩
  | .get h _, he => h.finite he
  | .set h _ hv, he => ⟨h.finite he.1, hv.finite he.2⟩

theorem Expr.AllAlike.finite {es es' : List Expr} :
    Expr.AllAlike L es es' → Expr.AllFinite es → Expr.AllFinite es'
  | .nil, _ => trivial
  | .cons h hs, he => ⟨h.finite he.1, hs.finite he.2⟩

end

end Lox
