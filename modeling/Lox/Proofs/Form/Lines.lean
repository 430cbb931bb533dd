import Lox.Expr.Form
import Lox.Proofs.Parse.Lines

/-
  Reading forms on other lines

  As for the grammar of programs: what is read from the same tokens on other
  lines is the same expression on those lines.
-/

namespace Lox.Form

open Parse

/-! ## Going forward -/

theorem forward_next : Forward next := by
  refine .bind (.take? _) fun token => ?_
  cases token with
  | none => exact .fail _
  | some t => exact .pure t

section Rules

variable {nested : Parser Expr} (hn : Forward nested)
include hn

theorem forward_remaining (n : Nat) : Forward (remaining nested n) := by
  induction n with
  | zero => exact .fail _
  | succ n ih =>
    rw [remaining]
    refine .bind (.take? _) fun token => ?_
    cases token with
    | none => exact .bind hn fun _ => .bind ih fun _ => .pure _
    | some paren => exact .pure _

theorem forward_assignment (equals : Token) : Forward (assignment nested equals) := by
  refine .bind hn fun target => ?_
  cases target with
  | var id name => exact .bind hn fun _ => .pure _
  | get object name => exact .bind hn fun _ => .pure _
  | _ => exact .throw _

theorem forward_operands (combine : Expr → Expr → Expr) : Forward (operands nested combine) :=
  .bind hn fun _ => .bind hn fun _ => .pure _

theorem forward_signed (operator : Token) : Forward (signed nested operator) :=
  .bind hn fun _ => .bind (.check _) fun _ => .ite (.pure _) (.bind hn fun _ => .pure _)

end Rules

theorem forward_closing (e : Expr) : Forward (closing e) := .bind (.expect _ _) fun _ => .pure e

theorem forward_list {nested : Parser Expr} (hn : Forward nested) (n : Nat) :
    Forward (list nested n) := by
  refine .bind forward_next fun head => ?_
  dsimp only
  split
  · refine .ite (.bind hn fun _ => forward_closing _) (.ite ?_ (.throw _))
    exact .bind hn fun _ => .bind (forward_remaining hn n) fun _ => .pure _
  · exact .bind (.expect _ _) fun _ => .bind .freshId fun _ => forward_closing _
  · exact .bind hn fun _ => .bind (.expect _ _) fun _ => forward_closing _
  · exact .bind (forward_assignment hn head) fun _ => forward_closing _
  · exact .bind (.expect _ _) fun _ => .bind hn fun _ => .bind hn fun _ => .bind hn fun _ =>
      forward_closing _
  · exact .bind (forward_remaining hn n) fun _ => .pure _
  · exact .bind (forward_operands hn _) fun _ => forward_closing _
  · exact .bind (forward_operands hn _) fun _ => forward_closing _
  · exact .bind (forward_signed hn head) fun _ => forward_closing _
  · exact .bind (forward_signed hn head) fun _ => forward_closing _
  · exact .ite (.bind (forward_operands hn _) fun _ => forward_closing _) (.throw _)

theorem forward_formOf {nested : Parser Expr} (hn : Forward nested) (n : Nat) :
    Forward (formOf nested n) := by
  refine .bind forward_next fun t => ?_
  split
  case h_6 => exact .bind .freshId fun _ => .pure _
  case h_7 => exact .bind .freshId fun _ => .pure _
  case h_8 => exact forward_list hn n
  case h_9 => exact .throw _
  all_goals exact .pure _

theorem forward_form (n : Nat) : Forward (form n) := by
  induction n with
  | zero => exact .fail _
  | succ n ih => exact forward_formOf ih (n + 1)

/-! ## Other lines -/

theorem follows_next {g : Nat → Nat} {k : Nat} : Follows g 0 k (·.mapLine g) next next :=
  .take? _ (fun _ _ _ => .pure rfl) (.fail _)

theorem follows_closing {g : Nat → Nat} {k : Nat} (e : Expr) :
    Follows g 0 k (·.relabel g fun i => i) (closing e) (closing (e.relabel g fun i => i)) :=
  .expect _ _ fun _ _ _ => .pure rfl

section Rules

variable {g : Nat → Nat} {nested : Parser Expr} {k : Nat} (fn : Forward nested)
  (hn : ∀ k, Follows g 0 k (·.relabel g fun i => i) nested nested)
include fn hn

theorem follows_remaining (n : Nat) :
    Follows g 0 k (fun (es, paren) => (Expr.relabelAll g (fun i => i) es, paren.mapLine g))
      (remaining nested n) (remaining nested n) := by
  induction n generalizing k with
  | zero => exact .fail _
  | succ n ih =>
    rw [remaining]
    refine .take? _ (fun t _ _ => .pure rfl) ?_
    exact .bind fn (hn k) fun e => .bind (forward_remaining fn n) ih fun _ => .pure rfl

theorem follows_assignment (equals : Token) :
    Follows g 0 k (·.relabel g fun i => i) (assignment nested equals)
      (assignment nested (equals.mapLine g)) := by
  refine .bind fn (hn k) fun target => ?_
  cases target with
  | var id name => exact .bind fn (hn k) fun _ => .pure rfl
  | get object name => exact .bind fn (hn k) fun _ => .pure rfl
  | _ => exact .throw _

theorem follows_operands {combine combine' : Expr → Expr → Expr}
    (hc : ∀ a b, (combine a b).relabel g (fun i => i) =
      combine' (a.relabel g fun i => i) (b.relabel g fun i => i)) :
    Follows g 0 k (·.relabel g fun i => i) (operands nested combine) (operands nested combine') :=
  .bind fn (hn k) fun _ => .bind fn (hn k) fun _ => .pure (hc _ _)

theorem follows_signed (operator : Token) :
    Follows g 0 k (·.relabel g fun i => i) (signed nested operator)
      (signed nested (operator.mapLine g)) :=
  .bind fn (hn k) fun _ => .bind (.check _) (.check _) fun _ => .ite .rfl (.pure rfl)
    (.bind fn (hn k) fun _ => .pure rfl)

theorem follows_list (n : Nat) :
    Follows g 0 k (·.relabel g fun i => i) (list nested n) (list nested n) := by
  refine .bind forward_next follows_next fun head => ?_
  simp only [Token.mapLine_kind, Token.mapLine_lexeme]
  split
  · refine .ite .rfl (.bind fn (hn k) fun _ => follows_closing _) (.ite .rfl ?_ (.throw _))
    exact .bind fn (hn k) fun _ => .bind (forward_remaining fn n) (follows_remaining fn hn n)
      fun _ => .pure rfl
  · exact .expect _ _ fun _ _ _ => .bind .freshId .freshId fun _ => follows_closing _
  · exact .bind fn (hn k) fun _ => .expect _ _ fun _ _ _ => follows_closing _
  · exact .bind (forward_assignment fn head) (follows_assignment fn hn head) fun _ =>
      follows_closing _
  · exact .expect _ _ fun _ _ _ => .bind fn (hn _) fun _ => .bind fn (hn _) fun _ =>
      .bind fn (hn _) fun _ => follows_closing _
  · exact .bind (forward_remaining fn n) (follows_remaining fn hn n) fun _ => .pure rfl
  · exact .bind (forward_operands fn _) (follows_operands fn hn fun _ _ => rfl) fun _ =>
      follows_closing _
  · exact .bind (forward_operands fn _) (follows_operands fn hn fun _ _ => rfl) fun _ =>
      follows_closing _
  · exact .bind (forward_signed fn head) (follows_signed fn hn head) fun _ => follows_closing _
  · exact .bind (forward_signed fn head) (follows_signed fn hn head) fun _ => follows_closing _
  · exact .ite .rfl (.bind (forward_operands fn _) (follows_operands fn hn fun _ _ => rfl)
      fun _ => follows_closing _) (.throw _)

theorem follows_formOf (n : Nat) :
    Follows g 0 k (·.relabel g fun i => i) (formOf nested n) (formOf nested n) := by
  refine .bind forward_next follows_next fun t => ?_
  simp only [Token.mapLine_kind]
  split
  case h_6 => exact .bind .freshId .freshId fun _ => .pure rfl
  case h_7 => exact .bind .freshId .freshId fun _ => .pure rfl
  case h_8 => exact follows_list fn hn n
  case h_9 => exact .throw _
  all_goals exact .pure rfl

end Rules

/-- A form that is read from the same tokens on other lines. -/
theorem follows_form (g : Nat → Nat) (n k : Nat) :
    Follows g 0 k (·.relabel g fun i => i) (form n) (form n) := by
  induction n generalizing k with
  | zero => exact .fail _
  | succ n ih => exact follows_formOf (forward_form n) ih (n + 1)

end Lox.Form
