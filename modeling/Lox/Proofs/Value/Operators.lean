import Lox.Value.Operators

/-
  Operators and their problems

  The kinds that are operators, what operators make of values, and all that can
  go wrong when they are applied.
-/

namespace Lox

namespace Kind

/-- The operators in front of an operand. -/
def unaryOperators : List Kind := [bang, minus]

/-- The operators between operands that are both evaluated. -/
def binaryOperators : List Kind :=
  [bangEqual, equalEqual, greater, greaterEqual, less, lessEqual, minus, plus, slash, star]

end Kind

namespace RuntimeProblem

/-- What the operands of an operator can be wrong in. -/
def ofOperands : List RuntimeProblem :=
  [operandNotNumber, operandsNotNumbers, operandsNotAddable, divisionByZero]

end RuntimeProblem

namespace Value

open RuntimeProblem (ofOperands)

theorem problem_of_add {a b : Value} {problem : RuntimeProblem} (h : add a b = .error problem) :
    problem ∈ ofOperands := by
  unfold add at h
  split at h <;> cases h
  simp [ofOperands]

theorem problem_of_divide {x y : Float} {problem : RuntimeProblem}
    (h : divide x y = .error problem) : problem ∈ ofOperands := by
  unfold divide at h
  dsimp only at h
  split at h <;> cases h
  simp [ofOperands]

theorem problem_of_onNumbers {f : Float → Float → Except RuntimeProblem Value} {a b : Value}
    {problem : RuntimeProblem} (hf : ∀ x y p, f x y = .error p → p ∈ ofOperands)
    (h : onNumbers f a b = .error problem) : problem ∈ ofOperands := by
  unfold onNumbers at h
  split at h
  · exact hf _ _ _ h
  · cases h
    simp [ofOperands]

/-- A unary operator fails because of its operand, or is none. -/
theorem problem_of_unary {operator : Token} {v : Value} {problem : RuntimeProblem}
    (h : v.unary operator = .error problem) :
    problem ∈ ofOperands ∨
      operator.kind ∉ Kind.unaryOperators ∧ problem = .invalidUnary operator.lexeme := by
  unfold unary at h
  split at h
  · split at h <;> cases h
    simp [ofOperands]
  · cases h
  · rename_i hminus hbang
    cases h
    exact .inr ⟨by simp_all [Kind.unaryOperators], rfl⟩

/-- A binary operator fails because of its operands, or is none. -/
theorem problem_of_binary {operator : Token} {a b : Value} {problem : RuntimeProblem}
    (h : a.binary operator b = .error problem) :
    problem ∈ ofOperands ∨
      operator.kind ∉ Kind.binaryOperators ∧ problem = .invalidBinary operator.lexeme := by
  unfold binary at h
  split at h
  · exact .inl (problem_of_add h)
  · exact .inl (problem_of_onNumbers (by simp) h)
  · exact .inl (problem_of_onNumbers (by simp) h)
  · exact .inl (problem_of_onNumbers (fun _ _ _ => problem_of_divide) h)
  · exact .inl (problem_of_onNumbers (by simp) h)
  · exact .inl (problem_of_onNumbers (by simp) h)
  · exact .inl (problem_of_onNumbers (by simp) h)
  · exact .inl (problem_of_onNumbers (by simp) h)
  · cases h
  · cases h
  · cases h
    exact .inr ⟨by simp_all [Kind.binaryOperators], rfl⟩

/-! ## What operators make -/

/-- A value that refers to nothing. -/
def Atomic : Value → Prop
  | boolean _ | number _ | string _ => True
  | _ => False

theorem atomic_of_unary {operator : Token} {v w : Value} (h : v.unary operator = .ok w) :
    w.Atomic := by
  unfold unary at h
  split at h
  · split at h <;> cases h
    trivial
  · cases h
    trivial
  · cases h

theorem atomic_of_add {a b w : Value} (h : add a b = .ok w) : w.Atomic := by
  unfold add at h
  split at h <;> cases h <;> trivial

theorem atomic_of_divide {x y : Float} {w : Value} (h : divide x y = .ok w) : w.Atomic := by
  unfold divide at h
  dsimp only at h
  split at h <;> cases h
  trivial

theorem atomic_of_onNumbers {f : Float → Float → Except RuntimeProblem Value} {a b w : Value}
    (hf : ∀ x y w, f x y = .ok w → w.Atomic) (h : onNumbers f a b = .ok w) : w.Atomic := by
  unfold onNumbers at h
  split at h
  · exact hf _ _ _ h
  · cases h

theorem atomic_of_binary {operator : Token} {a b w : Value} (h : a.binary operator b = .ok w) :
    w.Atomic := by
  have hnumber : ∀ (x y : Float) (w : Value) (f : Float → Float → Float),
      (.ok (number (f x y)) : Except RuntimeProblem Value) = .ok w → w.Atomic := by
    rintro x y w f ⟨⟩
    trivial
  have hboolean : ∀ (w : Value) (b : Bool),
      (.ok (boolean b) : Except RuntimeProblem Value) = .ok w → w.Atomic := by
    rintro w b ⟨⟩
    trivial
  unfold binary at h
  split at h
  · exact atomic_of_add h
  · exact atomic_of_onNumbers (fun x y w => hnumber x y w (· - ·)) h
  · exact atomic_of_onNumbers (fun x y w => hnumber x y w (· * ·)) h
  · exact atomic_of_onNumbers (fun _ _ _ => atomic_of_divide) h
  · exact atomic_of_onNumbers (fun _ _ w => hboolean w _) h
  · exact atomic_of_onNumbers (fun _ _ w => hboolean w _) h
  · exact atomic_of_onNumbers (fun _ _ w => hboolean w _) h
  · exact atomic_of_onNumbers (fun _ _ w => hboolean w _) h
  · exact hboolean w _ h
  · exact hboolean w _ h
  · cases h

end Value
end Lox
