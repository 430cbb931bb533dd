import Lox.Text.Quoted
import Lox.Value

/-
  Inspection — values with their kind, for those who look at them from outside
-/

namespace Lox.Value

/-- Inspected numbers have a point or an exponent; the exponent comes in before
10^-4 and from 10^16 on. -/
def inspectedNumber : Number.Rounded := ⟨.up, -4, 15, []⟩

/-- A value with its kind. -/
def inspect : Value → String
  | string text => "String(" ++ Text.quoted text ++ ")"
  | number x => "Number(" ++ inspectedNumber.text x ++ ")"
  | boolean true => "Bool(true)"
  | boolean false => "Bool(false)"
  | v => v.kindName ++ "(" ++ v.display ++ ")"

/-- The function, class or object that a value refers to. -/
def inspectReferent? : Value → Option String
  | clock => some "<native fn clock>"
  | function _ closure => some ("<fn " ++ closure.name ++ ">")
  | cls _ c => some ("<class " ++ c.name ++ ">")
  | object _ c => some ("<" ++ c.name ++ " instance>")
  | _ => none

end Lox.Value
