import Lox.Parse.Stmt

/-
  The parser without recovery

  The rules are those of the parser, except that no declaration is left out: the
  first error that ends a declaration ends everything around it as well. Errors
  that are only recorded change nothing here either. So where the strict parser
  comes to a result, no place to go on was ever looked for.
-/

namespace Lox.Parse

/-- Declarations up to the end of the tokens, each read by the given rule. -/
def declarationsToEnd (rule : Parser (Option Stmt)) : Nat → Parser (List Stmt)
  | 0 => pure []
  | k + 1 => do
    if ← atEnd then pure []
    else
      let first ← rule
      let more ← declarationsToEnd rule k
      pure (first.toList ++ more)

theorem program_eq (n k : Nat) : program n k = declarationsToEnd (declaration n) k := by
  induction k with
  | zero => rfl
  | succ k ih => rw [program, declarationsToEnd, ih]

namespace Strict

/-- A declaration that is not left out if it has a syntax error. -/
def declarationOf (nestedStatement : Parser Stmt) (nestedDeclaration : Parser (Option Stmt))
    (n : Nat) : Parser Stmt := do
  match ← take? startsDeclaration with
  | none => statementOf nestedStatement nestedDeclaration n
  | some t =>
    match t.kind with
    | .classWord => classRest nestedDeclaration n
    | .funWord => .function <$> functionOf nestedDeclaration n .function
    | _ => variableRest n

mutual

def statement : Nat → Parser Stmt
  | 0 => fail .expression
  | n + 1 => statementOf (statement n) (some <$> declaration n) (n + 1)

def declaration : Nat → Parser Stmt
  | 0 => fail .expression
  | n + 1 => declarationOf (statement n) (some <$> declaration n) (n + 1)

end

def program (n k : Nat) : Parser (List Stmt) := declarationsToEnd (some <$> declaration n) k

end Strict

/-- Recovery is all that the parser adds to the strict rule for declarations. -/
theorem declarationOf_eq (nestedStatement : Parser Stmt)
    (nestedDeclaration : Parser (Option Stmt)) (n : Nat) :
    declarationOf nestedStatement nestedDeclaration n =
      recover (Strict.declarationOf nestedStatement nestedDeclaration n) := rfl

end Lox.Parse
