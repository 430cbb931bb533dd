import Lox.Json
import Lox.Token

/-
  Token listings as Json — an array with one object per token

  A kind is its name; a kind with a literal is an object with the name as its
  only member.
-/

namespace Lox

def Kind.json (k : Kind) : Json :=
  match k with
  | .string text => .object [(k.name, .string text)]
  | .number value => .object [(k.name, .number value)]
  | _ => .string k.name

def Token.json (t : Token) : Json :=
  .object [("token_type", t.kind.json), ("lexeme", .string t.lexeme), ("line", .natural t.line)]

/-- The listing of a token list. -/
def Token.listJson (tokens : List Token) : Json := .array (tokens.map Token.json)

end Lox
