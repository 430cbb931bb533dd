import Lox.Number.Text

/-
  Json — values and their two written forms

  The compact form has no blanks; the indented form puts each member and each
  element on a line of its own, two blanks deeper than what holds it. Object
  members keep their order. Numbers are written with the fewest digits that
  read back; infinity and NaN, which the notation lacks, are written as null.
-/

namespace Lox

inductive Json where
  | string (text : String)
  | natural (n : Nat)
  | number (x : Float)
  | array (items : List Json)
  | object (members : List (String × Json))

namespace Json

/-- A hexadecimal digit. -/
def hexDigit (n : Nat) : Char := Nat.digitChar n

/-- A character inside a string: quotes, backslashes and control characters are
escaped, all others stand for themselves. -/
def escape (c : Char) : List Char :=
  match c with
  | '"' => ['\\', '"']
  | '\\' => ['\\', '\\']
  | '\x08' => ['\\', 'b']
  | '\x0c' => ['\\', 'f']
  | '\n' => ['\\', 'n']
  | '\r' => ['\\', 'r']
  | '\t' => ['\\', 't']
  | c =>
    if c.toNat < 32 then
      ['\\', 'u', '0', '0', hexDigit (c.toNat / 16), hexDigit (c.toNat % 16)]
    else [c]

/-- A text between quotes. -/
def quoted (text : String) : String :=
  .ofList ('"' :: (text.toList.flatMap escape ++ ['"']))

/-- Numbers: an exponent before 10^-5 and from 10^16 on, with its sign, and a
half goes to the even digit. -/
def numberFormat : Number.Rounded := ⟨.even, -5, 15, ['+']⟩

/-- The text of a number. -/
def numberText (x : Float) : String :=
  match Number.decode x with
  | .finite .. => numberFormat.text x
  | _ => "null"

mutual

/-- The compact form. -/
def compact : Json → String
  | string text => quoted text
  | natural n => toString n
  | number x => numberText x
  | array items => "[" ++ ",".intercalate (compactItems items) ++ "]"
  | object members => "\x7b" ++ ",".intercalate (compactMembers members) ++ "\x7d"

def compactItems : List Json → List String
  | [] => []
  | j :: js => j.compact :: compactItems js

def compactMembers : List (String × Json) → List String
  | [] => []
  | (name, j) :: ms => (quoted name ++ ":" ++ j.compact) :: compactMembers ms

end

/-- A new line with the given indentation. -/
def newLine (indent : Nat) : String := .ofList ('\n' :: List.replicate indent ' ')

/-- Entries between brackets, each on a line of its own. -/
def block (opening closing : String) (indent : Nat) (entries : List String) : String :=
  if entries.isEmpty then opening ++ closing
  else
    opening ++ newLine (indent + 2) ++ ("," ++ newLine (indent + 2)).intercalate entries ++
      newLine indent ++ closing

mutual

/-- The indented form, at a depth of `indent` blanks. -/
def indented (indent : Nat) : Json → String
  | string text => quoted text
  | natural n => toString n
  | number x => numberText x
  | array items => block "[" "]" indent (indentedItems (indent + 2) items)
  | object members => block "\x7b" "\x7d" indent (indentedMembers (indent + 2) members)

def indentedItems (indent : Nat) : List Json → List String
  | [] => []
  | j :: js => indented indent j :: indentedItems indent js

def indentedMembers (indent : Nat) : List (String × Json) → List String
  | [] => []
  | (name, j) :: ms => (quoted name ++ ": " ++ indented indent j) :: indentedMembers indent ms

end

end Json
end Lox
