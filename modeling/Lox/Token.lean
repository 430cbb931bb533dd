import Lox.Number.Text

/-
  Tokens — the words of a program

  A token is its kind, the characters it was read from (its lexeme) and the
  line it ends on. Kinds of literals carry the literal's value. The keyword
  table decides which identifiers are keywords.
-/

namespace Lox

/-- What a token is. -/
inductive Kind where
  | leftParen | rightParen | leftBrace | rightBrace
  | comma | dot | minus | plus | semicolon | slash | star | question | colon
  | bang | bangEqual | equal | equalEqual | greater | greaterEqual | less | lessEqual
  | identifier
  /-- A string literal with the text between its quotes. -/
  | string (text : String)
  /-- A number literal with its value. -/
  | number (value : Float)
  | andWord | classWord | elseWord | falseWord | funWord | forWord | ifWord | nilWord
  | orWord | printWord | returnWord | superWord | thisWord | trueWord | varWord | whileWord
  /-- The end of the source. -/
  | eof
  deriving DecidableEq

namespace Kind

/-- The name of a kind in listings. -/
def name : Kind → String
  | leftParen => "LEFT_PAREN"
  | rightParen => "RIGHT_PAREN"
  | leftBrace => "LEFT_BRACE"
  | rightBrace => "RIGHT_BRACE"
  | comma => "COMMA"
  | dot => "DOT"
  | minus => "MINUS"
  | plus => "PLUS"
  | semicolon => "SEMICOLON"
  | slash => "SLASH"
  | star => "STAR"
  | question => "QUESTION"
  | colon => "COLON"
  | bang => "BANG"
  | bangEqual => "BANG_EQUAL"
  | equal => "EQUAL"
  | equalEqual => "EQUAL_EQUAL"
  | greater => "GREATER"
  | greaterEqual => "GREATER_EQUAL"
  | less => "LESS"
  | lessEqual => "LESS_EQUAL"
  | identifier => "IDENTIFIER"
  | string _ => "STRING"
  | number _ => "NUMBER"
  | andWord => "AND"
  | classWord => "CLASS"
  | elseWord => "ELSE"
  | falseWord => "FALSE"
  | funWord => "FUN"
  | forWord => "FOR"
  | ifWord => "IF"
  | nilWord => "NIL"
  | orWord => "OR"
  | printWord => "PRINT"
  | returnWord => "RETURN"
  | superWord => "SUPER"
  | thisWord => "THIS"
  | trueWord => "TRUE"
  | varWord => "VAR"
  | whileWord => "WHILE"
  | eof => "EOF"

/-- The kinds that carry no literal. -/
def plain : List Kind :=
  [leftParen, rightParen, leftBrace, rightBrace, comma, dot, minus, plus, semicolon, slash,
   star, question, colon, bang, bangEqual, equal, equalEqual, greater, greaterEqual, less,
   lessEqual, identifier, andWord, classWord, elseWord, falseWord, funWord, forWord, ifWord,
   nilWord, orWord, printWord, returnWord, superWord, thisWord, trueWord, varWord, whileWord,
   eof]

/-- The words that are no identifiers. -/
def keywords : List (String × Kind) :=
  [("and", andWord), ("class", classWord), ("else", elseWord), ("false", falseWord),
   ("for", forWord), ("fun", funWord), ("if", ifWord), ("nil", nilWord), ("or", orWord),
   ("print", printWord), ("return", returnWord), ("super", superWord), ("this", thisWord),
   ("true", trueWord), ("var", varWord), ("while", whileWord)]

/-- The kind of a word: its keyword, or else an identifier. -/
def ofWord (word : String) : Kind := (keywords.lookup word).getD identifier

/-- Listings write whole numbers below 2^63 as integers followed by a zero
fraction, larger ones with the fewest digits, padded with zeros. -/
def numberFormat : Number.Plain := ⟨some 9223372036854775808, ['.', '0']⟩

/-- The literal of a kind in listings. -/
def literalText : Kind → String
  | string text => text
  | number value => numberFormat.text value
  | _ => "null"

end Kind

/-- A token of a program. -/
structure Token where
  kind : Kind
  lexeme : String
  line : Nat
  deriving DecidableEq

namespace Token

/-- A token in a listing: kind, lexeme and literal. -/
def listing (t : Token) : String :=
  t.kind.name ++ " " ++ t.lexeme ++ " " ++ t.kind.literalText

/-- Whether a token marks the end of the source. -/
def isEof (t : Token) : Bool := t.kind == .eof

/-- The end marker that is assumed where a token list has none. -/
def missingEof : Token := ⟨.eof, "", 0⟩

end Token
end Lox
