import Lox.Number.Decimal

/-
  Number texts — how numbers are written

  A `Plain` format never writes an exponent: whole numbers are written with all
  their digits, others with the fewest digits that read back. A `Rounded`
  format always writes the fewest digits, and an exponent for very large and
  very small numbers. Texts are built as lists of characters.
-/

namespace Lox.Number

/-- The decimal digits of a natural number. -/
def digitsOf (n : Nat) : List Char := Nat.toDigits 10 n

/-- A decimal with its point and without an exponent; a whole one has no point. -/
def Decimal.positional (d : Decimal) : List Char :=
  let digits := digitsOf d.digits
  if 0 ≤ d.exponent then digits ++ List.replicate d.exponent.toNat '0'
  else
    let places := (-d.exponent).toNat
    let padded := List.replicate (places + 1 - digits.length) '0' ++ digits
    padded.take (padded.length - places) ++ '.' :: padded.drop (padded.length - places)

/-- The exponent of a decimal's first digit. -/
def Decimal.leading (d : Decimal) : Int := (digitsOf d.digits).length - 1 + d.exponent

/-- A decimal with one digit before the point and an exponent, whose sign is
`plus` unless it is negative. -/
def Decimal.scientific (d : Decimal) (plus : List Char) : List Char :=
  let mantissa := match digitsOf d.digits with
    | first :: rest@(_ :: _) => first :: '.' :: rest
    | digits => digits
  let sign := if d.leading < 0 then ['-'] else plus
  mantissa ++ 'e' :: sign ++ digitsOf d.leading.natAbs

/-- The minus sign of a negative number, the zero with a sign included. -/
def signOf (negative : Bool) : List Char := if negative then ['-'] else []

/-- A format without exponents. -/
structure Plain where
  /-- Whole numbers from here on are treated like numbers with a fraction. -/
  wholeBelow : Option Nat
  /-- What follows the digits of a whole number. -/
  wholeEnd : List Char

/-- Whether a finite number is written as a whole one. -/
def Plain.asWhole (f : Plain) (m : Nat) (q : Int) : Bool :=
  isWhole m q && match f.wholeBelow with
    | none => true
    | some bound => wholePart m q < bound

/-- The text of a finite number without its sign. -/
def Plain.magnitude (f : Plain) (m : Nat) (q : Int) : List Char :=
  if f.asWhole m q then digitsOf (wholePart m q) ++ f.wholeEnd
  else (Decimal.shortest .up m q).positional

/-- The text of a number in a format without exponents. -/
def Plain.chars (f : Plain) (x : Float) : List Char :=
  match decode x with
  | .notANumber => ['N', 'a', 'N']
  | .infinite negative => signOf negative ++ ['i', 'n', 'f']
  | .finite negative m q => signOf negative ++ f.magnitude m q

/-- The text of a number in a format without exponents. -/
def Plain.text (f : Plain) (x : Float) : String := .ofList (f.chars x)

/-- A format that writes the fewest digits that read back, always with a point
or an exponent. -/
structure Rounded where
  tie : Decimal.Tie
  /-- The least exponent of the first digit that is written without exponent. -/
  low : Int
  /-- The greatest exponent of the first digit that is written without exponent. -/
  high : Int
  /-- The sign of positive exponents. -/
  plus : List Char

/-- The text of a finite number without its sign. -/
def Rounded.magnitude (f : Rounded) (m : Nat) (q : Int) : List Char :=
  if m = 0 then ['0', '.', '0']
  else
    let d := (Decimal.shortest f.tie m q).dropZeros 17
    if f.low ≤ d.leading ∧ d.leading ≤ f.high then
      d.positional ++ if 0 ≤ d.exponent then ['.', '0'] else []
    else d.scientific f.plus

/-- The text of a number in a format with exponents. -/
def Rounded.chars (f : Rounded) (x : Float) : List Char :=
  match decode x with
  | .notANumber => ['N', 'a', 'N']
  | .infinite negative => signOf negative ++ ['i', 'n', 'f']
  | .finite negative m q => signOf negative ++ f.magnitude m q

/-- The text of a number in a format with exponents. -/
def Rounded.text (f : Rounded) (x : Float) : String := .ofList (f.chars x)

/-- The value of a digit character. -/
def digitValue (c : Char) : Nat := c.toNat - '0'.toNat

/-- The number that a run of digits stands for. -/
def natOfDigits (digits : List Char) : Nat :=
  digits.foldl (fun n c => 10 * n + digitValue c) 0

/-- Reads digits with an optional point and fraction as the nearest number. -/
def ofDigits (whole fraction : List Char) : Float :=
  Decimal.toFloat ⟨natOfDigits (whole ++ fraction), -fraction.length⟩

/-- Reads a text of digits, which may have a point in it. -/
def ofText (text : String) : Float :=
  ofDigits (text.toList.takeWhile (· != '.')) (text.toList.dropWhile (· != '.')).tail

end Lox.Number
