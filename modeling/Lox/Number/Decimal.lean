import Lox.Number.Binary64

/-
  Decimal — decimals `digits · 10^exponent`, read and chosen exactly

  `Decimal.toFloat` reads a decimal as the nearest number. `Decimal.shortest`
  goes the other way: of all decimals that read back as a given number it
  takes one with the fewest digits, and of those the nearest to the number.

  The decimals that read back as `m · 2^q` are those between the midpoints to
  its two neighbours, the midpoints themselves included iff `m` is even. On a
  decimal grid `10^k` only the two grid points around the number can be the
  nearest ones, so the search asks for those two, from coarse grids to fine.
-/

namespace Lox.Number

local instance (priority := high) decimalPower : Pow Nat Nat := instPowNat

/-- The decimal `digits · 10^exponent`. -/
structure Decimal where
  digits : Nat
  exponent : Int
  deriving DecidableEq, Repr

namespace Decimal

/-- The number nearest to a decimal, ties going to the even significand. -/
def toFloat (d : Decimal) : Float :=
  nearest (d.digits * 10 ^ d.exponent.toNat) (10 ^ (-d.exponent).toNat)

/-- The decimal that is exactly `m · 2^q`. -/
def exact (m : Nat) (q : Int) : Decimal :=
  ⟨m * 2 ^ q.toNat * 5 ^ (-q).toNat, min q 0⟩

/-- Which of two equally near decimals is taken. -/
inductive Tie where
  /-- the greater one -/
  | up
  /-- the one whose last digit is even -/
  | even
  deriving DecidableEq, Repr

/-- The distance from `m · 2^q` to the midpoint below it, in quarters of `2^q`:
half a step, or a quarter where the numbers below stand twice as close. -/
def quartersBelow (m : Nat) (q : Int) : Nat :=
  if m = 2 ^ (52 : Nat) ∧ minExponent < q then 1 else 2

/-- Whether `c · 10^k` reads back as `m · 2^q`: it lies between the midpoints
to the neighbours, which count iff `m` is even. -/
def readsBack (m : Nat) (q : Int) (c : Nat) (k : Int) : Bool :=
  -- a quarter of `2^q` and the point, in one unit that makes both whole
  let unit := 2 ^ (q - 2).toNat * 10 ^ (-k).toNat
  let point := c * (2 ^ (2 - q).toNat * 10 ^ k.toNat)
  let low := (4 * m - quartersBelow m q) * unit
  let high := (4 * m + 2) * unit
  if m % 2 = 0 then low ≤ point ∧ point ≤ high else low < point ∧ point < high

/-- The decimal nearest to `m · 2^q` among the grid points around it, if one of
them reads back. -/
def onGrid? (tie : Tie) (m : Nat) (q : Int) (k : Int) : Option Decimal :=
  let value := 4 * m * (2 ^ (q - 2).toNat * 10 ^ (-k).toNat)
  let step := 2 ^ (2 - q).toNat * 10 ^ k.toNat
  let c := value / step
  let below := value - c * step
  let above := (c + 1) * step - value
  match readsBack m q c k, readsBack m q (c + 1) k with
  | false, false => none
  | true, false => some ⟨c, k⟩
  | false, true => some ⟨c + 1, k⟩
  | true, true =>
    -- both read back: the nearer one, or what the tie rule says
    if below < above then some ⟨c, k⟩
    else if above < below then some ⟨c + 1, k⟩
    else match tie with
      | .up => some ⟨c + 1, k⟩
      | .even => some ⟨c + c % 2, k⟩

/-- The first decimal found on the grids `10^k`, `10^(k-1)`, …; after the given
number of grids the exact decimal, which always reads back. -/
def search (tie : Tie) (m : Nat) (q : Int) (k : Int) : Nat → Decimal
  | 0 => exact m q
  | grids + 1 =>
    match onGrid? tie m q k with
    | some d => d
    | none => search tie m q (k - 1) grids

/-- A power of ten above `m · 2^q`, at most three places too high. -/
def topExponent (m : Nat) (q : Int) : Int :=
  (m.log2 + 1 + q) * 30103 / 100000 + 2

/-- The shortest decimal that reads back as `m · 2^q`, for positive `m`. Past
the few empty grids on top, seventeen digits always suffice. -/
def shortest (tie : Tie) (m : Nat) (q : Int) : Decimal :=
  search tie m q (topExponent m q) 21

/-- Drops `count` trailing zeros at most. -/
def dropZeros (d : Decimal) : Nat → Decimal
  | 0 => d
  | count + 1 =>
    if d.digits % 10 = 0 ∧ d.digits ≠ 0 then
      dropZeros ⟨d.digits / 10, d.exponent + 1⟩ count
    else d

end Decimal
end Lox.Number
