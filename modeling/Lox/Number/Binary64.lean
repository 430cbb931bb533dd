/-
  Binary64 — a number as the pair of integers behind it

  A finite number is `m · 2^q` with `m < 2^53`. This module takes a number
  apart into that pair (`decode`) and puts the number nearest to a positive
  fraction together (`nearest`), so that reading and writing decimals is
  arithmetic on naturals.

  The bit pattern of a finite positive number is `(q + 1074) · 2^52 + m`, for
  small (subnormal) numbers too: there `q = -1074`. A significand that rounds
  up to `2^53` therefore carries into the exponent by itself, and every
  pattern past the largest finite one is cut to the pattern of infinity.
-/

namespace Lox.Number

-- powers are those of the naturals, whatever else is a monoid
local instance (priority := high) naturalPower : Pow Nat Nat := instPowNat

/-- A number by what its bit pattern says. -/
inductive Binary64 where
  /-- The number `± m · 2^q`. -/
  | finite (negative : Bool) (m : Nat) (q : Int)
  | infinite (negative : Bool)
  | notANumber
  deriving DecidableEq, Repr

/-- The exponent of the smallest numbers, and the least one there is. -/
def minExponent : Int := -1074

/-- The pattern of infinity, without its sign. -/
def infinityBits : Nat := 2047 * 2 ^ (52 : Nat)

/-- The parts of a bit pattern: one sign bit, 11 exponent bits, 52 bits of
significand whose leading one is left out unless the exponent bits are zero. -/
def Binary64.ofBits (bits : Nat) : Binary64 :=
  let negative := bits / 2 ^ (63 : Nat) % 2 == 1
  let exponent : Nat := bits / 2 ^ (52 : Nat) % 2 ^ (11 : Nat)
  let fraction : Nat := bits % 2 ^ (52 : Nat)
  if exponent = 2047 then
    if fraction = 0 then .infinite negative else .notANumber
  else if exponent = 0 then .finite negative fraction minExponent
  else .finite negative (2 ^ (52 : Nat) + fraction) (minExponent + exponent - 1)

/-- The parts of a number. -/
def decode (x : Float) : Binary64 := .ofBits x.toBits.toNat

/-- The fraction `a / b` rounded to an integer, a half going to the even one. -/
def roundHalfEven (a b : Nat) : Nat :=
  let q := a / b
  let r := a % b
  if 2 * r < b then q
  else if b < 2 * r then q + 1
  else q + q % 2

/-- The greatest `e` with `2^e ≤ a / b`, for positive `a` and `b`. -/
def floorLog2 (a b : Nat) : Int :=
  let e : Int := a.log2 - b.log2
  if b * 2 ^ e.toNat ≤ a * 2 ^ (-e).toNat then e else e - 1

/-- The bit pattern of the number nearest to `a / b`; of two equally near ones,
the one with the even significand. -/
def nearestBits (a b : Nat) : Nat :=
  if a = 0 then 0
  else
    -- one step of the grid on which `a / b` has 53 bits, or of the finest grid
    let q := max (floorLog2 a b - 52) minExponent
    -- may be `2^53`, which carries into the exponent bits
    let m := roundHalfEven (a * 2 ^ (-q).toNat) (b * 2 ^ q.toNat)
    min ((q - minExponent).toNat * 2 ^ (52 : Nat) + m) infinityBits

/-- The number nearest to `a / b`. -/
def nearest (a b : Nat) : Float :=
  .ofBits (.ofNat (nearestBits a b))

/-- Whether a finite number has no fraction. -/
def isWhole (m : Nat) (q : Int) : Bool := m % 2 ^ (-q).toNat == 0

/-- The integer that a finite number without a fraction is. -/
def wholePart (m : Nat) (q : Int) : Nat := m * 2 ^ q.toNat / 2 ^ (-q).toNat

end Lox.Number
