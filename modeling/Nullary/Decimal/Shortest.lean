/-
  The shortest decimal that stands for a binary number.

  A double other than an infinity is a whole number times a
  power of two.  The decimals that round to it fill an
  interval around it; of those, the one with the fewest
  digits is taken, and of several the nearest.

  Key definitions include:
    * `Binary`
    * `Binary.ofBits`
    * `Decimal`
    * `Binary.shortest`
-/

namespace Nullary

------------------------------------------------------------
-- Binary Numbers
------------------------------------------------------------

/- The number `mantissa * 2 ^ exponent`. -/
structure Binary where
  mantissa : Nat
  exponent : Int
deriving DecidableEq, Repr

namespace Binary

/- The exponent of the smallest doubles. -/
def leastExponent : Int :=
  -1074

/- The size of a finite double, given its bits; the sign bit does not count. -/
def ofBits
    (bits : UInt64) : Binary :=
  let fraction := (bits &&& 0xFFFFFFFFFFFFF).toNat
  let field := ((bits >>> 52) &&& 0x7FF).toNat
  if field = 0 then
    ⟨fraction, leastExponent⟩
  else
    ⟨fraction + Nat.pow 2 52, leastExponent + (field - 1)⟩

/- The gap below a power of two is half as wide as the gap above it. -/
def isNarrowBelow
    (b : Binary) : Bool :=
  b.mantissa == Nat.pow 2 52 && b.exponent != leastExponent

end Binary

------------------------------------------------------------
-- Decimals
------------------------------------------------------------

/- The number `digits * 10 ^ exponent`. -/
structure Decimal where
  digits : Nat
  exponent : Int
deriving DecidableEq, Repr

namespace Decimal

/- Take zeros off the end of the digits, at most `fuel` of them. -/
def stripZeros : Nat → Decimal → Decimal
  | 0, d => d
  | fuel + 1, d =>
      if d.digits ≠ 0 ∧ d.digits % 10 = 0 then
        stripZeros fuel ⟨d.digits / 10, d.exponent + 1⟩
      else
        d

end Decimal

------------------------------------------------------------
-- The Shortest Decimal
------------------------------------------------------------

namespace Binary

/- A quotient of whole numbers that stands for a positive number. -/
structure Quotient where
  numerator : Nat
  denominator : Nat

namespace Quotient

/- The quotient for `mantissa * 2 ^ exponent`. -/
def ofPower
    (mantissa : Nat)
    (exponent : Int) : Quotient :=
  if exponent < 0 then
    ⟨mantissa, Nat.pow 2 exponent.natAbs⟩
  else
    ⟨mantissa * Nat.pow 2 exponent.natAbs, 1⟩

/- A quotient divided by a power of ten. -/
def scaleDown
    (x : Quotient)
    (exponent : Int) : Quotient :=
  if exponent < 0 then
    ⟨x.numerator * Nat.pow 10 exponent.natAbs, x.denominator⟩
  else
    ⟨x.numerator, x.denominator * Nat.pow 10 exponent.natAbs⟩

/- The number of places by which a small quotient must be raised to reach one. -/
def placesBelowOne
    (x : Quotient) : Nat → Nat
  | 0 => 0
  | fuel + 1 =>
      if x.denominator ≤ x.numerator then
        0
      else
        placesBelowOne ⟨x.numerator * 10, x.denominator⟩ fuel + 1

/- The exponent of the first decimal digit. -/
def magnitude
    (x : Quotient) : Int :=
  if x.denominator ≤ x.numerator then
    (Nat.toDigits 10 (x.numerator / x.denominator)).length - 1
  else
    -(placesBelowOne x 400 : Nat)

end Quotient

/- The interval of the numbers that round to a binary number, ends included or not. -/
structure Rounding where
  low : Quotient
  high : Quotient
  closed : Bool

namespace Rounding

/- A whole number lies in the interval. -/
def contains
    (r : Rounding)
    (n : Nat) : Bool :=
  let aboveLow := r.low.numerator < n * r.low.denominator ||
    (r.closed && r.low.numerator == n * r.low.denominator)
  let belowHigh := n * r.high.denominator < r.high.numerator ||
    (r.closed && n * r.high.denominator == r.high.numerator)
  aboveLow && belowHigh

end Rounding

/- The interval of the numbers that round to a binary number, in units of a power of ten. -/
def rounding
    (b : Binary)
    (exponent : Int) : Rounding :=
  let below := if b.isNarrowBelow then 4 * b.mantissa - 1 else 4 * b.mantissa - 2
  { low := (Quotient.ofPower below (b.exponent - 2)).scaleDown exponent
    high := (Quotient.ofPower (4 * b.mantissa + 2) (b.exponent - 2)).scaleDown exponent
    closed := b.mantissa % 2 == 0 }

/-
  The nearest multiple of a power of ten that rounds to the
  number, if a multiple does.  Halfway, the even one is taken.
-/
def onGrid?
    (b : Binary)
    (exponent : Int) : Option Nat :=
  let x := (Quotient.ofPower b.mantissa b.exponent).scaleDown exponent
  let down := x.numerator / x.denominator
  let rest := x.numerator % x.denominator
  let r := b.rounding exponent
  match r.contains down, r.contains (down + 1) with
  | true, true =>
      if 2 * rest < x.denominator then
        some down
      else if x.denominator < 2 * rest then
        some (down + 1)
      else
        some (if down % 2 = 0 then down else down + 1)
  | true, false => some down
  | false, true => some (down + 1)
  | false, false => none

/- Try ever finer grids; seventeen digits are always enough. -/
def shortestFrom
    (b : Binary) : Nat → Int → Decimal
  | 0, exponent => ⟨0, exponent⟩
  | fuel + 1, exponent =>
      match b.onGrid? exponent with
      | some digits => ⟨digits, exponent⟩
      | none => shortestFrom b fuel (exponent - 1)

/- The shortest decimal that rounds to a binary number. -/
def shortest
    (b : Binary) : Decimal :=
  if b.mantissa = 0 then
    ⟨0, 0⟩
  else
    let first := (Quotient.ofPower b.mantissa b.exponent).magnitude
    (b.shortestFrom 18 first).stripZeros 18

end Binary

end Nullary
