import Nullary.Decimal.Shortest

/-
  The numbers of JSON texts.

  A number without fraction and exponent is a whole number as
  long as it fits into 64 bits; every other number is a
  double.  Of the digits of a double as many count as fit
  into 64 bits, and the power of ten is multiplied in
  afterwards.

  Key definitions include:
    * `Json.Number`
    * `Json.NumberText`
    * `Json.NumberText.value?`
    * `Json.Number.print`
-/

namespace Nullary

namespace Json

------------------------------------------------------------
-- Numbers
------------------------------------------------------------

/- A whole number, or a double by its bits. -/
inductive Number where
  | integer (value : Int)
  | double (bits : UInt64)
deriving DecidableEq, Repr

------------------------------------------------------------
-- Printing
------------------------------------------------------------

namespace Number

/- The decimal digits of a number. -/
def digitChars
    (n : Nat) : List Char :=
  Nat.toDigits 10 n

/- The text of a whole number. -/
def printInteger : Int → List Char
  | .ofNat n => digitChars n
  | .negSucc n => '-' :: digitChars (n + 1)

/- The exponents of the first digit for which no power of ten is written. -/
def isPlainExponent
    (exponent : Int) : Bool :=
  -5 ≤ exponent && exponent ≤ 15

/- Digits with a point after the first `whole` of them, zeros filled in. -/
def withPoint
    (digits : List Char)
    (whole : Nat) : List Char :=
  let fraction := digits.drop whole
  digits.take whole ++ List.replicate (whole - digits.length) '0' ++
    '.' :: (if fraction.isEmpty then ['0'] else fraction)

/- Digits with a power of ten, which is always written with its sign. -/
def withPower
    (digits : List Char)
    (exponent : Int) : List Char :=
  let point := if digits.length ≤ 1 then [] else ['.']
  let sign := if exponent < 0 then '-' else '+'
  digits.take 1 ++ point ++ digits.drop 1 ++ 'e' :: sign :: digitChars exponent.natAbs

/- The text of a decimal. -/
def printDecimal
    (d : Decimal) : List Char :=
  let digits := digitChars d.digits
  let exponent := d.exponent + digits.length - 1
  if d.digits = 0 then
    ['0', '.', '0']
  else if !isPlainExponent exponent then
    withPower digits exponent
  else if exponent < 0 then
    '0' :: '.' :: List.replicate (exponent.natAbs - 1) '0' ++ digits
  else
    withPoint digits (exponent.toNat + 1)

/- The text of a double: the fewest digits that read back. -/
def printDouble
    (bits : UInt64) : List Char :=
  let sign := if bits >>> 63 = 1 then ['-'] else []
  sign ++ printDecimal (Binary.ofBits bits).shortest

/- The text of a number. -/
def print : Number → List Char
  | integer value => printInteger value
  | double bits => printDouble bits

end Number

------------------------------------------------------------
-- Values of Number Texts
------------------------------------------------------------

/- The parts of a number as it is written. -/
structure NumberText where
  negative : Bool
  whole : List Char
  fraction : Option (List Char)
  exponent : Option (Bool × List Char)
deriving DecidableEq, Repr

namespace NumberText

/- The value of a digit. -/
def digitValue
    (c : Char) : Nat :=
  c.toNat - '0'.toNat

/- The largest number of 64 bits. -/
def largest : Nat :=
  Nat.pow 2 64 - 1

/- Take up digits as long as the number fits; also give the digits left over. -/
def takeDigits : Nat → List Char → Nat × List Char
  | value, [] => (value, [])
  | value, c :: rest =>
      let next := value * 10 + digitValue c
      if next ≤ largest then takeDigits next rest else (value, c :: rest)

/- The power of ten as a double. -/
def powerOfTen
    (n : Nat) : Float :=
  Float.ofScientific 1 false n

/- The largest power of ten that is a double. -/
def largestPower : Nat :=
  308

/-
  Multiply a power of ten into a number; nothing if the
  result is too large.  A negative power too large for one
  division takes several, of which a few give zero.
-/
def scale : Nat → Float → Int → Option Float
  | 0, _, _ => some 0
  | fuel + 1, f, exponent =>
      if exponent.natAbs ≤ largestPower then
        let power := powerOfTen exponent.natAbs
        if exponent < 0 then
          some (f / power)
        else
          let product := f * power
          if product.isInf then none else some product
      else if f == 0 then
        some f
      else if 0 ≤ exponent then
        none
      else
        scale fuel (f / powerOfTen largestPower) (exponent + largestPower)

/- The double with the given sign, digits and power of ten. -/
def double?
    (negative : Bool)
    (digits : Nat)
    (exponent : Int) : Option Number := do
  let f ← scale 4 digits.toUInt64.toFloat exponent
  return .double (if negative then -f else f).toBits

/- The largest power that is computed with. -/
def largestExponent : Nat :=
  Nat.pow 2 31 - 1

/- The value of a number with a fraction or an exponent. -/
def doubleValue?
    (text : NumberText) : Option Number :=
  let (digits, left) := takeDigits 0 text.whole
  let fraction := text.fraction.getD []
  let (digits, unused) := takeDigits digits fraction
  let places : Int := left.length - (fraction.length - unused.length : Nat)
  match text.exponent with
  | none => double? text.negative digits places
  | some (negative, power) =>
      let power := power.foldl (fun value c => value * 10 + digitValue c) 0
      if power ≤ largestExponent then
        double? text.negative digits (if negative then places - power else places + power)
      else if digits ≠ 0 ∧ !negative then
        none
      else
        double? text.negative 0 0

/- The value of a number text, or nothing if it is too large. -/
def value?
    (text : NumberText) : Option Number :=
  let (digits, left) := takeDigits 0 text.whole
  if text.fraction.isNone && text.exponent.isNone && left.isEmpty then
    if !text.negative then
      some (.integer digits)
    else if 0 < digits ∧ digits ≤ Nat.pow 2 63 then
      some (.integer (-digits))
    else
      double? true digits 0
  else
    text.doubleValue?

end NumberText

end Json

end Nullary
