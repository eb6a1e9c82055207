import Nullary.Toml.Value

/-
  Values without parts: strings in quotes, and words such as
  numbers, truth values, dates and times.

  Key definitions include:
    * `Toml.Quotes.basic?`
    * `Toml.Quotes.literal?`
    * `Toml.Quotes.basicLines?`
    * `Toml.Quotes.literalLines?`
    * `Toml.Word.value?`
-/

namespace Nullary

namespace Toml

------------------------------------------------------------
-- Characters
------------------------------------------------------------

/- A blank inside a line. -/
def isBlank
    (c : Char) : Bool :=
  c == ' ' || c == '\t'

/- A character that may not stand in comments and strings. -/
def isControl
    (c : Char) : Bool :=
  (c.toNat < 0x20 && c != '\t') || c.toNat == 0x7F

/- A decimal digit. -/
def isDigit
    (c : Char) : Bool :=
  '0' ≤ c && c ≤ '9'

/- The value of a digit in bases up to sixteen. -/
def digitValue?
    (c : Char) : Option Nat :=
  if isDigit c then some (c.toNat - '0'.toNat)
  else if 'a' ≤ c ∧ c ≤ 'f' then some (c.toNat - 'a'.toNat + 10)
  else if 'A' ≤ c ∧ c ≤ 'F' then some (c.toNat - 'A'.toNat + 10)
  else none

/- A text after the line end that it starts with. -/
def afterLineEnd? : List Char → Option (List Char)
  | '\n' :: rest => some rest
  | '\r' :: '\n' :: rest => some rest
  | _ => none

------------------------------------------------------------
-- Strings
------------------------------------------------------------

namespace Quotes

/- The number that hexadecimal digits spell. -/
def hexNumber?
    (digits : List Char) : Option Nat :=
  digits.foldlM (fun value c => (digitValue? c).map (value * 16 + ·)) 0

/- The character whose number is spelled by the first digits of a text. -/
def codeChar?
    (count : Nat)
    (text : List Char) : Option (Char × List Char) := do
  if text.length < count then
    none
  let value ← hexNumber? (text.take count)
  if value.isValidChar then
    return (Char.ofNat value, text.drop count)
  none

/- The character that stands after a backslash, and the rest of the text. -/
def escape? : List Char → Option (Char × List Char)
  | 'b' :: rest => some (Char.ofNat 0x08, rest)
  | 't' :: rest => some ('\t', rest)
  | 'n' :: rest => some ('\n', rest)
  | 'f' :: rest => some (Char.ofNat 0x0C, rest)
  | 'r' :: rest => some ('\r', rest)
  | 'e' :: rest => some (Char.ofNat 0x1B, rest)
  | '"' :: rest => some ('"', rest)
  | '\\' :: rest => some ('\\', rest)
  | 'x' :: rest => codeChar? 2 rest
  | 'u' :: rest => codeChar? 4 rest
  | 'U' :: rest => codeChar? 8 rest
  | _ => none

/- A string on one line after its opening quote; `fuel` bounds its length. -/
def basicFrom : Nat → List Char → Option (List Char × List Char)
  | 0, _ => none
  | _, [] => none
  | _, '"' :: rest => some ([], rest)
  | fuel + 1, '\\' :: rest => do
      let (c, more) ← escape? rest
      let (text, left) ← basicFrom fuel more
      return (c :: text, left)
  | fuel + 1, c :: rest =>
      if isControl c then
        none
      else do
        let (text, left) ← basicFrom fuel rest
        return (c :: text, left)

/- A string on one line after its opening quote, and the rest of the text. -/
def basic?
    (text : List Char) : Option (List Char × List Char) :=
  basicFrom (text.length + 1) text

/- A string without escapes after its opening quote, and the rest of the text. -/
def literal?
    (text : List Char) : Option (List Char × List Char) :=
  let content := text.takeWhile (· != '\'')
  match text.dropWhile (· != '\'') with
  | [] => none
  | _ :: rest => if content.any isControl then none else some (content, rest)

/- The number of equal characters at the start of a text. -/
def runLength
    (c : Char)
    (text : List Char) : Nat :=
  (text.takeWhile (· == c)).length

/-
  The quotes that a string on several lines has at some
  place: three of them end it, and up to two before those
  belong to it.
-/
def closing?
    (quote : Char)
    (text : List Char) : Option (List Char × List Char) :=
  let count := runLength quote text
  if count < 3 then
    none
  else
    let inside := min (count - 3) 2
    some (List.replicate inside quote, text.drop (inside + 3))

/- Blanks and line ends. -/
def isGap
    (c : Char) : Bool :=
  isBlank c || c == '\n' || c == '\r'

/-
  A text after a backslash that ends a line: the blanks up to
  the next character are left out.
-/
def afterContinuation?
    (text : List Char) : Option (List Char) :=
  match afterLineEnd? (text.dropWhile isBlank) with
  | some rest => some (rest.dropWhile isGap)
  | none => none

/- A string on several lines from a place inside it; `fuel` bounds its length. -/
def basicLinesFrom : Nat → List Char → Option (List Char × List Char)
  | 0, _ => none
  | fuel + 1, text =>
      match closing? '"' text with
      | some found => some found
      | none =>
          match text with
          | [] => none
          | '\\' :: rest =>
              match afterContinuation? rest with
              | some more => basicLinesFrom fuel more
              | none => do
                  let (c, more) ← escape? rest
                  let (inner, left) ← basicLinesFrom fuel more
                  return (c :: inner, left)
          | '\r' :: '\n' :: rest => do
              let (inner, left) ← basicLinesFrom fuel rest
              return ('\r' :: '\n' :: inner, left)
          | c :: rest =>
              if isControl c && c != '\n' then
                none
              else do
                let (inner, left) ← basicLinesFrom fuel rest
                return (c :: inner, left)

/- A line end right after the opening quotes does not belong to a string. -/
def dropFirstLineEnd
    (text : List Char) : List Char :=
  (afterLineEnd? text).getD text

/- A string on several lines after its opening quotes, and the rest of the text. -/
def basicLines?
    (text : List Char) : Option (List Char × List Char) :=
  basicLinesFrom (text.length + 1) (dropFirstLineEnd text)

/- A string on several lines without escapes; `fuel` bounds its length. -/
def literalLinesFrom : Nat → List Char → Option (List Char × List Char)
  | 0, _ => none
  | fuel + 1, text =>
      match closing? '\'' text with
      | some found => some found
      | none =>
          match text with
          | [] => none
          | '\r' :: '\n' :: rest => do
              let (inner, left) ← literalLinesFrom fuel rest
              return ('\r' :: '\n' :: inner, left)
          | c :: rest =>
              if isControl c && c != '\n' then
                none
              else do
                let (inner, left) ← literalLinesFrom fuel rest
                return (c :: inner, left)

/- A string on several lines without escapes, after its opening quotes. -/
def literalLines?
    (text : List Char) : Option (List Char × List Char) :=
  literalLinesFrom (text.length + 1) (dropFirstLineEnd text)

end Quotes

------------------------------------------------------------
-- Words
------------------------------------------------------------

namespace Word

/- A character of a word. -/
def isWordChar
    (c : Char) : Bool :=
  isDigit c || c.isAlpha || c == '_' || c == '+' || c == '-' || c == '.' || c == ':'

/- Digits of a base with single underscores between them. -/
def digits?
    (isGood : Char → Bool)
    (text : List Char) : Option (List Char) :=
  let parts := text.splitOn '_'
  if parts.all fun part => !part.isEmpty && part.all isGood then
    some parts.flatten
  else
    none

/- The number that digits spell in a base. -/
def number
    (base : Nat)
    (digits : List Char) : Nat :=
  digits.foldl (fun value c => value * base + (digitValue? c).getD 0) 0

/- A digit of a base. -/
def isDigitOf
    (base : Nat)
    (c : Char) : Bool :=
  (digitValue? c).any (· < base)

/- A text without its sign, and whether it is negative. -/
def unsign : List Char → Bool × List Char
  | '+' :: rest => (false, rest)
  | '-' :: rest => (true, rest)
  | text => (false, text)

/- Decimal digits without a leading zero. -/
def decimal?
    (text : List Char) : Option (List Char) := do
  let digits ← digits? isDigit text
  if digits.head? = some '0' ∧ 1 < digits.length then none else some digits

/- A whole number in one of the other bases. -/
def based?
    (base : Nat)
    (text : List Char) : Option Int := do
  let digits ← digits? (isDigitOf base) text
  return number base digits

/- A whole number that fits into 128 bits. -/
def inRange?
    (value : Int) : Option Int :=
  if -Int.ofNat (Nat.pow 2 127) ≤ value ∧ value < Int.ofNat (Nat.pow 2 128) then some value else none

/- A whole number. -/
def integer?
    (text : List Char) : Option Int :=
  match text with
  | '0' :: 'x' :: rest => based? 16 rest >>= inRange?
  | '0' :: 'o' :: rest => based? 8 rest >>= inRange?
  | '0' :: 'b' :: rest => based? 2 rest >>= inRange?
  | _ => do
      let (negative, unsigned) := unsign text
      let digits ← decimal? unsigned
      let value : Int := number 10 digits
      inRange? (if negative then -value else value)

/- The exponent of a number: a sign and digits. -/
def isExponent
    (text : List Char) : Bool :=
  (digits? isDigit (unsign text).2).isSome

/- The fraction of a number and perhaps an exponent, after the point. -/
def isFraction
    (text : List Char) : Bool :=
  let isMark := fun (c : Char) => c == 'e' || c == 'E'
  let digits := text.takeWhile (!isMark ·)
  match text.dropWhile (!isMark ·) with
  | [] => (digits? isDigit digits).isSome
  | _ :: power => (digits? isDigit digits).isSome && isExponent power

/- A number with a fraction or an exponent, or one of the special ones. -/
def isFloat
    (text : List Char) : Bool :=
  let unsigned := (unsign text).2
  let isMark := fun (c : Char) => c == '.' || c == 'e' || c == 'E'
  let whole := unsigned.takeWhile (!isMark ·)
  if unsigned == "inf".toList || unsigned == "nan".toList then
    true
  else
    match unsigned.dropWhile (!isMark ·) with
    | [] => false
    | mark :: rest =>
        (decimal? whole).isSome && (if mark = '.' then isFraction rest else isExponent rest)

------------------------------------------------------------
-- Dates and Times
------------------------------------------------------------

/- A number of exactly so many digits at the start of a text. -/
def fixed?
    (count : Nat)
    (text : List Char) : Option (Nat × List Char) :=
  let digits := text.take count
  if digits.length = count ∧ digits.all isDigit then
    some (number 10 digits, text.drop count)
  else
    none

/- The number of days of a month. -/
def daysIn
    (year : Nat)
    (month : Nat) : Nat :=
  if month = 2 then
    if year % 4 = 0 ∧ (year % 100 ≠ 0 ∨ year % 400 = 0) then 29 else 28
  else if month = 4 ∨ month = 6 ∨ month = 9 ∨ month = 11 then
    30
  else
    31

/- A text after the date that it starts with. -/
def afterDate?
    (text : List Char) : Option (List Char) := do
  let (year, text) ← fixed? 4 text
  let '-' :: text := text | none
  let (month, text) ← fixed? 2 text
  let '-' :: text := text | none
  let (day, text) ← fixed? 2 text
  if 1 ≤ month ∧ month ≤ 12 ∧ 1 ≤ day ∧ day ≤ daysIn year month then some text else none

/- A text after the fraction of a second that it may start with. -/
def afterFraction?
    (text : List Char) : Option (List Char) :=
  match text with
  | '.' :: rest => if (rest.head?.any isDigit) then some (rest.dropWhile isDigit) else none
  | _ => some text

/- A text after the time that it starts with; seconds may be left out. -/
def afterTime?
    (text : List Char) : Option (List Char) := do
  let (hour, text) ← fixed? 2 text
  let ':' :: text := text | none
  let (minute, text) ← fixed? 2 text
  if 23 < hour ∨ 59 < minute then
    none
  match text with
  | ':' :: rest =>
      let (second, rest) ← fixed? 2 rest
      if 60 < second then none else afterFraction? rest
  | _ => some text

/- The distance of a local time from the common one. -/
def isOffset
    (text : List Char) : Bool :=
  match text with
  | [] => true
  | ['Z'] => true
  | ['z'] => true
  | sign :: rest =>
      if sign = '+' ∨ sign = '-' then
        match fixed? 2 rest with
        | some (hour, ':' :: more) =>
            match fixed? 2 more with
            | some (minute, []) => hour ≤ 23 && minute ≤ 59
            | _ => false
        | _ => false
      else
        false

/- A date, a time, or both. -/
def isMoment
    (text : List Char) : Bool :=
  match afterDate? text with
  | some [] => true
  | some (mark :: rest) =>
      (mark == 'T' || mark == 't' || mark == ' ') && (afterTime? rest).any isOffset
  | none => afterTime? text == some []

/- The value of a word. -/
def value?
    (text : List Char) : Option Value :=
  if text = "true".toList then some (.boolean true)
  else if text = "false".toList then some (.boolean false)
  else
    match integer? text with
    | some n => some (.integer n)
    | none =>
        if isFloat text then some (.float (String.ofList text))
        else if isMoment text then some (.moment (String.ofList text))
        else none

/-
  The word at the start of a text, and the rest.  A date is
  followed by a time also after a space.
-/
def split
    (text : List Char) : List Char × List Char :=
  let word := text.takeWhile isWordChar
  let rest := text.dropWhile isWordChar
  match rest with
  | ' ' :: more =>
      if afterDate? word == some [] && more.head?.any isDigit then
        (word ++ ' ' :: more.takeWhile isWordChar, more.dropWhile isWordChar)
      else
        (word, rest)
  | _ => (word, rest)

end Word

end Toml

end Nullary
