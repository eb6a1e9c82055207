import Nullary.Text.Identifier

/-
  The lexical forms of literals: quoted texts, byte and C
  strings in plain and raw form, characters, bytes, and
  numbers.

  Every function here measures: from the text that starts at
  the literal it gives the number of characters of the
  literal, or nothing if no literal of the form stands there.

  Key definitions include:
    * `identifierLength`
    * `Flavour`
    * `QuoteState.step`
    * `Literal.cooked`
    * `Literal.raw`
    * `Literal.number`
    * `Literal.length`
-/

namespace Nullary

------------------------------------------------------------
-- Identifiers
------------------------------------------------------------

/- The length of the identifier at the start of a text. -/
def identifierLength : List Char → Option Nat
  | [] => none
  | c :: rest =>
      if isIdentifierStart c then
        some ((rest.takeWhile isIdentifierContinue).length + 1)
      else
        none

/- A text that does not continue an identifier. -/
def atWordBreak : List Char → Bool
  | [] => true
  | c :: _ => !isIdentifierContinue c

/- The value of a hexadecimal digit. -/
def hexDigitValue
    (c : Char) : Option Nat :=
  if '0' ≤ c ∧ c ≤ '9' then
    some (c.toNat - '0'.toNat)
  else if 'a' ≤ c ∧ c ≤ 'f' then
    some (c.toNat - 'a'.toNat + 10)
  else if 'A' ≤ c ∧ c ≤ 'F' then
    some (c.toNat - 'A'.toNat + 10)
  else
    none

/- A number that is the code point of a character. -/
def isScalar
    (n : Nat) : Bool :=
  n < 0xD800 || (0xE000 ≤ n && n < 0x110000)

------------------------------------------------------------
-- Escapes
------------------------------------------------------------

/- What a quoted literal denotes: text, bytes, or a C string. -/
inductive Flavour where
  | text
  | bytes
  | cString
deriving DecidableEq, Repr

/- Where the reading of a quoted literal stands. -/
inductive QuoteState where
  /- Between two characters. -/
  | plain
  /- After a carriage return, which a line feed must follow. -/
  | afterReturn
  /- After a backslash. -/
  | escape
  /- After the `x` of a numeric escape. -/
  | hexFirst
  /- After its first digit, which is zero or not. -/
  | hexSecond (zero : Bool)
  /- After the `u` of a code point escape. -/
  | scalarOpen
  /- Among its digits: the value and the number of digits so far. -/
  | scalarDigits (value count : Nat)
  /- In the blanks after an escaped line end. -/
  | lineGap
  /- After a carriage return in such blanks. -/
  | lineGapReturn
deriving DecidableEq, Repr

namespace QuoteState

/- The state after a character that is not escaped. -/
def plainStep
    (flavour : Flavour)
    (c : Char) : Option QuoteState :=
  if c = '\\' then
    some escape
  else if c = '\r' then
    some afterReturn
  else
    match flavour with
    | .text => some plain
    | .bytes => if c.toNat < 0x80 then some plain else none
    | .cString => if c.toNat = 0 then none else some plain

/- The state after the character that follows a backslash. -/
def escapeStep
    (flavour : Flavour)
    (c : Char) : Option QuoteState :=
  if c = 'x' then
    some hexFirst
  else if c = 'n' ∨ c = 'r' ∨ c = 't' ∨ c = '\\' ∨ c = '\'' ∨ c = '"' then
    some plain
  else if c = '0' then
    if flavour = .cString then none else some plain
  else if c = 'u' then
    if flavour = .bytes then none else some scalarOpen
  else if c = '\n' then
    some lineGap
  else if c = '\r' then
    some lineGapReturn
  else
    none

/- The state after the character that ends a code point escape. -/
def scalarStep
    (flavour : Flavour)
    (value count : Nat)
    (c : Char) : Option QuoteState :=
  match hexDigitValue c with
  | some digit =>
      if count = 6 then none else some (scalarDigits (value * 16 + digit) (count + 1))
  | none =>
      if count = 0 then
        none
      else if c = '_' then
        some (scalarDigits value count)
      else if c = '\x7d' ∧ isScalar value ∧ ¬ (flavour = .cString ∧ value = 0) then
        some plain
      else
        none

/- The state after one more character, the closing quote excepted. -/
def step
    (flavour : Flavour)
    (state : QuoteState)
    (c : Char) : Option QuoteState :=
  match state with
  | plain => plainStep flavour c
  | afterReturn => if c = '\n' then some plain else none
  | escape => escapeStep flavour c
  | hexFirst =>
      match hexDigitValue c with
      | some digit =>
          if flavour = .text ∧ 8 ≤ digit then none else some (hexSecond (digit == 0))
      | none => none
  | hexSecond zero =>
      match hexDigitValue c with
      | some digit =>
          if flavour = .cString ∧ zero ∧ digit = 0 then none else some plain
      | none => none
  | scalarOpen => if c = '\x7b' then some (scalarDigits 0 0) else none
  | scalarDigits value count => scalarStep flavour value count c
  | lineGap =>
      if c = ' ' ∨ c = '\t' ∨ c = '\n' then
        some lineGap
      else if c = '\r' then
        some lineGapReturn
      else
        plainStep flavour c
  | lineGapReturn => if c = '\n' then some lineGap else none

/- A state in which a quotation mark closes the literal. -/
def closes : QuoteState → Bool
  | plain => true
  | lineGap => true
  | _ => false

end QuoteState

------------------------------------------------------------
-- Quoted Literals
------------------------------------------------------------

namespace Literal

/- The length of an optional suffix. -/
def suffix
    (text : List Char) : Nat :=
  (identifierLength text).getD 0

/- The rest of a literal after its closing mark: the suffix. -/
def withSuffix
    (rest : List Char)
    (length : Nat) : Option Nat :=
  some (length + suffix rest)

/- The length of a quoted literal from inside its quotation marks. -/
def cooked
    (flavour : Flavour)
    (state : QuoteState) : List Char → Option Nat
  | [] => none
  | c :: rest =>
      if state.closes && c == '"' then
        withSuffix rest 1
      else do
        let next ← state.step flavour c
        let length ← cooked flavour next rest
        return length + 1

/- A character that a raw literal of a flavour may hold. -/
def rawAllows
    (flavour : Flavour)
    (c : Char) : Bool :=
  match flavour with
  | .text => true
  | .bytes => c.toNat < 0x80
  | .cString => c.toNat ≠ 0

/-
  The length of a raw literal from inside its quotation
  marks, which close at a mark followed by `hashes` hashes.
-/
def rawBody
    (flavour : Flavour)
    (hashes : Nat) : List Char → Option Nat
  | [] => none
  | '\r' :: '\n' :: rest => (rawBody flavour hashes rest).map (· + 2)
  | c :: rest =>
      if c == '"' && rest.take hashes == List.replicate hashes '#' then
        withSuffix (rest.drop hashes) (hashes + 1)
      else if c == '\r' || !rawAllows flavour c then
        none
      else
        (rawBody flavour hashes rest).map (· + 1)

/- The length of a raw literal from its first hash or quotation mark. -/
def raw
    (flavour : Flavour)
    (text : List Char) : Option Nat :=
  let hashes := (text.takeWhile (· == '#')).length
  match text.drop hashes with
  | '"' :: body =>
      if 255 < hashes then
        none
      else
        (rawBody flavour hashes body).map (· + (hashes + 1))
  | _ => none

/- The length of a string literal of any flavour. -/
def string : List Char → Option Nat
  | '"' :: rest => (cooked .text .plain rest).map (· + 1)
  | 'r' :: rest => (raw .text rest).map (· + 1)
  | 'b' :: '"' :: rest => (cooked .bytes .plain rest).map (· + 2)
  | 'b' :: 'r' :: rest => (raw .bytes rest).map (· + 2)
  | 'c' :: '"' :: rest => (cooked .cString .plain rest).map (· + 2)
  | 'c' :: 'r' :: rest => (raw .cString rest).map (· + 2)
  | _ => none

/-
  The length of a character literal's escape, from the
  character after the backslash on.
-/
def escapeLength
    (flavour : Flavour)
    (state : QuoteState) : List Char → Option Nat
  | [] => none
  | c :: rest =>
      match state.step flavour c with
      | some .plain => some 1
      | some .lineGap => none
      | some .lineGapReturn => none
      | some next => (escapeLength flavour next rest).map (· + 1)
      | none => none

/- The length of what a character literal holds. -/
def characterBody
    (flavour : Flavour) : List Char → Option Nat
  | [] => none
  | '\\' :: rest => (escapeLength flavour .escape rest).map (· + 1)
  | c :: _ => if flavour = .bytes ∧ 0x80 ≤ c.toNat then none else some 1

/- The length of a character literal from inside its quotes. -/
def quotedCharacter
    (flavour : Flavour)
    (text : List Char) : Option Nat := do
  let length ← characterBody flavour text
  match text.drop length with
  | '\'' :: rest => withSuffix rest (length + 1)
  | _ => none

/- The length of a character or byte literal. -/
def character : List Char → Option Nat
  | '\'' :: rest => (quotedCharacter .text rest).map (· + 1)
  | 'b' :: '\'' :: rest => (quotedCharacter .bytes rest).map (· + 2)
  | _ => none

------------------------------------------------------------
-- Numbers
------------------------------------------------------------

/- A decimal digit or an underscore. -/
def isDecimal
    (c : Char) : Bool :=
  c.isDigit || c == '_'

/-
  A mantissa after its first digit: its length, whether it
  has a point, and whether it ends in an exponent mark.  A
  point before another point or a name is not part of a number.
-/
def mantissa
    (point : Bool) : List Char → Option (Nat × Bool × Bool)
  | [] => some (0, point, false)
  | c :: rest =>
      if isDecimal c then do
        let (length, dotted, exponent) ← mantissa point rest
        return (length + 1, dotted, exponent)
      else if c = '.' then
        if point then
          some (0, point, false)
        else if rest.head?.any fun d => d == '.' || isIdentifierStart d then
          none
        else do
          let (length, dotted, exponent) ← mantissa true rest
          return (length + 1, dotted, exponent)
      else if c = 'e' ∨ c = 'E' then
        some (1, point, true)
      else
        some (0, point, false)

/-
  The length of an exponent after its mark, if it has a digit
  and at most one sign, which stands before the digits.
-/
def exponent
    (signed valued : Bool) : List Char → Option Nat
  | [] => if valued then some 0 else none
  | c :: rest =>
      if c = '+' ∨ c = '-' then
        if valued then
          some 0
        else if signed then
          none
        else
          (exponent true valued rest).map (· + 1)
      else if c.isDigit then
        (exponent signed true rest).map (· + 1)
      else if c = '_' then
        (exponent signed valued rest).map (· + 1)
      else if valued then
        some 0
      else
        none

/-
  The length of the digits of a floating point number.  An
  exponent mark without an exponent is left to the suffix.
-/
def floatDigits : List Char → Option Nat
  | [] => none
  | c :: rest =>
      if !c.isDigit then
        none
      else do
        let (length, point, marked) ← mantissa false rest
        if marked then
          match exponent false false (rest.drop length) with
          | some digits => return length + 1 + digits
          | none => if point then return length else none
        else if point then
          return length + 1
        else
          none

/- The length of the digits of an integer in a base. -/
def digitRun
    (base : Nat)
    (empty : Bool) : List Char → Option Nat
  | [] => if empty then none else some 0
  | c :: rest =>
      if c = '_' then
        if empty ∧ base = 10 then
          none
        else
          (digitRun base empty rest).map (· + 1)
      else
        match hexDigitValue c with
        | some digit =>
            if digit < base then
              (digitRun base false rest).map (· + 1)
            else if c.isDigit ∨ empty then
              none
            else
              some 0
        | none => if empty then none else some 0

/- The length of the digits of an integer. -/
def integerDigits : List Char → Option Nat
  | '0' :: 'x' :: rest => (digitRun 16 true rest).map (· + 2)
  | '0' :: 'o' :: rest => (digitRun 8 true rest).map (· + 2)
  | '0' :: 'b' :: rest => (digitRun 2 true rest).map (· + 2)
  | text => digitRun 10 true text

/- The length of a number with the given digits and its suffix. -/
def numberWith
    (text : List Char)
    (digits : Nat) : Option Nat :=
  let rest := text.drop digits
  let length := suffix rest
  if atWordBreak (rest.drop length) then
    some (digits + length)
  else
    none

/- The length of a number, floating point first. -/
def number
    (text : List Char) : Option Nat :=
  (floatDigits text >>= numberWith text) <|> (integerDigits text >>= numberWith text)

------------------------------------------------------------
-- Literals
------------------------------------------------------------

/- The length of the literal at the start of a text. -/
def length
    (text : List Char) : Option Nat :=
  string text <|> character text <|> number text

end Literal

end Nullary
