import Nullary.Json.Number

/-
  JSON texts as they were written.

  A document keeps what a reader of the text meets, in the
  order in which it meets it, and also where the text breaks
  off or stops making sense.  Nothing after such a place is
  kept, since no reader gets there.

  Some faults only matter to a reader who wants to know a
  value, and not to one who skips it: a string whose escapes
  do not add up to characters, and a number that is too
  large.

  Key definitions include:
    * `Json.Fault`
    * `Json.FieldName`
    * `Json.Document`
    * `Json.Elements`
    * `Json.Entries`
    * `Json.StringUnit.scan`
    * `Json.StringUnit.decode`
    * `Json.NumberText.scan`
    * `Json.Document.read`
-/

namespace Nullary

namespace Json

------------------------------------------------------------
-- Documents
------------------------------------------------------------

/- Why a text is not JSON: it ends too early, or it is malformed. -/
inductive Fault where
  | eof
  | malformed
deriving DecidableEq, Repr

/-
  The name of a field as it was written; a garbled one has
  escapes that do not add up to characters.
-/
inductive FieldName where
  | text (value : String)
  | garbled
  | broken (read : Fault) (skipped : Fault)
deriving DecidableEq, Repr

mutual

/-
  A value as it was written.  It is missing if the text ends
  where it should stand.  A broken one has a fault for those
  who read it and a fault for those who skip it; a number or
  a string without a value cannot be read, but can be
  skipped.
-/
inductive Document where
  | missing
  | broken (read : Fault) (skipped : Fault)
  | brokenString (read : Fault) (skipped : Fault)
  | null
  | bool (value : Bool)
  | number (value : Option Number)
  | string (value : Option String)
  | array (elements : Elements)
  | object (entries : Entries)

/- The elements of an array up to its end or to a fault after an element. -/
inductive Elements where
  | closed
  | cut (fault : Fault)
  | element (value : Document) (rest : Elements)

/-
  The fields of an object up to its end or to a fault after a
  field.  A stray value stands where a name should.
-/
inductive Entries where
  | closed
  | cut (fault : Fault)
  | stray (found : Document)
  | field (name : FieldName) (value : Document) (rest : Entries)

end

------------------------------------------------------------
-- Strings
------------------------------------------------------------

/- A character of a string, or an escaped code. -/
inductive StringUnit where
  | char (value : Char)
  | code (value : Nat)
deriving DecidableEq, Repr

/- How a string ends: before the rest of the text, or with a fault. -/
inductive StringEnd where
  | closed (rest : List Char)
  | cut (fault : Fault)
deriving DecidableEq, Repr

/- The value of a hexadecimal digit. -/
def hexValue?
    (c : Char) : Option Nat :=
  if '0' ≤ c ∧ c ≤ '9' then some (c.toNat - '0'.toNat)
  else if 'a' ≤ c ∧ c ≤ 'f' then some (c.toNat - 'a'.toNat + 10)
  else if 'A' ≤ c ∧ c ≤ 'F' then some (c.toNat - 'A'.toNat + 10)
  else none

/- The value of four hexadecimal digits. -/
def hexCode?
    (a b c d : Char) : Option Nat := do
  let a ← hexValue? a
  let b ← hexValue? b
  let c ← hexValue? c
  let d ← hexValue? d
  return ((a * 16 + b) * 16 + c) * 16 + d

/- The character that a letter after a backslash stands for. -/
def unescape? : Char → Option Char
  | '"' => some '"'
  | '\\' => some '\\'
  | '/' => some '/'
  | 'b' => some (Char.ofNat 0x08)
  | 'f' => some (Char.ofNat 0x0C)
  | 'n' => some '\n'
  | 'r' => some '\r'
  | 't' => some '\t'
  | _ => none

/- The size of a text in bytes. -/
def byteCount
    (text : List Char) : Nat :=
  text.foldr (fun c size => c.utf8Size + size) 0

namespace StringUnit

/-
  The units of a string after its opening quote.  A code has
  four digits; a text that ends before four more bytes ends
  too early.
-/
def scan : List Char → List StringUnit × StringEnd
  | [] => ([], .cut .eof)
  | '"' :: rest => ([], .closed rest)
  | ['\\'] => ([], .cut .eof)
  | '\\' :: 'u' :: a :: b :: c :: d :: rest =>
      match hexCode? a b c d with
      | some value =>
          let (units, stop) := scan rest
          (.code value :: units, stop)
      | none => ([], .cut .malformed)
  | '\\' :: 'u' :: rest => ([], .cut (if byteCount rest < 4 then .eof else .malformed))
  | '\\' :: letter :: rest =>
      match unescape? letter with
      | some c =>
          let (units, stop) := scan rest
          (.char c :: units, stop)
      | none => ([], .cut .malformed)
  | c :: rest =>
      if c.toNat < 0x20 then
        ([], .cut .malformed)
      else
        let (units, stop) := scan rest
        (.char c :: units, stop)

/- The first code of a pair that stands for one character. -/
def isLead
    (code : Nat) : Bool :=
  0xD800 ≤ code && code ≤ 0xDBFF

/- The second code of a pair that stands for one character. -/
def isTrail
    (code : Nat) : Bool :=
  0xDC00 ≤ code && code ≤ 0xDFFF

/- The character that a pair of codes stands for. -/
def pair
    (lead : Nat)
    (trail : Nat) : Char :=
  Char.ofNat ((lead - 0xD800) * 0x400 + (trail - 0xDC00) + 0x10000)

/-
  The characters of units; pairs of codes must be complete.
  `stop` is the fault that is met after the units, if there
  is one.
-/
def decode
    (stop : Option Fault) : List StringUnit → Except Fault (List Char)
  | [] =>
      match stop with
      | some fault => .error fault
      | none => .ok []
  | .char c :: rest => (decode stop rest).map (c :: ·)
  | .code lead :: .code trail :: rest =>
      if isLead lead then
        if isTrail trail then
          (decode stop rest).map (pair lead trail :: ·)
        else
          .error .malformed
      else if isTrail lead then
        .error .malformed
      else
        (decode stop (.code trail :: rest)).map (Char.ofNat lead :: ·)
  | .code lead :: rest =>
      if isLead lead then
        match rest with
        | [] => .error (stop.getD .malformed)
        | _ => .error .malformed
      else if isTrail lead then
        .error .malformed
      else
        (decode stop rest).map (Char.ofNat lead :: ·)

end StringUnit

/- A string after its opening quote: its value and the rest, or two faults. -/
inductive StringReading where
  | text (value : Option String) (rest : List Char)
  | broken (read : Fault) (skipped : Fault)

/- Read a string after its opening quote. -/
def readString
    (text : List Char) : StringReading :=
  match StringUnit.scan text with
  | (units, .closed rest) =>
      .text ((StringUnit.decode none units).toOption.map String.ofList) rest
  | (units, .cut fault) =>
      match StringUnit.decode (some fault) units with
      | .error first => .broken first fault
      | .ok _ => .broken fault fault

------------------------------------------------------------
-- Numbers
------------------------------------------------------------

/- A number: its value and the rest, or two faults. -/
inductive NumberReading where
  | number (text : NumberText) (rest : List Char)
  | broken (read : Fault) (skipped : Fault)

/- Digits are missing: a reader notices whether the text has ended. -/
def NumberReading.missingDigits : List Char → NumberReading
  | [] => .broken .eof .malformed
  | _ => .broken .malformed .malformed

/- A decimal digit. -/
def isDigit
    (c : Char) : Bool :=
  '0' ≤ c && c ≤ '9'

namespace NumberText

/- The exponent of a number, if one is written. -/
def scanExponent
    (negative : Bool)
    (whole : List Char)
    (fraction : Option (List Char))
    (text : List Char) : NumberReading :=
  match text with
  | mark :: rest =>
      if mark = 'e' ∨ mark = 'E' then
        let (sign, rest) :=
          match rest with
          | '+' :: more => (false, more)
          | '-' :: more => (true, more)
          | _ => (false, rest)
        let digits := rest.takeWhile isDigit
        let left := rest.dropWhile isDigit
        if digits.isEmpty then
          .missingDigits rest
        else
          .number ⟨negative, whole, fraction, some (sign, digits)⟩ left
      else
        .number ⟨negative, whole, fraction, none⟩ text
  | [] => .number ⟨negative, whole, fraction, none⟩ []

/- The fraction of a number, if one is written, and what follows it. -/
def scanFraction
    (negative : Bool)
    (whole : List Char)
    (text : List Char) : NumberReading :=
  match text with
  | '.' :: rest =>
      let digits := rest.takeWhile isDigit
      let left := rest.dropWhile isDigit
      if digits.isEmpty then
        .missingDigits rest
      else
        scanExponent negative whole (some digits) left
  | _ => scanExponent negative whole none text

/- A number after its sign; no other digit follows a leading zero. -/
def scanUnsigned
    (negative : Bool)
    (text : List Char) : NumberReading :=
  let digits := text.takeWhile isDigit
  let left := text.dropWhile isDigit
  if digits.isEmpty then
    .missingDigits text
  else if digits.head? = some '0' ∧ 1 < digits.length then
    .broken .malformed .malformed
  else
    scanFraction negative digits left

/- A number. -/
def scan : List Char → NumberReading
  | '-' :: rest => scanUnsigned true rest
  | text => scanUnsigned false text

end NumberText

------------------------------------------------------------
-- Reading
------------------------------------------------------------

/- The blanks between the parts of a text. -/
def isBlank
    (c : Char) : Bool :=
  c == ' ' || c == '\n' || c == '\t' || c == '\r'

/- A text without the blanks at its start. -/
def skipBlanks
    (text : List Char) : List Char :=
  text.dropWhile isBlank

/- What is missing of a word: the text ends in it, or differs from it. -/
def wordFault : List Char → List Char → Option Fault
  | [], _ => none
  | _ :: _, [] => some .eof
  | c :: word, d :: text => if c = d then wordFault word text else some .malformed

namespace Document

/- A word that stands for a value, and the rest of the text. -/
def readWord
    (word : String)
    (value : Document)
    (text : List Char) : Document × Option (List Char) :=
  match wordFault word.toList text with
  | none => (value, some (text.drop word.length))
  | some fault => (.broken fault fault, none)

/- A number, and the rest of the text. -/
def readNumber
    (text : List Char) : Document × Option (List Char) :=
  match NumberText.scan text with
  | .number found rest => (.number found.value?, some rest)
  | .broken read skipped => (.broken read skipped, none)

/- A string after its quote, and the rest of the text. -/
def readText
    (text : List Char) : Document × Option (List Char) :=
  match readString text with
  | .text value rest => (.string value, some rest)
  | .broken read skipped => (.brokenString read skipped, none)

mutual

/-
  The value at the start of a text, and the rest of the text
  unless the value is broken.
-/
def readValue : Nat → List Char → Document × Option (List Char)
  | 0, _ => (.broken .malformed .malformed, none)
  | fuel + 1, text =>
      match skipBlanks text with
      | [] => (.missing, none)
      | 'n' :: rest => readWord "null" .null ('n' :: rest)
      | 't' :: rest => readWord "true" (.bool true) ('t' :: rest)
      | 'f' :: rest => readWord "false" (.bool false) ('f' :: rest)
      | '"' :: rest => readText rest
      | '[' :: rest =>
          match skipBlanks rest with
          | ']' :: after => (.array .closed, some after)
          | [] => (.array (.cut .eof), none)
          | start =>
              let (elements, after) := readElements fuel start
              (.array elements, after)
      | '\x7b' :: rest =>
          match skipBlanks rest with
          | '\x7d' :: after => (.object .closed, some after)
          | start =>
              let (entries, after) := readEntries fuel start
              (.object entries, after)
      | c :: rest =>
          if c = '-' || isDigit c then
            readNumber (c :: rest)
          else
            (.broken .malformed .malformed, none)

/- The elements of an array from one of them on. -/
def readElements : Nat → List Char → Elements × Option (List Char)
  | 0, _ => (.cut .malformed, none)
  | fuel + 1, text =>
      match readValue fuel text with
      | (value, none) => (.element value .closed, none)
      | (value, some rest) =>
          match skipBlanks rest with
          | [] => (.element value (.cut .eof), none)
          | ']' :: after => (.element value .closed, some after)
          | ',' :: more =>
              let (elements, after) := readElements fuel more
              (.element value elements, after)
          | _ => (.element value (.cut .malformed), none)

/- The fields of an object from one of them on. -/
def readEntries : Nat → List Char → Entries × Option (List Char)
  | 0, _ => (.cut .malformed, none)
  | fuel + 1, text =>
      match skipBlanks text with
      | [] => (.field (.broken .eof .eof) .missing .closed, none)
      | '"' :: start =>
          match readString start with
          | .broken read skipped => (.field (.broken read skipped) .missing .closed, none)
          | .text value rest => readField fuel ((value.map FieldName.text).getD .garbled) rest
      | other => (.stray (readValue fuel other).1, none)

/- The value of a field after its name, and the fields after it. -/
def readField : Nat → FieldName → List Char → Entries × Option (List Char)
  | 0, _, _ => (.cut .malformed, none)
  | fuel + 1, name, text =>
      match skipBlanks text with
      | [] => (.field name .missing .closed, none)
      | ':' :: start =>
          match readValue fuel start with
          | (value, none) => (.field name value .closed, none)
          | (value, some rest) =>
              match skipBlanks rest with
              | [] => (.field name value (.cut .eof), none)
              | '\x7d' :: after => (.field name value .closed, some after)
              | ',' :: next =>
                  let (entries, after) := readEntries fuel next
                  (.field name value entries, after)
              | _ => (.field name value (.cut .malformed), none)
      | _ => (.field name (.broken .malformed .malformed) .closed, none)

end

/-
  The document of a text, and whether anything but blanks
  follows it.  At least every other step of reading takes a
  character, so twice the length is fuel enough.
-/
def read
    (text : List Char) : Document × Bool :=
  match readValue (2 * text.length + 2) text with
  | (document, none) => (document, false)
  | (document, some rest) => (document, !(skipBlanks rest).isEmpty)

end Document

end Json

end Nullary
