import Nullary.Json.Number

/-
  JSON values, and their texts.

  The fields of an object are written in the order in which
  they stand.  An object that was read has its fields sorted
  by name, and of several fields with one name the last.

  Key definitions include:
    * `Json.Value`
    * `Json.Value.setField`
    * `Json.Value.compact`
    * `Json.Value.pretty`
-/

namespace Nullary

namespace Json

------------------------------------------------------------
-- Values
------------------------------------------------------------

/- A JSON value. -/
inductive Value where
  | null
  | bool (value : Bool)
  | number (value : Number)
  | string (value : String)
  | array (elements : List Value)
  | object (fields : List (String × Value))
deriving Repr

namespace Value

/- A whole number. -/
def nat
    (n : Nat) : Value :=
  .number (.integer n)

/- A list of strings. -/
def strings
    (texts : List String) : Value :=
  .array (texts.map .string)

/- Set a field of sorted fields; an earlier one of the same name is replaced. -/
def setField
    (name : String)
    (value : Value) : List (String × Value) → List (String × Value)
  | [] => [(name, value)]
  | (other, old) :: rest =>
      if name < other then
        (name, value) :: (other, old) :: rest
      else if name = other then
        (name, value) :: rest
      else
        (other, old) :: setField name value rest

/- Fields sorted by name; of several with one name, the last. -/
def sortFields
    (fields : List (String × Value)) : List (String × Value) :=
  fields.foldl (fun sorted (name, value) => setField name value sorted) []

/- The value of a field, if the value is an object that has it. -/
def field?
    (name : String) : Value → Option Value
  | object fields => (fields.find? (·.1 == name)).map Prod.snd
  | _ => none

end Value

------------------------------------------------------------
-- Strings
------------------------------------------------------------

/- The hexadecimal digit for a number below sixteen. -/
def hexDigit
    (n : Nat) : Char :=
  if n < 10 then Char.ofNat (n + '0'.toNat) else Char.ofNat (n - 10 + 'a'.toNat)

/- A character inside a string: quotes, backslashes and controls are escaped. -/
def escapeChar
    (c : Char) : List Char :=
  if c = '"' then ['\\', '"']
  else if c = '\\' then ['\\', '\\']
  else if c.toNat = 0x08 then ['\\', 'b']
  else if c.toNat = 0x0C then ['\\', 'f']
  else if c = '\n' then ['\\', 'n']
  else if c = '\r' then ['\\', 'r']
  else if c = '\t' then ['\\', 't']
  else if c.toNat < 0x20 then
    ['\\', 'u', '0', '0', hexDigit (c.toNat / 16), hexDigit (c.toNat % 16)]
  else [c]

/- The text of a string. -/
def quote
    (text : String) : List Char :=
  '"' :: text.toList.flatMap escapeChar ++ ['"']

------------------------------------------------------------
-- Compact Texts
------------------------------------------------------------

namespace Value

mutual

/- The text of a value without any blanks. -/
def compact : Value → List Char
  | .null => "null".toList
  | .bool true => "true".toList
  | .bool false => "false".toList
  | .number n => n.print
  | .string s => quote s
  | .array elements => '[' :: compactElements elements ++ [']']
  | .object fields => '\x7b' :: compactFields fields ++ ['\x7d']

/- The texts of elements with commas between them. -/
def compactElements : List Value → List Char
  | [] => []
  | [value] => value.compact
  | value :: rest => value.compact ++ ',' :: compactElements rest

/- The texts of fields with commas between them. -/
def compactFields : List (String × Value) → List Char
  | [] => []
  | [(name, value)] => quote name ++ ':' :: value.compact
  | (name, value) :: rest =>
      quote name ++ ':' :: value.compact ++ ',' :: compactFields rest

end

------------------------------------------------------------
-- Indented Texts
------------------------------------------------------------

/- A new line at an indentation depth, two spaces to a step. -/
def newLine
    (depth : Nat) : List Char :=
  '\n' :: List.replicate (2 * depth) ' '

mutual

/- The text of a value with each element and field on a line of its own. -/
def prettyAt
    (depth : Nat) : Value → List Char
  | .null => "null".toList
  | .bool true => "true".toList
  | .bool false => "false".toList
  | .number n => n.print
  | .string s => quote s
  | .array [] => ['[', ']']
  | .array elements => '[' :: prettyElements (depth + 1) elements ++ newLine depth ++ [']']
  | .object [] => ['\x7b', '\x7d']
  | .object fields =>
      '\x7b' :: prettyFields (depth + 1) fields ++ newLine depth ++ ['\x7d']

/- The texts of elements, each after a new line. -/
def prettyElements
    (depth : Nat) : List Value → List Char
  | [] => []
  | [value] => newLine depth ++ prettyAt depth value
  | value :: rest =>
      newLine depth ++ prettyAt depth value ++ ',' :: prettyElements depth rest

/- The texts of fields, each after a new line. -/
def prettyFields
    (depth : Nat) : List (String × Value) → List Char
  | [] => []
  | [(name, value)] => newLine depth ++ quote name ++ ':' :: ' ' :: prettyAt depth value
  | (name, value) :: rest =>
      newLine depth ++ quote name ++ ':' :: ' ' :: prettyAt depth value ++
        ',' :: prettyFields depth rest

end

/- The text of a value on several lines. -/
def pretty
    (value : Value) : String :=
  String.ofList (prettyAt 0 value)

/- The text of a value on one line. -/
def compactText
    (value : Value) : String :=
  String.ofList value.compact

end Value

end Json

end Nullary
