import Nullary.Json.Document
import Nullary.Json.Value
import Nullary.Text.Quoted

/-
  The decoding of documents into values of given types.

  A decoder meets the parts of a document in the order in
  which they were written and stops at the first objection: a
  fault of the text, or a value that does not fit.

  A record is written as an object, with its fields in any
  order and others among them, or as an array of its fields.

  A value that cannot be understood yet is buffered: read as
  a whole and decoded later.  A buffered value has no faults
  left, and counts the surplus elements of an array.

  Key definitions include:
    * `Json.DecodeError`
    * `Json.DecodeError.message?`
    * `Json.Context`
    * `Json.Decoder`
    * `Json.Decoder.value`
    * `Json.Decoder.string`
    * `Json.Decoder.list`
    * `Json.Decoder.variant`
    * `Json.RecordFormat`
    * `Json.Decoder.record`
    * `Json.decodeText`
-/

namespace Nullary

namespace Json

------------------------------------------------------------
-- Errors
------------------------------------------------------------

/- What was found where something else was expected. -/
inductive Shape where
  | null
  | bool (value : Bool)
  | number (value : Number)
  | string (value : String)
  | sequence
  | map
deriving DecidableEq, Repr

namespace Shape

/- A shape in words. -/
def describe : Shape → String
  | null => "null"
  | bool true => "boolean `true`"
  | bool false => "boolean `false`"
  | number (.integer n) => "integer `" ++ String.ofList (Number.print (.integer n)) ++ "`"
  | number (.double bits) =>
      "floating point `" ++ String.ofList (Number.print (.double bits)) ++ "`"
  | string s => "string " ++ String.ofList (Quoted.shown s.toList)
  | sequence => "sequence"
  | map => "map"

end Shape

/- Why a text cannot be decoded. -/
inductive DecodeError where
  | fault (fault : Fault)
  | missingField (name : String)
  | duplicateField (name : String)
  | unknownVariant (name : String) (variants : List String)
  | invalidType (found : Shape) (expected : String)
  | invalidValue (found : Shape) (expected : String)
  | invalidLength (length : Nat) (expected : String)
deriving DecidableEq, Repr

namespace DecodeError

/- A name between backquotes. -/
def ticked
    (name : String) : String :=
  "`" ++ name ++ "`"

/- A choice of names in words. -/
def choice : List String → String
  | [] => "there are no variants"
  | [a] => ticked a
  | [a, b] => ticked a ++ " or " ++ ticked b
  | names => "one of " ++ String.intercalate ", " (names.map ticked)

/- The text for a value that does not fit; faults of the text have none. -/
def message? : DecodeError → Option String
  | fault _ => none
  | missingField name => some ("missing field " ++ ticked name)
  | duplicateField name => some ("duplicate field " ++ ticked name)
  | unknownVariant name variants =>
      some ("unknown variant " ++ ticked name ++ ", expected " ++ choice variants)
  | invalidType found expected =>
      some ("invalid type: " ++ found.describe ++ ", expected " ++ expected)
  | invalidValue found expected =>
      some ("invalid value: " ++ found.describe ++ ", expected " ++ expected)
  | invalidLength length expected =>
      some ("invalid length " ++ toString length ++ ", expected " ++ expected)

/- A number of elements in words. -/
def elementCount
    (n : Nat) : String :=
  if n = 1 then "1 element" else toString n ++ " elements"

end DecodeError

------------------------------------------------------------
-- Decoders
------------------------------------------------------------

/-
  Whether a value is buffered, and how many arrays and
  objects may still be opened inside each other if it is not.
-/
structure Context where
  buffered : Bool
  depth : Nat
deriving DecidableEq, Repr

namespace Context

/- The context of a whole text. -/
def start : Context :=
  ⟨false, 127⟩

/- The context of a buffered value. -/
def buffer : Context :=
  ⟨true, 0⟩

/- The context inside an array or an object. -/
def enter
    (context : Context) : Except DecodeError Context :=
  if context.buffered then
    .ok context
  else if context.depth = 0 then
    .error (.fault .malformed)
  else
    .ok { context with depth := context.depth - 1 }

end Context

/- A decoder turns a document into a value of a type. -/
abbrev Decoder (α : Type) :=
  Context → Document → Except DecodeError α

/- The objection to a document where something else was expected. -/
def mismatch
    (expected : String) : Document → DecodeError
  | .missing => .fault .eof
  | .broken read _ => .fault read
  | .brokenString read _ => .fault read
  | .null => .invalidType .null expected
  | .bool value => .invalidType (.bool value) expected
  | .number none => .fault .malformed
  | .number (some value) => .invalidType (.number value) expected
  | .string none => .fault .malformed
  | .string (some value) => .invalidType (.string value) expected
  | .array _ => .invalidType .sequence expected
  | .object _ => .invalidType .map expected

namespace FieldName

/- The name of a field, if it can be read. -/
def read : FieldName → Except DecodeError String
  | text value => .ok value
  | garbled => .error (.fault .malformed)
  | broken read _ => .error (.fault read)

/- The fault of a name for those who skip it. -/
def skip : FieldName → Except DecodeError Unit
  | broken _ skipped => .error (.fault skipped)
  | _ => .ok ()

end FieldName

------------------------------------------------------------
-- Skipping
------------------------------------------------------------

mutual

/- Pass over a value without reading it. -/
def Document.skip : Document → Except DecodeError Unit
  | .missing => .error (.fault .eof)
  | .broken _ skipped => .error (.fault skipped)
  | .brokenString _ skipped => .error (.fault skipped)
  | .array elements => elements.skip
  | .object entries => entries.skip
  | _ => .ok ()

/- Pass over elements. -/
def Elements.skip : Elements → Except DecodeError Unit
  | .closed => .ok ()
  | .cut fault => .error (.fault fault)
  | .element value rest => do
      value.skip
      rest.skip

/- Pass over fields. -/
def Entries.skip : Entries → Except DecodeError Unit
  | .closed => .ok ()
  | .cut fault => .error (.fault fault)
  | .stray _ => .error (.fault .malformed)
  | .field name value rest => do
      name.skip
      value.skip
      rest.skip

end

------------------------------------------------------------
-- Arbitrary Values
------------------------------------------------------------

mutual

/- The value of a document. -/
def Document.value
    (context : Context) : Document → Except DecodeError Value
  | .missing => .error (.fault .eof)
  | .broken read _ => .error (.fault read)
  | .brokenString read _ => .error (.fault read)
  | .null => .ok .null
  | .bool value => .ok (.bool value)
  | .number none => .error (.fault .malformed)
  | .number (some value) => .ok (.number value)
  | .string none => .error (.fault .malformed)
  | .string (some value) => .ok (.string value)
  | .array elements => do
      let inner ← context.enter
      return .array (← elements.values inner)
  | .object entries => do
      let inner ← context.enter
      return .object (Value.sortFields (← entries.values inner))

/- The values of elements. -/
def Elements.values
    (context : Context) : Elements → Except DecodeError (List Value)
  | .closed => .ok []
  | .cut fault => .error (.fault fault)
  | .element value rest => do
      let first ← value.value context
      return first :: (← rest.values context)

/- The values of fields with their names. -/
def Entries.values
    (context : Context) : Entries → Except DecodeError (List (String × Value))
  | .closed => .ok []
  | .cut fault => .error (.fault fault)
  | .stray _ => .error (.fault .malformed)
  | .field name value rest => do
      let name ← name.read
      let first ← value.value context
      return (name, first) :: (← rest.values context)

end

namespace Decoder

variable {α σ : Type}

/- Any value. -/
def value : Decoder Value :=
  fun context document => document.value context

/- Read a document as a whole, so that it can be decoded later. -/
def buffer : Decoder Unit :=
  fun context document => do
    let _ ← document.value context

------------------------------------------------------------
-- Simple Types
------------------------------------------------------------

/- A string. -/
def string : Decoder String
  | _, .string (some value) => .ok value
  | _, document => .error (mismatch "a string" document)

/- A value that may be null. -/
def nullable
    (d : Decoder α) : Decoder (Option α)
  | _, .null => .ok none
  | context, document => some <$> d context document

/- The null value; a buffered object without fields counts as one. -/
def unit : Decoder Unit
  | _, .null => .ok ()
  | ⟨true, _⟩, .object .closed => .ok ()
  | _, document => .error (mismatch "unit" document)

/- The elements of a list. -/
def elements
    (d : Decoder α)
    (context : Context) : Elements → Except DecodeError (List α)
  | .closed => .ok []
  | .cut fault => .error (.fault fault)
  | .element value rest => do
      let first ← d context value
      return first :: (← elements d context rest)

/- A list. -/
def list
    (d : Decoder α) : Decoder (List α)
  | context, .array found => do
      elements d (← context.enter) found
  | _, document => .error (mismatch "a sequence" document)

------------------------------------------------------------
-- Variants
------------------------------------------------------------

/- The variant with a given name. -/
def variantNamed
    (variants : List (String × α))
    (name : String) : Except DecodeError α :=
  match variants.find? (·.1 == name) with
  | some (_, found) => .ok found
  | none => .error (.unknownVariant name (variants.map Prod.fst))

/- A name that identifies a variant. -/
def identifier
    (variants : List (String × α)) : Decoder α
  | _, .string (some name) => variantNamed variants name
  | _, document => .error (mismatch "variant identifier" document)

/- What may follow the only field of an object: its end. -/
def endOfSingle : Entries → Except DecodeError Unit
  | .closed => .ok ()
  | .cut fault => .error (.fault fault)
  | _ => .error (.fault .malformed)

/- A variant in the text itself: its name, or its name as the field of a null. -/
def variantInText
    (variants : List (String × α)) : Decoder α
  | _, .missing => .error (.fault .eof)
  | _, .brokenString read _ => .error (.fault read)
  | _, .string none => .error (.fault .malformed)
  | _, .string (some name) => variantNamed variants name
  | context, .object entries => do
      let inner ← context.enter
      match entries with
      | .field name value rest =>
          let found ← variantNamed variants (← name.read)
          unit inner value
          endOfSingle rest
          return found
      | .stray document => .error (mismatch "variant identifier" document)
      | .cut fault => .error (.fault fault)
      | .closed => .error (.fault .malformed)
  | _, _ => .error (.fault .malformed)

/- A buffered variant. -/
def variantInBuffer
    (variants : List (String × α)) : Decoder α
  | _, .string (some name) => variantNamed variants name
  | context, .object (.field name value .closed) => do
      let found ← variantNamed variants (← name.read)
      unit context value
      return found
  | _, .object _ => .error (.invalidValue .map "map with a single key")
  | _, document => .error (mismatch "string or map" document)

/- A variant without content. -/
def variant
    (variants : List (String × α)) : Decoder α :=
  fun context document =>
    if context.buffered then
      variantInBuffer variants context document
    else
      variantInText variants context document

end Decoder

------------------------------------------------------------
-- Records
------------------------------------------------------------

/- A field of a record that is filled in step by step. -/
structure RecordField (σ : Type) where
  name : String
  isSet : σ → Bool
  decode : Context → Document → σ → Except DecodeError σ

/-
  The format of a record.  `build` completes a draft; it
  calls for a field that is missing by its position and its
  name.
-/
structure RecordFormat (σ : Type) (α : Type) where
  label : String
  fields : List (RecordField σ)
  empty : σ
  build : (Nat → String → DecodeError) → σ → Except DecodeError α

namespace RecordFormat

/- A field that must be there. -/
def required
    {α : Type}
    (missing : Nat → String → DecodeError)
    (position : Nat)
    (name : String) : Option α → Except DecodeError α
  | some value => .ok value
  | none => .error (missing position name)

end RecordFormat

namespace Decoder

variable {α σ : Type}

/- Fill in a field, which must not be there yet. -/
def setField
    (field : RecordField σ)
    (context : Context)
    (value : Document)
    (draft : σ) : Except DecodeError σ :=
  if field.isSet draft then
    .error (.duplicateField field.name)
  else
    field.decode context value draft

/- Fill in the fields of an object; those with other names are skipped. -/
def recordEntries
    (fields : List (RecordField σ))
    (context : Context) : Entries → σ → Except DecodeError σ
  | .closed, draft => .ok draft
  | .cut fault, _ => .error (.fault fault)
  | .stray _, _ => .error (.fault .malformed)
  | .field name value rest, draft => do
      let name ← name.read
      match fields.find? (·.name == name) with
      | some field =>
          let next ← setField field context value draft
          recordEntries fields context rest next
      | none =>
          value.skip
          recordEntries fields context rest draft

/- Fill in fields from the elements of an array; also give the elements left over. -/
def recordElements
    (context : Context) : List (RecordField σ) → Elements → σ → Except DecodeError (σ × Elements)
  | [], elements, draft => .ok (draft, elements)
  | _ :: _, .closed, draft => .ok (draft, .closed)
  | _ :: _, .cut fault, _ => .error (.fault fault)
  | field :: fields, .element value rest, draft => do
      let next ← field.decode context value draft
      recordElements context fields rest next

/- The number of elements. -/
def countElements : Elements → Nat
  | .element _ rest => countElements rest + 1
  | _ => 0

/- What may follow the last field of a record in an array: its end. -/
def endOfElements
    (context : Context)
    (count : Nat) : Elements → Except DecodeError Unit
  | .closed => .ok ()
  | .cut fault => .error (.fault fault)
  | .element value rest =>
      if context.buffered then
        .error (.invalidLength (count + countElements (.element value rest))
          (DecodeError.elementCount count ++ " in sequence"))
      else
        .error (.fault .malformed)

/- The objection to an array that is too short for a record. -/
def tooShort
    (format : RecordFormat σ α)
    (position : Nat)
    (_ : String) : DecodeError :=
  .invalidLength position
    (format.label ++ " with " ++ DecodeError.elementCount format.fields.length)

/- A record as an object or as an array. -/
def record
    (format : RecordFormat σ α) : Decoder α
  | context, .object entries => do
      let inner ← context.enter
      let draft ← recordEntries format.fields inner entries format.empty
      format.build (fun _ name => .missingField name) draft
  | context, .array elements => do
      let inner ← context.enter
      let (draft, rest) ← recordElements inner format.fields elements format.empty
      let found ← format.build (tooShort format) draft
      endOfElements inner format.fields.length rest
      return found
  | _, document => .error (mismatch format.label document)

end Decoder

------------------------------------------------------------
-- Texts
------------------------------------------------------------

/- Decode a text that holds one value and nothing else. -/
def decodeText
    {α : Type}
    (d : Decoder α)
    (text : List Char) : Except DecodeError α :=
  let (document, more) := Document.read text
  match d .start document with
  | .error e => .error e
  | .ok value => if more then .error (.fault .malformed) else .ok value

end Json

end Nullary
