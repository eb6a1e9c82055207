import Nullary.Declaration.Basic
import Nullary.Json.Decode

/-
  Declarations as JSON.

  A member names its kind in the field `kind`, which may
  stand anywhere among its fields, or first in an array.  An
  initializer without a name has no field `name`.

  Key definitions include:
    * `Declaration.toJson`
    * `Declaration.decoder`
    * `Member.toJson`
    * `Member.decoder`
    * `Fragment.toJson`
    * `Fragment.decoder`
-/

namespace Nullary

open Nullary.Json

------------------------------------------------------------
-- Kinds and Modifiers
------------------------------------------------------------

namespace DeclarationKind

/- A kind by its name. -/
def decoder : Decoder DeclarationKind :=
  Decoder.variant (all.map fun kind => (kind.name, kind))

end DeclarationKind

namespace Modifiers

/- Modifiers as a list of strings. -/
def toJson
    (m : Modifiers) : Value :=
  Value.strings m.tokens

/- Modifiers from a list of strings, taken over as it is. -/
def decoder : Decoder Modifiers :=
  fun context document => Modifiers.mk <$> Decoder.list Decoder.string context document

end Modifiers

------------------------------------------------------------
-- Parameters
------------------------------------------------------------

namespace Parameter

/- A parameter as a record. -/
def toJson
    (p : Parameter) : Value :=
  .object [("label", .string p.label), ("type", .string p.type)]

/- A parameter that is being read. -/
structure Draft where
  label : Option String
  type : Option String

/- The format of a parameter. -/
def format : RecordFormat Draft Parameter where
  label := "struct Parameter"
  fields := [
    { name := "label"
      isSet := fun d => d.label.isSome
      decode := fun context document d => do
        return { d with label := some (← Decoder.string context document) } },
    { name := "type"
      isSet := fun d => d.type.isSome
      decode := fun context document d => do
        return { d with type := some (← Decoder.string context document) } }]
  empty := ⟨none, none⟩
  build := fun missing d => do
    let label ← RecordFormat.required missing 0 "label" d.label
    let type ← RecordFormat.required missing 1 "type" d.type
    return ⟨label, type⟩

/- A parameter from a record. -/
def decoder : Decoder Parameter :=
  Decoder.record format

end Parameter

------------------------------------------------------------
-- Members
------------------------------------------------------------

/- What a member is. -/
inductive MemberKind where
  | initializer
  | method
  | property
  | other
deriving DecidableEq, Repr

namespace MemberKind

/- The kinds of members by their names. -/
def named : List (String × MemberKind) :=
  [("initializer", .initializer), ("method", .method), ("property", .property),
    ("other", .other)]

end MemberKind

namespace Member

/- The field that tells what a member is. -/
def tagField : String :=
  "kind"

/- A member as a record; the name of an initializer is left out if there is none. -/
def toJson : Member → Value
  | initializer name modifiers parameters =>
      let name := (name.map fun name => ("name", Value.string name)).toList
      .object ([(tagField, .string "initializer")] ++ name ++
        [("modifiers", modifiers.toJson), ("parameters", .array (parameters.map Parameter.toJson))])
  | method name modifiers =>
      .object [(tagField, .string "method"), ("name", .string name),
        ("modifiers", modifiers.toJson)]
  | property name => .object [(tagField, .string "property"), ("name", .string name)]
  | other => .object [(tagField, .string "other")]

/- A member that is being read; an initializer may be named by null. -/
structure Draft where
  name : Option (Option String)
  modifiers : Option Modifiers
  parameters : Option (List Parameter)

/- A draft with nothing in it. -/
def Draft.empty : Draft :=
  ⟨none, none, none⟩

/- The name of a member that must have one. -/
def nameField : RecordField Draft where
  name := "name"
  isSet := fun d => d.name.isSome
  decode := fun context document d => do
    return { d with name := some (some (← Decoder.string context document)) }

/- The name of a member that need not have one. -/
def optionalNameField : RecordField Draft where
  name := "name"
  isSet := fun d => d.name.isSome
  decode := fun context document d => do
    return { d with name := some (← Decoder.nullable Decoder.string context document) }

/- The modifiers of a member. -/
def modifiersField : RecordField Draft where
  name := "modifiers"
  isSet := fun d => d.modifiers.isSome
  decode := fun context document d => do
    return { d with modifiers := some (← Modifiers.decoder context document) }

/- The parameters of a member. -/
def parametersField : RecordField Draft where
  name := "parameters"
  isSet := fun d => d.parameters.isSome
  decode := fun context document d => do
    return { d with parameters := some (← Decoder.list Parameter.decoder context document) }

/- The format of an initializer. -/
def initializerFormat : RecordFormat Draft Member where
  label := "struct variant Member::Initializer"
  fields := [optionalNameField, modifiersField, parametersField]
  empty := .empty
  build := fun _ d =>
    .ok (.initializer (d.name.getD none) (d.modifiers.getD .empty) (d.parameters.getD []))

/- The format of a method. -/
def methodFormat : RecordFormat Draft Member where
  label := "struct variant Member::Method"
  fields := [nameField, modifiersField]
  empty := .empty
  build := fun missing d => do
    let name ← RecordFormat.required missing 0 "name" (d.name.getD none)
    return .method name (d.modifiers.getD .empty)

/- The format of a property. -/
def propertyFormat : RecordFormat Draft Member where
  label := "struct variant Member::Property"
  fields := [nameField]
  empty := .empty
  build := fun missing d => do
    let name ← RecordFormat.required missing 0 "name" (d.name.getD none)
    return .property name

/- The format of any other member, which has no fields. -/
def otherFormat : RecordFormat Draft Member where
  label := "unit variant Member::Other"
  fields := []
  empty := .empty
  build := fun _ _ => .ok .other

/- The format of a member of a kind. -/
def format : MemberKind → RecordFormat Draft Member
  | .initializer => initializerFormat
  | .method => methodFormat
  | .property => propertyFormat
  | .other => otherFormat

/- The kind of a member, which must be given only once. -/
def decodeTag
    (context : Context)
    (value : Document) : Option MemberKind → Except DecodeError MemberKind
  | some _ => .error (.duplicateField tagField)
  | none => Decoder.identifier MemberKind.named context value

/- The kind among the fields of a member, and its other fields, which are buffered. -/
def splitTag
    (context : Context) :
    Entries → Option MemberKind → Except DecodeError (Option MemberKind × Entries)
  | .closed, tag => .ok (tag, .closed)
  | .cut fault, _ => .error (.fault fault)
  | .stray _, _ => .error (.fault .malformed)
  | .field name value rest, tag => do
      let text ← name.read
      if text = tagField then
        let found ← decodeTag context value tag
        splitTag context rest (some found)
      else
        Decoder.buffer context value
        let (found, others) ← splitTag context rest tag
        return (found, .field name value others)

/- A member: its kind is found first, then its fields are decoded. -/
def decoder : Decoder Member
  | context, .object entries => do
      let inner ← context.enter
      match ← splitTag inner entries none with
      | (some kind, fields) => Decoder.record (format kind) .buffer (.object fields)
      | (none, _) => .error (.missingField tagField)
  | context, .array elements => do
      let inner ← context.enter
      match elements with
      | .element tag rest =>
          let kind ← decodeTag inner tag none
          let _ ← rest.values inner
          Decoder.record (format kind) .buffer (.array rest)
      | .cut fault => .error (.fault fault)
      | .closed => .error (.missingField tagField)
  | _, document => .error (mismatch "internally tagged enum Member" document)

end Member

------------------------------------------------------------
-- Declarations
------------------------------------------------------------

namespace Declaration

/- A declaration as a record. -/
def toJson
    (d : Declaration) : Value :=
  .object [("name", .string d.name), ("kind", .string d.kind.name),
    ("modifiers", d.modifiers.toJson), ("members", .array (d.members.map Member.toJson))]

/- A declaration that is being read. -/
structure Draft where
  name : Option String
  kind : Option DeclarationKind
  modifiers : Option Modifiers
  members : Option (List Member)

/- The format of a declaration. -/
def format : RecordFormat Draft Declaration where
  label := "struct Declaration"
  fields := [
    { name := "name"
      isSet := fun d => d.name.isSome
      decode := fun context document d => do
        return { d with name := some (← Decoder.string context document) } },
    { name := "kind"
      isSet := fun d => d.kind.isSome
      decode := fun context document d => do
        return { d with kind := some (← DeclarationKind.decoder context document) } },
    { name := "modifiers"
      isSet := fun d => d.modifiers.isSome
      decode := fun context document d => do
        return { d with modifiers := some (← Modifiers.decoder context document) } },
    { name := "members"
      isSet := fun d => d.members.isSome
      decode := fun context document d => do
        return { d with members := some (← Decoder.list Member.decoder context document) } }]
  empty := ⟨none, none, none, none⟩
  build := fun missing d => do
    let name ← RecordFormat.required missing 0 "name" d.name
    let kind ← RecordFormat.required missing 1 "kind" d.kind
    return ⟨name, kind, d.modifiers.getD .empty, d.members.getD []⟩

/- A declaration from a record. -/
def decoder : Decoder Declaration :=
  Decoder.record format

end Declaration

------------------------------------------------------------
-- Fragments
------------------------------------------------------------

namespace Fragment

/- A fragment as a record. -/
def toJson
    (f : Fragment) : Value :=
  .object [("modifiers", f.modifiers.toJson),
    ("parameters", .array (f.parameters.map Parameter.toJson))]

/- A fragment that is being read. -/
structure Draft where
  modifiers : Option Modifiers
  parameters : Option (List Parameter)

/- The format of a fragment. -/
def format : RecordFormat Draft Fragment where
  label := "struct GeneratedFragment"
  fields := [
    { name := "modifiers"
      isSet := fun d => d.modifiers.isSome
      decode := fun context document d => do
        return { d with modifiers := some (← Modifiers.decoder context document) } },
    { name := "parameters"
      isSet := fun d => d.parameters.isSome
      decode := fun context document d => do
        return { d with parameters := some (← Decoder.list Parameter.decoder context document) } }]
  empty := ⟨none, none⟩
  build := fun missing d => do
    let modifiers ← RecordFormat.required missing 0 "modifiers" d.modifiers
    let parameters ← RecordFormat.required missing 1 "parameters" d.parameters
    return ⟨modifiers, parameters⟩

/- A fragment from a record. -/
def decoder : Decoder Fragment :=
  Decoder.record format

end Fragment

end Nullary
