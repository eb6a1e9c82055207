import Nullary.Declaration.Json
import Nullary.Verdict.Outcome

/-
  Diagnostics and outcomes as JSON.

  An outcome names itself in the field `outcome` and holds
  its content in the field `value`, in either order.  A
  content that comes first is buffered until its meaning is
  known.

  Key definitions include:
    * `Diagnostic.toJson`
    * `Diagnostic.decoder`
    * `Outcome.toJson`
    * `Outcome.decoder`
-/

namespace Nullary

open Nullary.Json

------------------------------------------------------------
-- Diagnostics
------------------------------------------------------------

namespace Severity

/- A severity by its name. -/
def decoder : Decoder Severity :=
  Decoder.variant (all.map fun severity => (severity.name, severity))

end Severity

namespace DiagnosticKind

/- A kind by its name. -/
def decoder : Decoder DiagnosticKind :=
  Decoder.variant (all.map fun kind => (kind.name, kind))

end DiagnosticKind

namespace Diagnostic

/- A diagnostic as a record, given its anchor. -/
def toJson
    (d : Diagnostic Value) : Value :=
  .object [("kind", .string d.kind.name), ("message", .string d.message),
    ("severity", .string d.severity.name), ("anchor", d.anchor)]

/- A diagnostic that is being read. -/
structure Draft where
  kind : Option DiagnosticKind
  message : Option String
  severity : Option Severity
  anchor : Option Value

/- The format of a diagnostic. -/
def format : RecordFormat Draft (Diagnostic Value) where
  label := "struct Diagnostic"
  fields := [
    { name := "kind"
      isSet := fun d => d.kind.isSome
      decode := fun context document d => do
        return { d with kind := some (← DiagnosticKind.decoder context document) } },
    { name := "message"
      isSet := fun d => d.message.isSome
      decode := fun context document d => do
        return { d with message := some (← Decoder.string context document) } },
    { name := "severity"
      isSet := fun d => d.severity.isSome
      decode := fun context document d => do
        return { d with severity := some (← Severity.decoder context document) } },
    { name := "anchor"
      isSet := fun d => d.anchor.isSome
      decode := fun context document d => do
        return { d with anchor := some (← Decoder.value context document) } }]
  empty := ⟨none, none, none, none⟩
  build := fun missing d => do
    let kind ← RecordFormat.required missing 0 "kind" d.kind
    let message ← RecordFormat.required missing 1 "message" d.message
    let severity ← RecordFormat.required missing 2 "severity" d.severity
    let anchor ← RecordFormat.required missing 3 "anchor" d.anchor
    return ⟨kind, message, severity, anchor⟩

/- A diagnostic from a record. -/
def decoder : Decoder (Diagnostic Value) :=
  Decoder.record format

end Diagnostic

------------------------------------------------------------
-- Outcomes
------------------------------------------------------------

/- What an outcome is. -/
inductive OutcomeKind where
  | synthesized
  | redundant
  | rejected
deriving DecidableEq, Repr

namespace OutcomeKind

/- The kinds of outcomes by their names. -/
def named : List (String × OutcomeKind) :=
  [("synthesized", .synthesized), ("redundant", .redundant), ("rejected", .rejected)]

/- A kind by its name. -/
def decoder : Decoder OutcomeKind :=
  Decoder.variant named

/- The content of an outcome of a kind. -/
def content : OutcomeKind → Decoder (Outcome Value)
  | synthesized => fun context document =>
      Outcome.synthesized <$> Decoder.list Fragment.decoder context document
  | redundant => fun context document =>
      Outcome.redundant <$> Diagnostic.decoder context document
  | rejected => fun context document =>
      Outcome.rejected <$> Diagnostic.decoder context document

end OutcomeKind

namespace Outcome

/- The field that tells what an outcome is. -/
def tagField : String :=
  "outcome"

/- The field that holds the content of an outcome. -/
def contentField : String :=
  "value"

/- A kind and a content as a record. -/
def tagged
    (kind : String)
    (content : Value) : Value :=
  .object [(tagField, .string kind), (contentField, content)]

/- An outcome as a record. -/
def toJson : Outcome Value → Value
  | synthesized fragments =>
      tagged "synthesized" (.array (fragments.map Fragment.toJson))
  | redundant d => tagged "redundant" d.toJson
  | rejected d => tagged "rejected" d.toJson

/- How much of an outcome has been read. -/
inductive Progress where
  | nothing
  | kind (kind : OutcomeKind)
  | content (document : Document)
  | all (outcome : Outcome Value)

/- The kind of an outcome has come up. -/
def Progress.addKind
    (context : Context)
    (value : Document) : Progress → Except DecodeError Progress
  | .nothing => do
      return .kind (← OutcomeKind.decoder context value)
  | .content document => do
      let found ← OutcomeKind.decoder context value
      return .all (← found.content .buffer document)
  | _ => .error (.duplicateField tagField)

/- The content of an outcome has come up. -/
def Progress.addContent
    (context : Context)
    (value : Document) : Progress → Except DecodeError Progress
  | .nothing => do
      Decoder.buffer context value
      return .content value
  | .kind found => do
      return .all (← found.content context value)
  | _ => .error (.duplicateField contentField)

/- The outcome that has been read when nothing more follows. -/
def Progress.finish : Progress → Except DecodeError (Outcome Value)
  | .all outcome => .ok outcome
  | .kind _ => .error (.missingField contentField)
  | _ => .error (.missingField tagField)

/- The outcome in the fields of an object. -/
def decodeEntries
    (context : Context) : Entries → Progress → Except DecodeError (Outcome Value)
  | .closed, progress => progress.finish
  | .cut fault, _ => .error (.fault fault)
  | .stray _, _ => .error (.fault .malformed)
  | .field name value rest, progress => do
      let name ← name.read
      if name = tagField then
        decodeEntries context rest (← progress.addKind context value)
      else if name = contentField then
        decodeEntries context rest (← progress.addContent context value)
      else
        value.skip
        decodeEntries context rest progress

/- What is expected where an outcome should stand. -/
def label : String :=
  "adjacently tagged enum Outcome"

/- The outcome in the two elements of an array. -/
def decodeElements
    (context : Context) : Elements → Except DecodeError (Outcome Value)
  | .closed => .error (.invalidLength 0 label)
  | .cut fault => .error (.fault fault)
  | .element tag rest => do
      let kind ← OutcomeKind.decoder context tag
      match rest with
      | .closed => .error (.invalidLength 1 label)
      | .cut fault => .error (.fault fault)
      | .element value others =>
          let outcome ← kind.content context value
          Decoder.endOfElements context 2 others
          return outcome

/- An outcome from a record. -/
def decoder : Decoder (Outcome Value)
  | context, .object entries => do
      decodeEntries (← context.enter) entries .nothing
  | context, .array elements => do
      decodeElements (← context.enter) elements
  | _, document => .error (mismatch label document)

end Outcome

end Nullary
