import Nullary.Verdict.Json

/-
  Requests to decide about a declaration, as JSON texts, and
  their answers.

  Key definitions include:
    * `Request`
    * `Request.decoder`
    * `Request.evaluate`
    * `Request.answer`
-/

namespace Nullary

open Nullary.Json

/- A declaration, how its marker is written, and where it stands. -/
structure Request where
  declaration : Declaration
  marker : Option String
  anchor : Value
deriving Repr

namespace Request

------------------------------------------------------------
-- Reading
------------------------------------------------------------

/- A request that is being read. -/
structure Draft where
  declaration : Option Declaration
  marker : Option (Option String)
  anchor : Option Value

/- The format of a request. -/
def format : RecordFormat Draft Request where
  label := "struct EvaluationRequest"
  fields := [
    { name := "declaration"
      isSet := fun d => d.declaration.isSome
      decode := fun context document d => do
        return { d with declaration := some (← Declaration.decoder context document) } },
    { name := "marker"
      isSet := fun d => d.marker.isSome
      decode := fun context document d => do
        return { d with marker := some (← Decoder.nullable Decoder.string context document) } },
    { name := "anchor"
      isSet := fun d => d.anchor.isSome
      decode := fun context document d => do
        return { d with anchor := some (← Decoder.value context document) } }]
  empty := ⟨none, none, none⟩
  build := fun missing d => do
    let declaration ← RecordFormat.required missing 0 "declaration" d.declaration
    return ⟨declaration, d.marker.getD none, d.anchor.getD .null⟩

/- A request from a record. -/
def decoder : Decoder Request :=
  Decoder.record format

------------------------------------------------------------
-- Answering
------------------------------------------------------------

/- Decide about the declaration of a request. -/
def evaluate
    (r : Request) : Outcome Value :=
  r.declaration.evaluateWith r.anchor (r.marker.getD defaultMarker)

/- The answer to the text of a request. -/
def answer
    (text : List Char) : Except DecodeError String := do
  let request ← decodeText decoder text
  return request.evaluate.toJson.pretty

end Request

end Nullary
