import Nullary.Constructor.Tokens
import Nullary.Item.Lowering
import Nullary.Item.Marker
import Nullary.Text.Quoted
import Nullary.Verdict.Outcome

/-
  What the marker puts after the item that it stands on: the
  generated constructor, an error that stops compilation, or
  a constant whose use is warned about.

  Key definitions include:
    * `Item.outcome`
    * `errorTokens`
    * `warningTokens`
    * `Item.expandMarker`
-/

namespace Nullary

open Nullary.Tokens

------------------------------------------------------------
-- Reports as Tokens
------------------------------------------------------------

/- A generated string literal. -/
def generatedString
    (text : String) : TokenTree :=
  .literal (String.ofList (Quoted.literal text.toList)) .nowhere

/- An error that stops compilation with a message. -/
def errorTokens
    (message : String) : Tokens :=
  generatedMark "::" ++ [generatedWord "core"] ++ generatedMark "::" ++
    [generatedWord "compile_error"] ++ generatedMark "!" ++
    [generatedGroup .brace [generatedString message]]

/- The deprecation of a constant with a note. -/
def deprecationTokens
    (note : String) : Tokens :=
  generatedMark "#" ++ [generatedGroup .bracket
    [generatedWord "deprecated", generatedGroup .parenthesis
      (generatedWord "note" :: generatedMark "=" ++ [generatedString note])]]

/- The permission to name a constant in small letters. -/
def permissionTokens : Tokens :=
  generatedMark "#" ++ [generatedGroup .bracket
    [generatedWord "allow", generatedGroup .parenthesis
      [generatedWord "non_upper_case_globals"]]]

/- The head of a constant of the unit type, up to its value. -/
def unitConstantTokens
    (name : String) : Tokens :=
  [generatedWord "const", generatedWord name] ++ generatedMark ":" ++
    [generatedGroup .parenthesis []] ++ generatedMark "="

/-
  A deprecated constant and its use: the compiler warns with
  the note.
-/
def warningTokens
    (note : String) : Tokens :=
  let body :=
    deprecationTokens note ++ permissionTokens ++ unitConstantTokens markerName ++
      [generatedGroup .parenthesis []] ++ generatedMark ";" ++ [generatedWord markerName]
  unitConstantTokens "_" ++ [generatedGroup .brace body] ++ generatedMark ";"

------------------------------------------------------------
-- The Marker
------------------------------------------------------------

namespace Item

/-
  Decide about a marked item, given the members of the type
  that are declared next to it.
-/
def outcome
    {α : Type}
    (item : Item)
    (siblings : String → List Member)
    (anchor : α) : Outcome α :=
  match item.declaration? with
  | some d => (d.withMembers (siblings d.name)).evaluateNamed anchor
  | none => .rejected (.new .ineligibleKind defaultMarker anchor)

/- The constructors for an item; only records are given any. -/
def fragmentTokens
    (fragments : List Fragment) : Item → Tokens
  | struct item => fragments.flatMap (·.tokensFor item)
  | _ => []

/- The error for a marker with arguments. -/
def argumentsMessage : String :=
  defaultMarker ++ " does not take arguments"

/- What follows an item with a marker on it. -/
def markerTokens
    (arguments : Tokens)
    (item : Item)
    (siblings : List Member) : Tokens :=
  if !arguments.isEmpty then
    errorTokens argumentsMessage
  else
    match item.outcome (fun _ => siblings) () with
    | .synthesized fragments => item.fragmentTokens fragments
    | .redundant d => warningTokens d.message
    | .rejected d => errorTokens d.message

/- An item followed by what its marker adds. -/
def expandMarker
    (arguments : Tokens)
    (item : Item)
    (siblings : List Member) : Tokens :=
  item.tokens ++ item.markerTokens arguments siblings

end Item

end Nullary
