import Nullary.Grammar.Statement

/-
  Signatures of functions, and the fields of records.

  Key definitions include:
    * `Grammar.atSignature`
    * `Grammar.signature`
    * `Grammar.namedFields`
    * `Grammar.positionalFields`
-/

namespace Nullary

namespace Grammar

open Nullary.Parser

------------------------------------------------------------
-- Keeping What Was Written
------------------------------------------------------------

/-
  Run a parser that may leave a construct unparsed; such a
  construct is the trees it was written with.
-/
def orAsWritten
    {α : Type}
    (p : Parser (Option α))
    (asWritten : Tokens → α) : Parser α := do
  let (found, taken) ← written p
  match found with
  | some value => return value
  | none => return asWritten taken

------------------------------------------------------------
-- Signatures
------------------------------------------------------------

/- Trees after a word, if they start with it. -/
def after
    (text : String)
    (trees : Tokens) : Tokens :=
  if trees.atWord text then trees.skip else trees

/- Trees after a calling convention, if they start with one. -/
def afterAbi
    (trees : Tokens) : Tokens :=
  if trees.atWord "extern" then
    if trees.skip.atString then trees.skip.skip else trees.skip
  else
    trees

/- A function signature comes next; `allowSafe` admits the word `safe` in it. -/
def atSignature
    (allowSafe : Bool)
    (trees : Tokens) : Bool :=
  let trees := after "async" (after "const" trees)
  let trees :=
    if allowSafe && trees.atWord "safe" then trees.skip else after "unsafe" trees
  (afterAbi trees).atWord "fn"

/- The receiver of a method. -/
def receiver
    (g : Grammar) : Parser Tokens := do
  let reference ←
    if ← sees (·.atMark "&") then
      let ampersand ← mark "&"
      pure (ampersand ++ (← lifetime?))
    else
      pure []
  let mutability ← word? "mut"
  let self ← word "self"
  let type ←
    if reference.isEmpty && (← sees (·.atMark ":")) then
      let colon ← mark ":"
      let type ← g.type true
      pure (colon ++ type.tokens)
    else
      pure []
  return reference ++ mutability ++ self ++ type

/- A parameter of a function, or the open end of the list. -/
inductive ParameterForm where
  | argument (argument : Argument) (tokens : Tokens)
  | variadic (tokens : Tokens)

/-
  A parameter of a function after its attributes.  A type
  with arguments may stand without a pattern.
-/
def parameter
    (g : Grammar) : Parser ParameterForm := do
  match ← attempt g.receiver with
  | some tokens => return .argument .receiver tokens
  | none =>
      if ← sees fun trees => trees.atName && trees.skip.atMark "<" then
        let span ← look fun trees => Tokens.span (trees.take 1)
        let type ← g.type true
        let pattern : Tokens := [.word "_" span]
        return .argument (.typed pattern type)
          (pattern ++ [.mark ':' false span] ++ type.tokens)
      let pattern ← g.pattern
      let colon ← mark ":"
      if ← sees (·.atMark "...") then
        return .variadic (pattern.tokens ++ colon ++ (← mark "..."))
      let type ← g.type true
      return .argument (.typed pattern.tokens type) (pattern.tokens ++ colon ++ type.tokens)

/- The comma after the open end of a parameter list. -/
def closingComma : Parser Tokens := do
  if ← sees (·.isEmpty) then return [] else mark ","

/- The parameters of a function; only the first one can be a receiver. -/
def parameters
    (g : Grammar) : Parser (List Argument × Tokens) :=
  iterate (([], []) : List Argument × Tokens) fun (found, tokens) => do
    if ← sees (·.isEmpty) then
      return ((found, tokens), false)
    let attributes ← g.outerTokens
    let tokens := tokens ++ attributes
    if ← sees (·.atMark "...") then
      let dots ← mark "..."
      return ((found, tokens ++ dots ++ (← closingComma)), false)
    match ← g.parameter with
    | .variadic more => return ((found, tokens ++ more ++ (← closingComma)), false)
    | .argument argument more =>
        match argument with
        | .receiver => if !found.isEmpty then refuse
        | .typed _ _ => pure ()
        let found := found ++ [argument]
        let tokens := tokens ++ more
        if ← sees (·.isEmpty) then
          return ((found, tokens), false)
        return ((found, tokens ++ (← mark ",")), true)

/- The signature of a function. -/
def signature
    (g : Grammar)
    (allowSafe : Bool) : Parser Signature := do
  let constness ← word? "const"
  let asyncness ← word? "async"
  let unsafety ← word? "unsafe"
  let safety ← if allowSafe && unsafety.isEmpty then word? "safe" else pure []
  let convention ← abi?
  let keyword ← word "fn"
  let name ← name
  let generics ← g.generics
  let ((arguments, inputs), span) ← within .parenthesis g.parameters
  let (result, output) ← g.result true
  let clause ← g.clause?
  let clauseTokens := (clause.map (·.tokens)).getD []
  return {
    name := wordText name
    arguments := arguments
    result := result
    tokens := constness ++ asyncness ++ unsafety ++ safety ++ convention ++ keyword ++
      name :: generics.tokens ++ .group .parenthesis inputs span :: output ++ clauseTokens }

------------------------------------------------------------
-- Fields
------------------------------------------------------------

/- A record type without a name, kept as written. -/
def namelessRecord
    (g : Grammar) : Parser Tokens :=
  verbatim do
    let _ ← anyWord
    g.fields

/- A nameless record comes next. -/
def atNamelessRecord
    (trees : Tokens) : Bool :=
  trees.atWord "struct" || (trees.atWord "union" && trees.skip.atGroup .brace)

/- A field with a name. -/
def namedField
    (g : Grammar) : Parser (String × Tokens) := do
  let attributes ← g.outerTokens
  let visibility ← visibility
  let placeholder ← sees (·.atWord "_")
  let name ← if placeholder then anyWord else name
  let colon ← mark ":"
  let type ←
    if placeholder && (← sees atNamelessRecord) then
      g.namelessRecord
    else
      Ty.tokens <$> g.type true
  return (wordText name, attributes ++ visibility.tokens ++ name :: colon ++ type)

/- The fields of a record in braces: their names and their tokens. -/
def namedFields
    (g : Grammar) : Parser (List String × Tokens) := do
  let (fields, span) ← within .brace (listUntil (·.isEmpty) "," g.namedField)
  let names := fields.map fun ((name, _), _) => name
  let tokens := fields.flatMap fun ((_, tokens), comma) => tokens ++ comma
  return (names, [.group .brace tokens span])

/- A field without a name. -/
def positionalField
    (g : Grammar) : Parser Tokens := do
  let attributes ← g.outerTokens
  let visibility ← visibility
  let type ← g.type true
  return attributes ++ visibility.tokens ++ type.tokens

/- The fields of a record in parentheses: their number and their tokens. -/
def positionalFields
    (g : Grammar) : Parser (Nat × Tokens) := do
  let (fields, span) ← within .parenthesis
    (listUntil (·.isEmpty) "," g.positionalField)
  return (fields.length, [.group .parenthesis (flatten fields) span])

end Grammar

end Nullary
