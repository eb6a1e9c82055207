import Nullary.Grammar.Path

/-
  Types.

  Key definitions include:
    * `Grammar.parenthesisedType`
    * `Grammar.functionType`
    * `Grammar.pathType`
    * `Grammar.typeWith`
-/

namespace Nullary

namespace Grammar

open Nullary.Parser

------------------------------------------------------------
-- Parentheses
------------------------------------------------------------

/- Further bounds after a first one. -/
def moreBounds
    (g : Grammar) : Parser Tokens := do
  let parts ← many (·.atMark "+") do
    let plus ← mark "+"
    let (_, tokens) ← g.bound false false
    return plus ++ tokens
  return parts.flatten

/- What stands between the parentheses of a type. -/
inductive Enclosed where
  | unit
  | relaxed (tokens : Tokens)
  | tuple (tokens : Tokens)
  | single (type : Ty)

/- The content of a type in parentheses. -/
def enclosed
    (g : Grammar) : Parser Enclosed := do
  if ← sees (·.isEmpty) then
    return .unit
  if ← sees (·.atLifetime) then
    return .single (.other (← g.objectBounds true false true))
  if ← sees (·.atMark "?") then
    let (tokens, _) ← g.traitBound false
    return .relaxed tokens
  let first ← g.type true
  if ← sees (·.atMark ",") then
    let comma ← mark ","
    let rest ← commaList (Ty.tokens <$> g.type true)
    return .tuple (first.tokens ++ comma ++ rest)
  return .single first

/- A type that a parenthesised bound can be made of. -/
def isBoundLike : Ty → Bool
  | .path _ => true
  | .bounds single _ => single
  | _ => false

/- A type in parentheses: a tuple, a sum of bounds, or the type inside. -/
def parenthesisedType
    (g : Grammar)
    (allowPlus : Bool) : Parser Ty := do
  let (content, span) ← within .parenthesis g.enclosed
  match content with
  | .unit => return .other [.group .parenthesis [] span]
  | .relaxed tokens =>
      let more ← g.moreBounds
      return .bounds more.isEmpty (.group .parenthesis tokens span :: more)
  | .tuple tokens => return .other [.group .parenthesis tokens span]
  | .single type =>
      let inside : Tokens := [.group .parenthesis type.tokens span]
      if allowPlus && isBoundLike type && (← sees (·.atMark "+")) then
        return .bounds false (inside ++ (← g.moreBounds))
      return .paren type inside

------------------------------------------------------------
-- Function Types
------------------------------------------------------------

/- The calling convention of a function. -/
def abi : Parser Tokens := do
  let keyword ← word "extern"
  let name ← Parser.when (·.atString) literal
  return keyword ++ name

/- The calling convention if one comes next. -/
def abi? : Parser Tokens :=
  Parser.when (·.atWord "extern") abi

/- A name or a placeholder. -/
def atNameOrPlaceholder
    (trees : Tokens) : Bool :=
  trees.atName || trees.atWord "_"

/- The open end of a parameter list. -/
def atVariadic
    (trees : Tokens) : Bool :=
  trees.atMark "..." ||
    (atNameOrPlaceholder trees && trees.skip.atMark ":" && trees.skip.skip.atMark "...")

/- A receiver without a type, which is kept as written. -/
def bareSelf : Parser Tokens := do
  let mutability ← word "mut"
  let self ← word "self"
  return mutability ++ self

/- A parameter of a function type: an optional name and a type. -/
def functionTypeParameter
    (g : Grammar) : Parser Tokens := do
  if ← sees fun trees => trees.atWord "mut" && trees.skip.atWord "self" then
    if ← sees fun trees => trees.skip.skip.atColon then
      verbatim do
        let _ ← bareSelf
        let _ ← mark ":"
        g.type true
    else
      bareSelf
  else if ← sees fun trees => (atNameOrPlaceholder trees || trees.atWord "self") &&
      trees.skip.atColon then
    let name ← anyWord
    let colon ← mark ":"
    if ← sees fun trees => wordText name != "self" && trees.atWord "mut" &&
        trees.skip.atWord "self" then
      let self ← bareSelf
      return name :: colon ++ self
    let type ← g.type true
    return name :: colon ++ type.tokens
  else
    Ty.tokens <$> g.type true

/- The open end of the parameters of a function type. -/
def functionTypeVariadic : Parser Tokens := do
  let name ←
    if ← sees atNameOrPlaceholder then
      let name ← anyWord
      let colon ← mark ":"
      pure (name :: colon)
    else
      pure []
  let dots ← mark "..."
  let comma ← mark? ","
  return name ++ dots ++ comma

/- The parameters of a function type. -/
def functionTypeParameters
    (g : Grammar) : Parser Tokens :=
  iterate [] fun found => do
    if ← sees (·.isEmpty) then
      return (found, false)
    let attributes ← g.outerTokens
    if ← sees atVariadic then
      return (found ++ attributes ++ (← functionTypeVariadic), false)
    let more ← g.outerTokens
    let parameter ← g.functionTypeParameter
    let found := found ++ attributes ++ more ++ parameter
    if ← sees (·.isEmpty) then
      return (found, false)
    return (found ++ (← mark ","), true)

/- A function type. -/
def functionType
    (g : Grammar) : Parser Tokens := do
  let unsafety ← word? "unsafe"
  let convention ← abi?
  let keyword ← word "fn"
  let parameters ← group .parenthesis g.functionTypeParameters
  let (_, output) ← g.result false
  return unsafety ++ convention ++ keyword ++ parameters ++ output

------------------------------------------------------------
-- Types
------------------------------------------------------------

/- A path as a type: a macro call, a sum of bounds, or the path. -/
def pathType
    (g : Grammar)
    (quantifier : Tokens)
    (allowPlus : Bool) : Parser Ty := do
  let (qualified, path) ← g.qualifiedPath false
  if qualified then
    return .other path.tokens
  if path.isPlain && (← sees atMacroCall) then
    let (call, _) ← macroCall
    return .other (path.tokens ++ call)
  let plus ← sees (·.atMark "+")
  if !quantifier.isEmpty || (allowPlus && plus) then
    let more ←
      if allowPlus then
        iterate ([] : Tokens) fun found => do
          if ← sees (·.atMark "+") then
            let plus ← mark "+"
            if ← sees (atBound false) then
              let (_, tokens) ← g.bound false false
              return (found ++ plus ++ tokens, true)
            return (found ++ plus, false)
          return (found, false)
      else
        pure []
    return .bounds more.isEmpty (quantifier ++ path.tokens ++ more)
  return .path path

/- A pointer or a reference. -/
def indirection
    (g : Grammar) : Parser Tokens := do
  if ← sees (·.atMark "*") then
    let star ← mark "*"
    let access ← if ← sees (·.atWord "const") then word "const" else word "mut"
    let target ← g.type false
    return star ++ access ++ target.tokens
  let ampersand ← mark "&"
  let lifetime ← lifetime?
  let mutability ← word? "mut"
  let target ← g.type false
  return ampersand ++ lifetime ++ mutability ++ target.tokens

/- An array or a slice. -/
def sequenceType
    (g : Grammar) : Parser Tokens :=
  group .bracket do
    let element ← g.type true
    if ← sees (·.atMark ";") then
      let semicolon ← mark ";"
      let length ← g.expression true
      return element.tokens ++ semicolon ++ length.tokens
    return element.tokens

/- An object type; one with a star is kept as written. -/
def objectType
    (g : Grammar)
    (allowPlus : Bool) : Parser Tokens := do
  if ← sees fun trees => trees.skip.atMark "*" then
    verbatim do
      let _ ← word "dyn"
      let _ ← mark "*"
      g.objectBounds allowPlus false true
  else
    let keyword ← word "dyn"
    let bounds ← g.objectBounds allowPlus false true
    return keyword ++ bounds

/- A function type comes next. -/
def atFunctionType
    (trees : Tokens) : Bool :=
  trees.atWord "fn" || trees.atWord "unsafe" || trees.atWord "extern"

/- A type; `allowPlus` says whether bounds may be added to it. -/
def typeWith
    (g : Grammar)
    (allowPlus : Bool) : Parser Ty := do
  let quantifier ← g.quantifier?
  if !quantifier.isEmpty then
    require fun trees => trees.atName || atFunctionType trees || trees.atPathWord
  if ← sees (·.atGroup .parenthesis) then
    g.parenthesisedType allowPlus
  else if ← sees atFunctionType then
    return .other (quantifier ++ (← g.functionType))
  else if ← sees fun trees => trees.atName || trees.atPathWord || trees.atMark "::" ||
      trees.atMark "<" then
    g.pathType quantifier allowPlus
  else if ← sees (·.atWord "dyn") then
    return .other (← g.objectType allowPlus)
  else if ← sees (·.atGroup .bracket) then
    return .other (← g.sequenceType)
  else if ← sees fun trees => trees.atMark "*" || trees.atMark "&" then
    return .other (← g.indirection)
  else if ← sees (·.atMark "!") then
    return .other (← mark "!")
  else if ← sees (·.atWord "impl") then
    let keyword ← word "impl"
    return .other (keyword ++ (← g.objectBounds allowPlus true true))
  else if ← sees (·.atWord "_") then
    return .other (← word "_")
  else if ← sees (·.atLifetime) then
    return .other (← g.objectBounds true false true)
  else
    refuse

end Grammar

end Nullary
