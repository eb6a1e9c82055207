import Nullary.Grammar.Basic

/-
  Paths with arguments, the bounds that are built from them,
  and the constants that may stand as arguments.

  Key definitions include:
    * `Grammar.path`
    * `Grammar.qualifiedPath`
    * `Grammar.angleArguments`
    * `Grammar.constArgument`
    * `Grammar.bound`
    * `Grammar.bounds`
-/

namespace Nullary

namespace Grammar

open Nullary.Parser

------------------------------------------------------------
-- Lifetimes First
------------------------------------------------------------

/-
  Values with separators, those of the first kind put first.
  A comma is put between the two kinds if none stands there.
-/
def inOrder
    (values : List ((Bool × Tokens) × Tokens)) : Tokens :=
  let first := values.filter (·.1.1)
  let second := values.filter (!·.1.1)
  let print := fun (vs : List ((Bool × Tokens) × Tokens)) =>
    vs.flatMap fun ((_, value), comma) => value ++ comma
  let trailing := first.getLast?.all fun (_, comma) => !comma.isEmpty
  let between : Tokens :=
    if trailing || second.isEmpty then [] else [.mark ',' false .nowhere]
  print first ++ between ++ print second

------------------------------------------------------------
-- Bound Lifetimes
------------------------------------------------------------

/- The bounds of a lifetime parameter, its colon included. -/
def lifetimeBounds
    (stop : Tokens → Bool) : Parser Tokens := do
  let colon ← mark? ":"
  if colon.isEmpty then
    return []
  let bounds ← flatten <$> listWhile stop "+" lifetime
  return if bounds.isEmpty then [] else colon ++ bounds

/- A lifetime parameter with its attributes. -/
def lifetimeParameter
    (g : Grammar) : Parser Tokens := do
  let attributes ← g.outerTokens
  let name ← lifetime
  let bounds ← lifetimeBounds fun trees => trees.atMark "," || trees.atMark ">"
  return attributes ++ name ++ bounds

/- The lifetimes that a type or a bound is quantified over. -/
def quantifier
    (g : Grammar) : Parser Tokens := do
  let keyword ← word "for"
  let opening ← mark "<"
  let names ← flatten <$> listUntil (·.atMark ">") "," g.lifetimeParameter
  let closing ← mark ">"
  return keyword ++ opening ++ names ++ closing

/- The quantifier if one comes next. -/
def quantifier?
    (g : Grammar) : Parser Tokens :=
  Parser.when (·.atWord "for") g.quantifier

------------------------------------------------------------
-- Paths
------------------------------------------------------------

/- Arguments in angle brackets come next. -/
def atArguments
    (inExpression : Bool)
    (trees : Tokens) : Bool :=
  (!inExpression && trees.atMark "<" && !trees.atMark "<=" && !trees.atMark "<<=") ||
    (trees.atMark "::" && trees.skip.skip.atMark "<")

/- A segment of a path. -/
def segment
    (g : Grammar)
    (inExpression : Bool) : Parser (PathSegment × Tokens) := do
  if ← sees fun trees => trees.atWord "super" || trees.atWord "self" ||
      trees.atWord "crate" || trees.atWord "try" then
    let name ← anyWord
    return (⟨wordText name, .none⟩, [name])
  let name ← if ← sees (·.atWord "Self") then anyWord else name
  if ← sees (atArguments inExpression) then
    let arguments ← g.arguments
    return (⟨wordText name, .angle⟩, name :: arguments)
  return (⟨wordText name, .none⟩, [name])

/-
  The further segments of a path.  In a plain path the colons
  before parentheses are left to what follows.
-/
def moreSegments
    (g : Grammar)
    (inExpression : Bool)
    (more : Tokens → Bool) : Parser (List PathSegment × Tokens) := do
  let parts ← many more do
    let colons ← mark "::"
    let (segment, tokens) ← g.segment inExpression
    return (segment, colons ++ tokens)
  return (parts.map Prod.fst, parts.flatMap Prod.snd)

/- A path. -/
def path
    (g : Grammar)
    (inExpression : Bool) : Parser Path := do
  let leading ← mark? "::"
  let (first, tokens) ← g.segment inExpression
  let (rest, more) ← g.moreSegments inExpression fun trees =>
    trees.atMark "::" && !trees.skip.skip.atGroup .parenthesis
  return ⟨!leading.isEmpty, first :: rest, leading ++ tokens ++ more⟩

/- A path that may start with a type in angle brackets. -/
def qualifiedPath
    (g : Grammar)
    (inExpression : Bool) : Parser (Bool × Path) := do
  if ← sees (·.atMark "<") then
    let opening ← mark "<"
    let self ← g.type true
    let cast ←
      if ← sees (·.atWord "as") then
        let keyword ← word "as"
        let target ← g.path false
        pure (keyword ++ target.tokens)
      else
        pure []
    let closing ← mark ">"
    let colons ← mark "::"
    let (first, tokens) ← g.segment inExpression
    let (rest, more) ← g.moreSegments inExpression (·.atMark "::")
    let all := opening ++ self.tokens ++ cast ++ closing ++ colons ++ tokens ++ more
    return (true, ⟨false, first :: rest, all⟩)
  return (false, ← g.path inExpression)

------------------------------------------------------------
-- Bounds
------------------------------------------------------------

/- The result of a function type, without added bounds. -/
def result
    (g : Grammar)
    (allowPlus : Bool) : Parser (Option Ty × Tokens) := do
  if ← sees (·.atMark "->") then
    let arrow ← mark "->"
    let type ← g.type allowPlus
    return (some type, arrow ++ type.tokens)
  return (none, [])

/- Arguments in parentheses with a result. -/
def parenthesisedArguments
    (g : Grammar) : Parser Tokens := do
  let inputs ← group .parenthesis (commaList (Ty.tokens <$> g.type true))
  let (_, output) ← g.result false
  return inputs ++ output

/- What a bound asks for. -/
inductive BoundSort where
  | trait
  | lifetime
  | capture
deriving DecidableEq, Repr

/- The parameters that a type captures. -/
def capture : Parser Tokens := do
  let keyword ← word "use"
  let opening ← mark "<"
  let names ← listUntil (·.atMark ">") "," do
    if ← sees (·.atLifetime) then
      return (true, ← lifetime)
    if ← sees (·.atWord "Self") then
      return (false, [← anyWord])
    return (false, [← name])
  let closing ← mark ">"
  return keyword ++ opening ++ inOrder names ++ closing

/-
  A trait as a bound, and whether it is marked constant, in
  which case it is printed as it was written.
-/
def traitBound
    (g : Grammar)
    (allowConst : Bool) : Parser (Tokens × Bool) := do
  let outer ← g.quantifier?
  let conditional ← sees (·.atGroup .bracket)
  let unconditional ← sees (·.atWord "const")
  if (conditional || unconditional) && !allowConst then
    refuse
  let constness ←
    if conditional then
      group .bracket (word "const")
    else
      word? "const"
  let relaxed ← mark? "?"
  let inner ← if outer.isEmpty && !relaxed.isEmpty then g.quantifier? else pure []
  let path ← g.path false
  let bare := path.segments.getLast?.all (·.arguments == .none)
  let arguments ←
    if bare && (← sees fun trees => trees.atGroup .parenthesis ||
        (trees.atMark "::" && trees.skip.skip.atGroup .parenthesis)) then do
      let _ ← mark? "::"
      g.parenthesisedArguments
    else
      pure []
  if !relaxed.isEmpty && !(outer.isEmpty && inner.isEmpty) then
    refuse
  return (outer ++ constness ++ relaxed ++ inner ++ path.tokens ++ arguments,
    conditional || unconditional)

/- A trait bound, perhaps in parentheses. -/
def enclosedTraitBound
    (g : Grammar)
    (allowConst : Bool) : Parser (Tokens × Bool) := do
  if ← sees (·.atGroup .parenthesis) then
    let ((tokens, constant), span) ← within .parenthesis (g.traitBound allowConst)
    return ([.group .parenthesis tokens span], constant)
  g.traitBound allowConst

/- A bound. -/
def bound
    (g : Grammar)
    (allowCapture allowConst : Bool) : Parser (BoundSort × Tokens) := do
  if ← sees (·.atLifetime) then
    return (.lifetime, ← lifetime)
  if ← sees (·.atWord "use") then
    let tokens ← capture
    if allowCapture then
      return (.capture, tokens)
    refuse
  let ((tokens, constant), asWritten) ← written (g.enclosedTraitBound allowConst)
  return (.trait, if constant then asWritten else tokens)

/- A bound comes next. -/
def atBound
    (allowConst : Bool)
    (trees : Tokens) : Bool :=
  trees.atAnyWord || trees.atMark "::" || trees.atMark "?" || trees.atLifetime ||
    trees.atGroup .parenthesis || (allowConst && trees.atGroup .bracket)

/- One or more bounds; without added bounds exactly one. -/
def bounds
    (g : Grammar)
    (allowPlus allowCapture allowConst : Bool) : Parser (List (BoundSort × Tokens)) := do
  let found ← iterate [] fun found => do
    let (sort, tokens) ← g.bound allowCapture allowConst
    if allowPlus && (← sees (·.atMark "+")) then
      let plus ← mark "+"
      return ((sort, tokens ++ plus) :: found, ← sees (atBound allowConst))
    else
      return ((sort, tokens) :: found, false)
  return found.reverse

/- Bounds of which one is a trait. -/
def objectBounds
    (g : Grammar)
    (allowPlus allowCapture allowConst : Bool) : Parser Tokens := do
  let found ← g.bounds allowPlus allowCapture allowConst
  if found.any (·.1 == .trait) then
    return found.flatMap Prod.snd
  refuse

/- Bounds up to a stop, as after the colon of a parameter. -/
def boundsUntil
    (g : Grammar)
    (stop : Tokens → Bool) : Parser Tokens :=
  flatten <$> listWhile stop "+" (Prod.snd <$> g.bound false true)

------------------------------------------------------------
-- Arguments
------------------------------------------------------------

/- A constant as an argument: a literal, a name, or a block. -/
def constArgument
    (g : Grammar) : Parser Tokens := do
  if ← sees (·.atLiteral) then
    return ← literal
  if ← sees (·.atName) then
    return [← anyWord]
  g.attributedBlock

/- A literal or a block comes next. -/
def atConstant
    (trees : Tokens) : Bool :=
  trees.atLiteral || trees.atGroup .brace

/- A type that is a single name, perhaps with arguments. -/
def isBindable : Ty → Bool
  | .path path =>
      !path.absolute && path.segments.length == 1 &&
        path.segments.all (·.arguments != .parenthesised)
  | _ => false

/- An argument in angle brackets, and whether it is a lifetime. -/
def argument
    (g : Grammar) : Parser (Bool × Tokens) := do
  if ← sees fun trees => trees.atLifetime && !trees.skip.atMark "+" then
    return (true, ← lifetime)
  if ← sees atConstant then
    return (false, ← g.constArgument)
  let type ← g.type true
  if isBindable type then
    if ← sees (·.atMark "=") then
      let equals ← mark "="
      let value ←
        if ← sees atConstant then
          g.constArgument
        else
          Ty.tokens <$> g.type true
      return (false, type.tokens ++ equals ++ value)
    if ← sees (·.atMark ":") then
      let colon ← mark ":"
      let bounds ← g.boundsUntil fun trees => trees.atMark "," || trees.atMark ">"
      return (false, type.tokens ++ colon ++ bounds)
  return (false, type.tokens)

/- The arguments of a path segment in angle brackets. -/
def angleArguments
    (g : Grammar) : Parser Tokens := do
  let colons ← mark? "::"
  let opening ← mark "<"
  let values ← listUntil (·.atMark ">") "," g.argument
  let closing ← mark ">"
  return colons ++ opening ++ inOrder values ++ closing

end Grammar

end Nullary
