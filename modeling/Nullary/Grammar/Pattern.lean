import Nullary.Grammar.Generics
import Nullary.Token.Literal

/-
  Patterns.

  Key definitions include:
    * `integerValue?`
    * `Grammar.member`
    * `Grammar.alternatives`
    * `Grammar.singlePattern`
-/

namespace Nullary

------------------------------------------------------------
-- Positions of Fields
------------------------------------------------------------

/- The value of digits in a base, underscores skipped. -/
def digitsValue?
    (base : Nat) : List Char → Nat → Option Nat
  | [], value => some value
  | '_' :: rest, value => digitsValue? base rest value
  | c :: rest, value =>
      match hexDigitValue c with
      | some d => if d < base then digitsValue? base rest (value * base + d) else none
      | none => none

/- The value of an integer literal without a suffix. -/
def integerValue?
    (text : List Char) : Option Nat :=
  match text with
  | '0' :: 'x' :: rest => digitsValue? 16 rest 0
  | '0' :: 'o' :: rest => digitsValue? 8 rest 0
  | '0' :: 'b' :: rest => digitsValue? 2 rest 0
  | c :: _ => if c.isDigit then digitsValue? 10 text 0 else none
  | [] => none

/- The position of a field: an integer of 32 bits. -/
def fieldPosition?
    (text : List Char) : Option Nat := do
  let value ← integerValue? text
  if value < Nat.pow 2 32 then return value else none

namespace Grammar

open Nullary.Parser

/- The position of a field, printed in decimal digits. -/
def fieldPosition : Parser TokenTree :=
  tree fun
    | .literal text span => do
        let position ← fieldPosition? text.toList
        return .literal (toString position) span
    | _ => none

/- A field by name or by position, and whether it is by name. -/
def member : Parser (Bool × TokenTree) := do
  if ← sees (·.atName) then
    return (true, ← anyWord)
  return (false, ← fieldPosition)

------------------------------------------------------------
-- Alternatives
------------------------------------------------------------

/- A bar that separates alternatives. -/
def atBar
    (trees : Tokens) : Bool :=
  trees.atMark "|" && !trees.atMark "||" && !trees.atMark "|="

/- One or more patterns separated by bars, perhaps after a bar. -/
def alternatives
    (g : Grammar) : Parser Pattern := do
  let leading ← mark? "|"
  let first ← g.pattern
  let rest ← many atBar do
    let bar ← mark "|"
    let pattern ← g.pattern
    return bar ++ pattern.tokens
  if leading.isEmpty && rest.isEmpty then
    return first
  return ⟨false, leading ++ first.tokens ++ rest.flatten⟩

------------------------------------------------------------
-- Ranges
------------------------------------------------------------

/- The end of a range: absent, or a literal, a path or a constant block. -/
def rangeBound
    (g : Grammar) : Parser Tokens := do
  if ← sees fun trees => trees.isEmpty || trees.atMark "|" || trees.atMark "=" ||
      trees.atColon || trees.atMark "," || trees.atMark ";" || trees.atWord "if" then
    return []
  if ← sees (·.atLiteral) then
    return ← literal
  if ← sees fun trees => trees.atName || trees.atMark "::" || trees.atMark "<" ||
      trees.atPathWord then
    let (_, path) ← g.qualifiedPath true
    return path.tokens
  let keyword ← word "const"
  return keyword ++ (← g.attributedBlock)

/- The dots of a range in a pattern: three dots mean a closed range. -/
def rangeDots : Parser (Bool × Tokens) := do
  if ← sees (·.atMark "..=") then
    return (true, ← mark "..=")
  if ← sees (·.atMark "...") then
    let dots ← mark "..."
    match dots with
    | [.mark _ _ first, .mark _ _ second, .mark _ _ third] =>
        return (true, [.mark '.' true first, .mark '.' true second, .mark '=' false third])
    | _ => refuse
  return (false, ← mark "..")

/- A range from a start. -/
def rangeFrom
    (g : Grammar)
    (start : Tokens) : Parser Pattern := do
  let (closed, dots) ← rangeDots
  let stop ← g.rangeBound
  if closed && stop.isEmpty then
    refuse
  return ⟨stop.isEmpty, start ++ dots ++ stop⟩

/- A range without a start, or the rest of a sequence. -/
def rangeTo
    (g : Grammar) : Parser Pattern := do
  let (closed, dots) ←
    if ← sees (·.atMark "..=") then
      pure (true, ← mark "..=")
    else
      pure (false, ← mark "..")
  let stop ← g.rangeBound
  if closed && stop.isEmpty then
    refuse
  return ⟨!stop.isEmpty, dots ++ stop⟩

------------------------------------------------------------
-- Records
------------------------------------------------------------

/- A field of a record pattern. -/
def fieldPattern
    (g : Grammar) : Parser Tokens := do
  let boxed ← word? "box"
  let byReference ← word? "ref"
  let mutability ← word? "mut"
  let binding := boxed ++ byReference ++ mutability
  let (named, field) ← if binding.isEmpty then member else do pure (true, ← name)
  if (binding.isEmpty && (← sees (·.atMark ":"))) || !named then
    let colon ← mark ":"
    let pattern ← g.alternatives
    return field :: colon ++ pattern.tokens
  return binding ++ [field]

/- The fields of a record pattern, perhaps with a rest. -/
def fieldPatterns
    (g : Grammar) : Parser Tokens :=
  iterate [] fun found => do
    if ← sees (·.isEmpty) then
      return (found, false)
    let attributes ← g.outerTokens
    if ← sees (·.atMark "..") then
      return (found ++ attributes ++ (← mark ".."), false)
    let field ← g.fieldPattern
    let found := found ++ attributes ++ field
    if ← sees (·.isEmpty) then
      return (found, false)
    return (found ++ (← mark ","), true)

/- Patterns separated by commas. -/
def patternList
    (g : Grammar) : Parser Tokens :=
  commaList (Pattern.tokens <$> g.alternatives)

/- The elements of a sequence pattern; an open range is none. -/
def sequencePattern
    (g : Grammar) : Parser Tokens :=
  group .bracket <| commaList do
    let pattern ← g.alternatives
    if pattern.openRange then
      refuse
    return pattern.tokens

/- A pattern that starts with a path. -/
def pathPattern
    (g : Grammar) : Parser Pattern := do
  let (qualified, path) ← g.qualifiedPath true
  if !qualified && path.isPlain && (← sees atMacroCall) then
    let (call, _) ← macroCall
    return ⟨false, path.tokens ++ call⟩
  if ← sees (·.atGroup .brace) then
    let fields ← group .brace g.fieldPatterns
    return ⟨false, path.tokens ++ fields⟩
  if ← sees (·.atGroup .parenthesis) then
    let elements ← group .parenthesis g.patternList
    return ⟨false, path.tokens ++ elements⟩
  if ← sees (·.atMark "..") then
    return ← g.rangeFrom path.tokens
  return ⟨false, path.tokens⟩

------------------------------------------------------------
-- Patterns
------------------------------------------------------------

/- A binding, perhaps of what another pattern matches. -/
def binding
    (g : Grammar) : Parser Tokens := do
  let byReference ← word? "ref"
  let mutability ← word? "mut"
  let name ← if ← sees (·.atWord "self") then anyWord else name
  let inner ←
    if ← sees (·.atMark "@") then
      let at_ ← mark "@"
      let pattern ← g.pattern
      pure (at_ ++ pattern.tokens)
    else
      pure []
  return byReference ++ mutability ++ [name] ++ inner

/- A pattern that starts with a path comes next. -/
def atPathPattern
    (trees : Tokens) : Bool :=
  let second := trees.skip
  (trees.atName && (second.atMark "::" || second.atMark "!" || second.atGroup .brace ||
      second.atGroup .parenthesis || second.atMark "..")) ||
    (trees.atWord "self" && second.atMark "::") ||
    trees.atMark "::" || trees.atMark "<" || trees.atWord "Self" || trees.atWord "super" ||
    trees.atWord "crate"

/- A pattern without alternatives. -/
def singlePattern
    (g : Grammar) : Parser Pattern := do
  if ← sees atPathPattern then
    g.pathPattern
  else if ← sees (·.atWord "_") then
    return ⟨false, ← word "_"⟩
  else if ← sees (·.atWord "box") then
    return ⟨false, ← verbatim do
      let _ ← word "box"
      g.pattern⟩
  else if ← sees fun trees => trees.atMark "-" || trees.atLiteral || trees.atWord "const" then
    let start ← g.rangeBound
    if ← sees (·.atMark "..") then
      g.rangeFrom start
    else
      return ⟨false, start⟩
  else if ← sees fun trees => trees.atWord "ref" || trees.atWord "mut" ||
      trees.atWord "self" || trees.atName then
    return ⟨false, ← g.binding⟩
  else if ← sees (·.atMark "&") then
    let ampersand ← mark "&"
    let mutability ← word? "mut"
    let pattern ← g.pattern
    return ⟨false, ampersand ++ mutability ++ pattern.tokens⟩
  else if ← sees (·.atGroup .parenthesis) then
    return ⟨false, ← group .parenthesis g.patternList⟩
  else if ← sees (·.atGroup .bracket) then
    return ⟨false, ← g.sequencePattern⟩
  else if ← sees fun trees => trees.atMark ".." && !trees.atMark "..." then
    g.rangeTo
  else
    refuse

end Grammar

end Nullary
