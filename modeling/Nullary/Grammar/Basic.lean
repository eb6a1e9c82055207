import Nullary.Grammar.Parser
import Nullary.Item.Basic

/-
  The recursive parts of the grammar, and the attributes that
  may stand almost anywhere in it.

  The constructs of the grammar contain each other: a type
  holds expressions, an expression holds items, an item holds
  types.  Each construct is therefore parsed by a function of
  a `Grammar`, which gives the parsers of the constructs
  inside it.

  Key definitions include:
    * `Grammar`
    * `Grammar.attribute`
    * `Grammar.outerAttributes`
    * `Grammar.innerAttributes`
-/

namespace Nullary

------------------------------------------------------------
-- The Recursive Constructs
------------------------------------------------------------

/-
  Parsers of the constructs that contain each other.
  `type` is told whether bounds may be added to a type, and
  `unary`, `operand` and `expression` whether a path may be
  followed by the braces of a record.  `leading` is an
  expression that ends with its first block.
-/
structure Grammar where
  type : Bool → Parser Ty
  arguments : Parser Tokens
  unary : Bool → Parser Expression
  operand : Bool → Nat → Parser Expression
  expression : Bool → Parser Expression
  leading : Parser Expression
  pattern : Parser Pattern
  statements : Parser Tokens
  fields : Parser (List String × Tokens)
  item : Parser Item
  useTree : Bool → Parser (Option Tokens)

namespace Grammar

/- The grammar in which nothing can be parsed. -/
def void : Grammar where
  type _ := Parser.refuse
  arguments := Parser.refuse
  unary _ := Parser.refuse
  operand _ _ := Parser.refuse
  expression _ := Parser.refuse
  leading := Parser.refuse
  pattern := Parser.refuse
  statements := Parser.refuse
  fields := Parser.refuse
  item := Parser.refuse
  useTree _ := Parser.refuse

open Nullary.Parser

------------------------------------------------------------
-- Plain Paths
------------------------------------------------------------

/- A segment of a path without arguments. -/
def plainSegment : Parser TokenTree := do
  require fun trees => trees.atName || trees.atPathWord
  anyWord

/-
  A path without arguments, as in attributes, macro calls and
  visibilities: its segments and its tokens.
-/
def plainPath : Parser (Bool × List TokenTree × Tokens) := do
  let leading ← mark? "::"
  let first ← plainSegment
  let rest ← many (·.atMark "::") do
    let colons ← mark "::"
    let segment ← plainSegment
    return (colons, segment)
  let segments := first :: rest.map Prod.snd
  let tokens := leading ++ first :: rest.flatMap fun (colons, segment) => colons ++ [segment]
  return (!leading.isEmpty, segments, tokens)

/- The text of a word. -/
def wordText : TokenTree → String
  | .word text _ => text
  | _ => ""

------------------------------------------------------------
-- Attributes
------------------------------------------------------------

/- What follows the path of an attribute: arguments, a value, or nothing. -/
def attributeTail
    (g : Grammar) : Parser Tokens := do
  if ← sees fun trees => trees.atGroup .parenthesis || trees.atGroup .bracket ||
      trees.atGroup .brace then
    return [← anyGroup]
  if ← sees (·.atMark "=") then
    let equals ← mark "="
    match ← attempt literal.toEnd with
    | some value => return equals ++ value
    | none =>
        if ← sees fun trees => trees.atMark "#" && trees.skip.atGroup .bracket then
          refuse
        let value ← g.expression true
        return equals ++ value.tokens
  return []

/- The content of an attribute's brackets: its path and its tokens. -/
def attributeBody
    (g : Grammar) : Parser (List String × Tokens) := do
  if ← sees (·.atWord "unsafe") then
    let path ← word "unsafe"
    return (["unsafe"], path ++ (← g.attributeTail))
  let (_, segments, path) ← plainPath
  return (segments.map wordText, path ++ (← g.attributeTail))

/- An attribute of what follows it. -/
def outerAttribute
    (g : Grammar) : Parser Attribute := do
  let hash ← mark "#"
  let ((path, body), span) ← within .bracket g.attributeBody
  return ⟨false, path, hash ++ [.group .bracket body span]⟩

/- An attribute of what encloses it. -/
def innerAttribute
    (g : Grammar) : Parser Attribute := do
  let hash ← mark "#"
  let bang ← mark "!"
  let ((path, body), span) ← within .bracket g.attributeBody
  return ⟨true, path, hash ++ bang ++ [.group .bracket body span]⟩

/- The attributes before a construct. -/
def outerAttributes
    (g : Grammar) : Parser (List Attribute) :=
  many (·.atMark "#") g.outerAttribute

/- The attributes at the start of a body. -/
def innerAttributes
    (g : Grammar) : Parser (List Attribute) :=
  many (fun trees => trees.atMark "#" && trees.skip.atMark "!") g.innerAttribute

/- The tokens of the attributes before a construct. -/
def outerTokens
    (g : Grammar) : Parser Tokens := do
  return Attribute.outerTokens (← g.outerAttributes)

/- The tokens of the attributes at the start of a body. -/
def innerTokens
    (g : Grammar) : Parser Tokens := do
  return Attribute.innerTokens (← g.innerAttributes)

------------------------------------------------------------
-- Blocks and Macro Calls
------------------------------------------------------------

/- A block of statements. -/
def block
    (g : Grammar) : Parser Tokens :=
  group .brace g.statements

/- A block that may start with attributes. -/
def attributedBlock
    (g : Grammar) : Parser Tokens :=
  group .brace do
    let attributes ← g.innerTokens
    return attributes ++ (← g.statements)

/- The exclamation mark and the group of a macro call, not parsed. -/
def macroCall : Parser (Tokens × Bool) := do
  let bang ← mark "!"
  let body ← anyGroup
  return (bang ++ [body], Tokens.atGroup .brace [body])

/- A macro call comes next; `!=` is not one. -/
def atMacroCall
    (trees : Tokens) : Bool :=
  trees.atMark "!" && !trees.atMark "!="

end Grammar

end Nullary
