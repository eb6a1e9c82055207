import Nullary.Declaration.Basic
import Nullary.Item.Basic

/-
  The generated constructor as tokens: an implementation of
  the record with one function, whose body gives every field
  its default value.

  Key definitions include:
    * `Fields.defaultTokens`
    * `StructItem.headerTokens`
    * `Fragment.tokensFor`
-/

namespace Nullary

------------------------------------------------------------
-- Building Tokens
------------------------------------------------------------

namespace Tokens

/- A generated word. -/
def generatedWord
    (text : String) : TokenTree :=
  .word text .nowhere

/- A generated operator: joint save for its last character. -/
def generatedMarks : List Char → Tokens
  | [] => []
  | [c] => [.mark c false .nowhere]
  | c :: rest => .mark c true .nowhere :: generatedMarks rest

/- A generated operator. -/
def generatedMark
    (operator : String) : Tokens :=
  generatedMarks operator.toList

/- A generated group. -/
def generatedGroup
    (delimiter : Delimiter)
    (trees : Tokens) : TokenTree :=
  .group delimiter trees .nowhere

/- Sequences with a comma between them. -/
def commaSeparated : List Tokens → Tokens
  | [] => []
  | [trees] => trees
  | trees :: rest => trees ++ generatedMark "," ++ commaSeparated rest

end Tokens

open Nullary.Tokens

------------------------------------------------------------
-- The Body
------------------------------------------------------------

/- The default value of a field. -/
def defaultValueTokens : Tokens :=
  generatedMark "::" ++ [generatedWord "core"] ++ generatedMark "::" ++
    [generatedWord "default"] ++ generatedMark "::" ++ [generatedWord "Default"] ++
    generatedMark "::" ++ [generatedWord "default", generatedGroup .parenthesis []]

/- A named field with its default value. -/
def defaultFieldTokens
    (name : String) : Tokens :=
  generatedWord name :: generatedMark ":" ++ defaultValueTokens

namespace Fields

/- The record with every field at its default value. -/
def defaultTokens : Fields → Tokens
  | named names =>
      [generatedWord "Self",
        generatedGroup .brace (commaSeparated (names.map defaultFieldTokens))]
  | positional count =>
      [generatedWord "Self",
        generatedGroup .parenthesis (commaSeparated (List.replicate count defaultValueTokens))]
  | unit => [generatedWord "Self"]

end Fields

------------------------------------------------------------
-- The Implementation
------------------------------------------------------------

namespace StructItem

/- What stands before the braces of an implementation of the record. -/
def headerTokens
    (item : StructItem) : Tokens :=
  generatedWord "impl" :: item.generics.implementation ++ item.nameToken ::
    item.generics.arguments ++ item.generics.clauseTokens

end StructItem

namespace Fragment

/- The word for the visibility of a fragment. -/
def visibilityTokens
    (f : Fragment) : Tokens :=
  if f.isPublic then [generatedWord "pub"] else []

/- The generated function. -/
def functionTokens
    (f : Fragment)
    (fields : Fields) : Tokens :=
  f.visibilityTokens ++
    [generatedWord "fn", generatedWord Member.constructorName, generatedGroup .parenthesis []] ++
    generatedMark "->" ++ [generatedWord "Self", generatedGroup .brace fields.defaultTokens]

/- The implementation of a record that holds the generated function. -/
def tokensFor
    (f : Fragment)
    (item : StructItem) : Tokens :=
  item.headerTokens ++ [generatedGroup .brace (f.functionTokens item.fields)]

end Fragment

end Nullary
