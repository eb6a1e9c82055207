import Nullary.Declaration.Basic
import Nullary.Item.Basic
import Nullary.Source.Text
import Nullary.Text.Blank

/-
  The generated constructor as text.

  The parameters and the `where` clause of the record are cut
  out of the text that declares it; defaults of parameters
  are left out, and blanks in the clause are reduced to
  single spaces.

  Key definitions include:
    * `GenericParameter.source`
    * `WhereClause.source`
    * `StructItem.headerText`
    * `Fields.defaultText`
    * `Fragment.textFor`
-/

namespace Nullary

------------------------------------------------------------
-- The Header
------------------------------------------------------------

namespace Text

/- Texts with a separator between them. -/
def joinWith
    (separator : List Char)
    (texts : List (List Char)) : List Char :=
  separator.intercalate texts

/- A text without the given character at its end. -/
def trimEndChar
    (c : Char)
    (text : List Char) : List Char :=
  (text.reverse.dropWhile (· == c)).reverse

end Text

namespace GenericParameter

/- A parameter as it is written, up to its default. -/
def source
    (p : GenericParameter)
    (text : List Char) : List Char :=
  let span := Tokens.span p.tokens
  match p.default with
  | [] => SourceText.slice text span
  | equals :: _ => Text.trimEnd (SourceText.between text span.start equals.span.start)

/- The name of a parameter. -/
def nameText
    (p : GenericParameter) : List Char :=
  TokenTree.printAll p.name

end GenericParameter

namespace WhereClause

/- A clause as it is written, on one line and without a final comma. -/
def source
    (clause : WhereClause)
    (text : List Char) : List Char :=
  let words := Text.words (SourceText.slice text (Tokens.span clause.tokens))
  Text.trimEndChar ',' (Text.joinWith [' '] words)

end WhereClause

namespace Generics

/- Texts of the parameters in angle brackets. -/
def angled
    (g : Generics)
    (text : GenericParameter → List Char) : List Char :=
  if g.parameters.isEmpty then
    []
  else
    '<' :: Text.joinWith ", ".toList (g.parameters.map text) ++ ['>']

/- The `where` clause after a space. -/
def clauseSource
    (g : Generics)
    (text : List Char) : List Char :=
  match g.clause with
  | none => []
  | some clause => ' ' :: clause.source text

end Generics

namespace StructItem

/- What stands before the braces of an implementation of the record. -/
def headerText
    (item : StructItem)
    (text : List Char) : List Char :=
  "impl".toList ++ item.generics.angled (·.source text) ++ ' ' :: item.name.toList ++
    item.generics.angled (·.nameText) ++ item.generics.clauseSource text

end StructItem

------------------------------------------------------------
-- The Body
------------------------------------------------------------

/- The default value of a field. -/
def defaultValueText : List Char :=
  "Default::default()".toList

/- A line that gives a named field its default value. -/
def defaultFieldText
    (indent : List Char)
    (name : String) : List Char :=
  indent ++ "    ".toList ++ name.toList ++ ": ".toList ++ defaultValueText ++ ",\n".toList

namespace Fields

/- The record with every field at its default value. -/
def defaultText
    (indent : List Char) : Fields → List Char
  | named [] => indent ++ "Self \x7b\x7d".toList
  | named names =>
      indent ++ "Self \x7b\n".toList ++ names.flatMap (defaultFieldText indent) ++
        indent ++ ['\x7d']
  | positional count =>
      indent ++ "Self(".toList ++
        Text.joinWith ", ".toList (List.replicate count defaultValueText) ++ [')']
  | unit => indent ++ "Self".toList

end Fields

------------------------------------------------------------
-- The Implementation
------------------------------------------------------------

namespace Fragment

/- The word for the visibility of a fragment and a space. -/
def visibilityText
    (f : Fragment) : List Char :=
  if f.isPublic then "pub ".toList else []

/-
  The implementation of a record that holds the generated
  function, indented like the record and with an empty line
  before it.
-/
def textFor
    (f : Fragment)
    (item : StructItem)
    (text : List Char) : List Char :=
  let indent := SourceText.indent text (Tokens.span item.tokens).start.line
  "\n\n".toList ++ indent ++ item.headerText text ++ " \x7b\n".toList ++
    indent ++ "    ".toList ++ f.visibilityText ++ "fn ".toList ++
    Member.constructorName.toList ++ "() -> Self \x7b\n".toList ++
    item.fields.defaultText (indent ++ "        ".toList) ++ ['\n'] ++
    indent ++ "    \x7d\n".toList ++ indent ++ ['\x7d']

end Fragment

end Nullary
