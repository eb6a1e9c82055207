import Nullary.Grammar.Item
import Nullary.Token.Lexer

/-
  The grammar with all of its constructs, and the reading of
  files, items, types and visibilities from text.

  The constructs contain each other to any depth, but every
  construct inside another one takes fewer trees, or stands a
  bounded number of steps below one that does.  The number of
  trees therefore bounds how deep the grammar is unfolded.

  Key definitions include:
    * `Grammar.level`
    * `Grammar.forTokens`
    * `SourceFile.parse?`
    * `Item.parse?`
    * `StructItem.parse?`
    * `Ty.parse?`
    * `Visibility.parse?`
-/

namespace Nullary

------------------------------------------------------------
-- The Grammar
------------------------------------------------------------

namespace Grammar

/- The grammar unfolded to a given depth. -/
def level : Nat → Grammar
  | 0 => void
  | depth + 1 =>
      { type := fun allowPlus => .delayed fun _ => (level depth).typeWith allowPlus
        arguments := .delayed fun _ => (level depth).angleArguments
        unary := fun allowStruct => .delayed fun _ => (level depth).unaryWith allowStruct
        operand := fun allowStruct base =>
          .delayed fun _ => (level depth).operandWith allowStruct base
        expression := fun allowStruct =>
          .delayed fun _ => (level depth).expressionWith allowStruct
        leading := .delayed fun _ => (level depth).leadingExpression
        pattern := .delayed fun _ => (level depth).singlePattern
        statements := .delayed fun _ => (level depth).statementList
        fields := .delayed fun _ => (level depth).namedFields
        item := .delayed fun _ => (level depth).itemWith
        useTree := fun allowRoot => .delayed fun _ => (level depth).useTreeWith allowRoot }

/- The grammar unfolded deep enough for the given trees. -/
def forTokens
    (trees : Tokens) : Grammar :=
  level (8 * trees.size + 8)

/- The items of a file after the attributes of the file itself. -/
def sourceFile
    (g : Grammar) : Parser SourceFile := do
  let _ ← g.innerAttributes
  let items ← Parser.manyToEnd g.item
  return ⟨items⟩

end Grammar

------------------------------------------------------------
-- Reading
------------------------------------------------------------

namespace Tokens

/- Parse all of the trees with the grammar that is deep enough for them. -/
def parse?
    {α : Type}
    (trees : Tokens)
    (p : Grammar → Parser α) : Option α :=
  Parser.whole (p (.forTokens trees)) trees

end Tokens

/- Drop a leading byte order mark. -/
def dropByteOrderMark
    (text : List Char) : List Char :=
  if text.head? = some byteOrderMark then text.tail else text

namespace Gap

/- A text without the gaps at its start; the fuel bounds their number. -/
def skipFrom : Nat → List Char → List Char
  | 0, text => text
  | fuel + 1, text =>
      match length text with
      | some count => skipFrom fuel (text.drop count)
      | none => text

/- A text without the gaps at its start. -/
def skip
    (text : List Char) : List Char :=
  skipFrom text.length text

end Gap

/-
  Drop a first line that names an interpreter.  It starts
  with `#!`, and no bracket follows; the line feed after it
  stays, so that lines keep their numbers.
-/
def dropInterpreterLine : List Char → List Char
  | '#' :: '!' :: rest =>
      if (Gap.skip rest).head? = some '[' then
        '#' :: '!' :: rest
      else
        rest.dropWhile (· != '\n')
  | text => text

namespace SourceFile

/- The file that a text holds. -/
def parse?
    (text : List Char) : Option SourceFile := do
  let trees ← Tokens.ofText? (dropInterpreterLine (dropByteOrderMark text))
  trees.parse? Grammar.sourceFile

end SourceFile

namespace Item

/- The item that a text holds. -/
def parse?
    (text : List Char) : Option Item := do
  let trees ← Tokens.ofText? text
  trees.parse? Grammar.item

end Item

namespace StructItem

/- The record declaration that a text holds. -/
def parse?
    (text : List Char) : Option StructItem := do
  let trees ← Tokens.ofText? text
  trees.parse? fun g => do
    let attributes ← g.outerAttributes
    let visibility ← Grammar.visibility
    g.structItem attributes visibility

end StructItem

namespace Ty

/- The type that a text holds. -/
def parse?
    (text : List Char) : Option Ty := do
  let trees ← Tokens.ofText? text
  trees.parse? (·.type true)

end Ty

namespace Visibility

/- The visibility that a text holds; an empty text is the inherited one. -/
def parse?
    (text : List Char) : Option Visibility := do
  let trees ← Tokens.ofText? text
  trees.parse? fun _ => Grammar.visibility

end Visibility

end Nullary
