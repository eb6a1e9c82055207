import Nullary.Constructor.Attribute
import Nullary.Constructor.Text
import Nullary.Expansion.Placement
import Nullary.Grammar.Source
import Nullary.Item.Marker
import Nullary.Source.Edit

/-
  The expansion of the markers in a file.

  Every marked item loses its markers.  If it is given a
  constructor, the generated implementation is put after the
  last inherent implementation of its type in the same module
  body, or after the item itself; otherwise it is reported.
  The rest of the text is left as it is.

  Key definitions include:
    * `Attribute.removalRange`
    * `StructItem.insertionOffset`
    * `MarkedItem`
    * `MarkedItem.outcome`
    * `MarkedItem.edits`
    * `SourceFile.markedItems`
    * `Expansion`
    * `SourceFile.expand?`
    * `Expansion.ofText`
-/

namespace Nullary

------------------------------------------------------------
-- Removing Markers
------------------------------------------------------------

namespace SourceText

/- The offset at which the line of an offset starts. -/
def lineStart
    (text : List Char)
    (offset : Nat) : Nat :=
  offset - ((text.take offset).reverse.takeWhile (· != '\n')).length

/- The rest of the line after an offset, its line feed excluded. -/
def restOfLine
    (text : List Char)
    (offset : Nat) : List Char :=
  (text.drop offset).takeWhile (· != '\n')

/- The part of a line before an offset. -/
def startOfLine
    (text : List Char)
    (offset : Nat) : List Char :=
  (text.take offset).drop (lineStart text offset)

/-
  The range that goes with the text between two offsets: the
  whole lines if nothing else stands on them, else the text
  itself and the spaces after it.
-/
def removalRange
    (text : List Char)
    (start : Nat)
    (stop : Nat) : Nat × Nat :=
  let rest := restOfLine text stop
  if Text.allBlank (startOfLine text start) && Text.allBlank rest then
    (lineStart text start, min (stop + rest.length + 1) text.length)
  else
    (start, stop + (rest.takeWhile isIndent).length)

end SourceText

namespace Attribute

/- The range that goes with an attribute. -/
def removalRange
    (a : Attribute)
    (text : List Char) : Nat × Nat :=
  SourceText.removalRange text (SourceText.offset text a.span.start)
    (SourceText.offset text a.span.stop)

/- The removal of an attribute. -/
def removal
    (text : List Char)
    (a : Attribute) : Edit :=
  let range := a.removalRange text
  .removal (SourceText.inBytes text range.1) (SourceText.inBytes text range.2)

end Attribute

------------------------------------------------------------
-- Inserting Constructors
------------------------------------------------------------

namespace StructItem

/-
  Where the constructor of a record goes: after the record
  and after all inherent implementations of its name in the
  same body.
-/
def insertionOffset
    (item : StructItem)
    (body : List Item)
    (text : List Char) : Nat :=
  let stop := SourceText.offset text (Tokens.span item.tokens).stop
  let stops := (body.filterMap (Item.inherentImpl? item.name)).map fun i =>
    SourceText.offset text (Tokens.span i.tokens).stop
  stops.foldl max stop

/- The insertion of constructors for a record. -/
def insertion
    (item : StructItem)
    (body : List Item)
    (text : List Char)
    (fragments : List Fragment) : Edit :=
  .insertion (SourceText.inBytes text (item.insertionOffset body text))
    (fragments.flatMap (·.textFor item text))

end StructItem

------------------------------------------------------------
-- Marked Items
------------------------------------------------------------

/- An item with its markers, of which there is at least one. -/
structure MarkedItem where
  item : Item
  body : List Item
  first : Attribute
  others : List Attribute
deriving Repr

namespace MarkedItem

/- The marked item at a placement, if it has a marker. -/
def ofPlacement?
    (names : List String)
    (p : Placement) : Option MarkedItem :=
  match p.item.markers names with
  | [] => none
  | first :: others => some ⟨p.item, p.body, first, others⟩

/- Where an item is reported: at its first marker. -/
def location
    (m : MarkedItem) : Location :=
  .ofPosition m.first.span.start

/- What comes of a marked item. -/
def outcome
    (m : MarkedItem) : Outcome Location :=
  m.item.outcome (Item.inherentMembers m.body) m.location

/- The removals of the markers of an item. -/
def removals
    (text : List Char)
    (m : MarkedItem) : List Edit :=
  (m.first :: m.others).map (Attribute.removal text)

/- The insertion for an item that is given a constructor. -/
def insertion?
    (text : List Char)
    (m : MarkedItem) : Option Edit :=
  match m.item, m.outcome with
  | .struct item, .synthesized fragments => some (item.insertion m.body text fragments)
  | _, _ => none

/- All edits for a marked item. -/
def edits
    (text : List Char)
    (m : MarkedItem) : List Edit :=
  m.removals text ++ (m.insertion? text).toList

/- An item that is given a constructor. -/
def isExpanded
    (m : MarkedItem) : Bool :=
  match m.item, m.outcome with
  | .struct _, .synthesized _ => true
  | _, _ => false

end MarkedItem

namespace SourceFile

/- The marked items of a file at every depth, in the order of the text. -/
def markedItems
    (file : SourceFile)
    (names : List String) : List MarkedItem :=
  (Item.placements file.items).filterMap (MarkedItem.ofPlacement? names)

end SourceFile

------------------------------------------------------------
-- Expansion
------------------------------------------------------------

/- An expanded text, what was reported, and how many constructors were added. -/
structure Expansion where
  source : List Char
  diagnostics : List (Diagnostic Location)
  expanded : Nat
deriving DecidableEq, Repr

namespace Expansion

/- The number of errors. -/
def errors
    (e : Expansion) : Nat :=
  e.diagnostics.countP Diagnostic.isError

/- The number of warnings. -/
def warnings
    (e : Expansion) : Nat :=
  e.diagnostics.countP Diagnostic.isWarning

/- Something was rejected. -/
def hasErrors
    (e : Expansion) : Bool :=
  e.diagnostics.any Diagnostic.isError

end Expansion

namespace SourceFile

/- The edits of a file. -/
def edits
    (file : SourceFile)
    (names : List String)
    (text : List Char) : List Edit :=
  (file.markedItems names).flatMap (·.edits text)

/- What is reported about a file. -/
def diagnostics
    (file : SourceFile)
    (names : List String) : List (Diagnostic Location) :=
  (file.markedItems names).filterMap (·.outcome.diagnostic?)

/- The number of items of a file that are given a constructor. -/
def expanded
    (file : SourceFile)
    (names : List String) : Nat :=
  (file.markedItems names).countP (·.isExpanded)

/- The expansion of a file in the text that declares it, if its edits fit. -/
def expand?
    (file : SourceFile)
    (names : List String)
    (text : List Char) : Option Expansion := do
  let source ← Edit.performAll? text (file.edits names text)
  return ⟨source, file.diagnostics names, file.expanded names⟩

end SourceFile

namespace Expansion

/- A byte order mark is put before an expanded text. -/
def withMark
    (e : Expansion) : Expansion :=
  { e with source := byteOrderMark :: e.source }

end Expansion

/- Why a text is not expanded. -/
inductive ExpansionError where
  /- The text is not a source file. -/
  | unparsed
  /- An edit does not fit, and the work is given up. -/
  | misfit
deriving DecidableEq, Repr

namespace Expansion

/- The byte order mark that a text starts with, if there is one. -/
def markOf
    (text : List Char) : List Char :=
  if text.head? = some byteOrderMark then [byteOrderMark] else []

/-
  The expansion of a text.  A leading byte order mark is kept
  and counts for nothing: the file is read without it, and
  the edits are made after it.
-/
def ofText
    (names : List String)
    (text : List Char) : Except ExpansionError Expansion :=
  let body := dropByteOrderMark text
  match SourceFile.parse? body with
  | none => .error .unparsed
  | some file =>
      match Edit.performAllAfter? (markOf text) body (file.edits names body) with
      | none => .error .misfit
      | some source => .ok ⟨source, file.diagnostics names, file.expanded names⟩

end Expansion

end Nullary
