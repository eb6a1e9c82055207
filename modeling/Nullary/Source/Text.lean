import Nullary.Source.Position

/-
  Positions of a text and the pieces between them.

  An offset counts characters from the start of the text.  A
  column may run past the end of its line into the lines
  that follow, and everything past the end of the text is its
  end.

  Key definitions include:
    * `SourceText.dropLines`
    * `SourceText.offset`
    * `SourceText.byteOffset`
    * `SourceText.cut?`
    * `SourceText.between`
    * `SourceText.indent`
    * `Location`
-/

namespace Nullary

namespace SourceText

------------------------------------------------------------
-- Offsets
------------------------------------------------------------

/- A text without its first lines, if it has as many. -/
def dropLines : Nat → List Char → Option (List Char)
  | 0, text => some text
  | _ + 1, [] => none
  | count + 1, c :: rest =>
      if c = '\n' then dropLines count rest else dropLines (count + 1) rest

/- The text from the start of a line on; line zero is the first line. -/
def fromLine?
    (text : List Char)
    (line : Nat) : Option (List Char) :=
  dropLines (line - 1) text

/- The offset of a position. -/
def offset
    (text : List Char)
    (position : Position) : Nat :=
  match fromLine? text position.line with
  | none => text.length
  | some rest => text.length - rest.length + min position.column rest.length

/- The size of a text in bytes. -/
def byteSize
    (text : List Char) : Nat :=
  text.foldr (fun c size => c.utf8Size + size) 0

/- An offset in bytes. -/
def inBytes
    (text : List Char)
    (offset : Nat) : Nat :=
  byteSize (text.take offset)

/- The offset of a position in bytes. -/
def byteOffset
    (text : List Char)
    (position : Position) : Nat :=
  inBytes text (offset text position)

------------------------------------------------------------
-- Pieces
------------------------------------------------------------

/- The text between two positions; empty if they are out of order. -/
def between
    (text : List Char)
    (start : Position)
    (stop : Position) : List Char :=
  let first := offset text start
  (text.drop first).take (offset text stop - first)

/- The text of a span. -/
def slice
    (text : List Char)
    (span : Span) : List Char :=
  between text span.start span.stop

/-
  A text in two pieces, the first of the given size in bytes.
  There are none if a character stands across the cut or the
  text is too short.
-/
def cut? : Nat → List Char → Option (List Char × List Char)
  | 0, text => some ([], text)
  | _ + 1, [] => none
  | size + 1, c :: rest =>
      if c.utf8Size ≤ size + 1 then
        (cut? (size + 1 - c.utf8Size) rest).map fun (first, second) => (c :: first, second)
      else
        none

/- A blank that indents a line. -/
def isIndent
    (c : Char) : Bool :=
  c == ' ' || c == '\t'

/- The blanks at the start of a line. -/
def indent
    (text : List Char)
    (line : Nat) : List Char :=
  match fromLine? text line with
  | none => []
  | some rest => rest.takeWhile isIndent

end SourceText

------------------------------------------------------------
-- Locations
------------------------------------------------------------

/- A position as it is told to users: lines and columns from one. -/
structure Location where
  line : Nat
  column : Nat
deriving DecidableEq, Repr

namespace Location

/- The location of a position. -/
def ofPosition
    (position : Position) : Location :=
  ⟨position.line, position.column + 1⟩

/- A location as `line:column`. -/
def print
    (l : Location) : String :=
  toString l.line ++ ":" ++ toString l.column

end Location

end Nullary
