/-
  Positions in a text by line and column, and spans between
  two positions.

  Lines are numbered from one and end at a line feed only.
  Columns count characters from zero.

  Key definitions include:
    * `Position`
    * `Position.next`
    * `Position.after`
    * `Span`
    * `Span.join`
-/

namespace Nullary

------------------------------------------------------------
-- Positions
------------------------------------------------------------

/- A line, counted from one, and a column, counted from zero. -/
structure Position where
  line : Nat
  column : Nat
deriving DecidableEq, Repr

namespace Position

/- The position of the first character of a text. -/
def first : Position :=
  ⟨1, 0⟩

/- The position that follows a character. -/
def next
    (p : Position)
    (c : Char) : Position :=
  if c = '\n' then
    ⟨p.line + 1, 0⟩
  else
    ⟨p.line, p.column + 1⟩

/- The position that follows a text. -/
def after
    (p : Position)
    (text : List Char) : Position :=
  text.foldl next p

/- Reading order: by line, then by column. -/
def before
    (p q : Position) : Bool :=
  p.line < q.line || (p.line == q.line && p.column < q.column)

end Position

------------------------------------------------------------
-- Spans
------------------------------------------------------------

/- The stretch of a text from one position up to another. -/
structure Span where
  start : Position
  stop : Position
deriving DecidableEq, Repr

namespace Span

/- The empty span at the start of a text. -/
def nowhere : Span :=
  ⟨.first, .first⟩

/- The span from the start of one span to the end of another. -/
def join
    (s t : Span) : Span :=
  ⟨s.start, t.stop⟩

end Span

end Nullary
