import Nullary.Source.Text

/-
  Replacements in a text.

  Edits are applied one after the other, the last one in the
  text first, so that each finds its range where it was.  Of
  two edits that start at the same offset, the one that was
  given first is applied first.

  Ranges are given in bytes.  A range that is not made of
  whole characters of the text does not fit it.  The edits of
  a text that stands after a lead are moved by the size of the
  lead.

  Key definitions include:
    * `Edit`
    * `Edit.perform?`
    * `Edit.sortByStart`
    * `Edit.performAll?`
    * `Edit.performAllAfter?`
-/

namespace Nullary

/- The replacement of the bytes from one offset up to another. -/
structure Edit where
  start : Nat
  stop : Nat
  replacement : List Char
deriving DecidableEq, Repr

namespace Edit

------------------------------------------------------------
-- Construction
------------------------------------------------------------

/- The removal of a range. -/
def removal
    (start : Nat)
    (stop : Nat) : Edit :=
  ⟨start, stop, []⟩

/- The insertion of a text at an offset. -/
def insertion
    (at_ : Nat)
    (text : List Char) : Edit :=
  ⟨at_, at_, text⟩

------------------------------------------------------------
-- Application
------------------------------------------------------------

/- A text with one edit applied, if the edit fits it. -/
def perform?
    (text : List Char)
    (e : Edit) : Option (List Char) :=
  if e.start ≤ e.stop then do
    let (before, rest) ← SourceText.cut? e.start text
    let (_, after) ← SourceText.cut? (e.stop - e.start) rest
    return before ++ e.replacement ++ after
  else
    none

/- Put an edit after those that do not start before it. -/
def insertByStart
    (e : Edit) : List Edit → List Edit
  | [] => [e]
  | f :: rest => if f.start < e.start then e :: f :: rest else f :: insertByStart e rest

/- Edits by descending start; those with equal starts keep their order. -/
def sortByStart
    (edits : List Edit) : List Edit :=
  edits.foldl (fun sorted e => insertByStart e sorted) []

/- A text with all edits applied, if each fits the text that it finds. -/
def performAll?
    (text : List Char)
    (edits : List Edit) : Option (List Char) :=
  (sortByStart edits).foldlM perform? text

/- The same edit of a text before which so many bytes stand. -/
def moved
    (size : Nat)
    (e : Edit) : Edit :=
  ⟨e.start + size, e.stop + size, e.replacement⟩

/-
  A lead and a text after it with all edits of the text
  applied, if each fits what it finds.
-/
def performAllAfter?
    (lead : List Char)
    (text : List Char)
    (edits : List Edit) : Option (List Char) :=
  (sortByStart edits).foldlM
    (fun found e => perform? found (e.moved (SourceText.byteSize lead))) (lead ++ text)

end Edit

end Nullary
