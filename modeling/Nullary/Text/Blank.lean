import Nullary.Text.Ranges

/-
  Blank characters: those with the Unicode property
  White_Space, and the trimming and splitting of texts at
  them.

  Key definitions include:
    * `isBlank`
    * `Text.trimStart`
    * `Text.trimEnd`
    * `Text.trim`
    * `Text.words`
-/

namespace Nullary

------------------------------------------------------------
-- The White_Space Property
------------------------------------------------------------

/- White_Space beyond ASCII. -/
def blankRanges : CharRanges :=
  [(0x85, 0x85), (0xA0, 0xA0), (0x1680, 0x1680), (0x2000, 0x200A), (0x2028, 0x2029),
    (0x202F, 0x202F), (0x205F, 0x205F), (0x3000, 0x3000)]

/- A character with the property White_Space. -/
def isBlank
    (c : Char) : Bool :=
  if c.toNat < 0x80 then
    c == ' ' || (0x09 ≤ c.toNat && c.toNat ≤ 0x0D)
  else
    blankRanges.contains c

------------------------------------------------------------
-- Trimming and Splitting
------------------------------------------------------------

namespace Text

/- A text without its leading blanks. -/
def trimStart
    (text : List Char) : List Char :=
  text.dropWhile isBlank

/- A text without its trailing blanks. -/
def trimEnd
    (text : List Char) : List Char :=
  (text.reverse.dropWhile isBlank).reverse

/- A text without the blanks at its two ends. -/
def trim
    (text : List Char) : List Char :=
  trimEnd (trimStart text)

/- A text of blanks only. -/
def allBlank
    (text : List Char) : Bool :=
  text.all isBlank

/-
  The words of a text that starts inside a word: `word` holds
  its characters so far, last one first.
-/
def wordsFrom
    (word : List Char) : List Char → List (List Char)
  | [] =>
      if word.isEmpty then [] else [word.reverse]
  | c :: rest =>
      if isBlank c then
        if word.isEmpty then
          wordsFrom [] rest
        else
          word.reverse :: wordsFrom [] rest
      else
        wordsFrom (c :: word) rest

/- The maximal runs of characters that are not blank, in order. -/
def words
    (text : List Char) : List (List Char) :=
  wordsFrom [] text

end Text

end Nullary
