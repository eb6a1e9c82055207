/-
  Sets of characters given by inclusive ranges of code
  points, the form in which the Unicode standard publishes
  its character properties.

  Key definitions include:
    * `CharRanges`
    * `CharRanges.contains`
-/

namespace Nullary

------------------------------------------------------------
-- Character Ranges
------------------------------------------------------------

/- A set of characters as a list of inclusive code point ranges. -/
abbrev CharRanges :=
  List (Nat × Nat)

namespace CharRanges

/- Membership of a character in a set of ranges. -/
def contains
    (ranges : CharRanges)
    (c : Char) : Bool :=
  ranges.any fun range =>
    range.1 ≤ c.toNat && c.toNat ≤ range.2

end CharRanges

end Nullary
