import Nullary.Item.Basic

/-
  Where the items of a file stand.

  Key definitions include:
    * `Placement`
    * `Item.placements`
-/

namespace Nullary

/- An item and the module body that it stands in. -/
structure Placement where
  item : Item
  body : List Item
deriving Repr

namespace Item

mutual

/- An item of a body, followed by the items inside it. -/
def placementsOf
    (body : List Item) : Item → List Placement
  | .module attributes (some items) tokens =>
      ⟨.module attributes (some items) tokens, body⟩ :: placementsOfAll items items
  | item => [⟨item, body⟩]

/- Items of a body, each followed by the items inside it. -/
def placementsOfAll
    (body : List Item) : List Item → List Placement
  | [] => []
  | item :: rest => placementsOf body item ++ placementsOfAll body rest

end

/-
  All items of a body and of the inline modules in it, in the
  order of the text.
-/
def placements
    (items : List Item) : List Placement :=
  placementsOfAll items items

end Item

end Nullary
