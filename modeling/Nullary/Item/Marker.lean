import Nullary.Item.Basic

/-
  The attributes that mark an item for a constructor.

  An attribute is a marker if its path ends in one of the
  marker names; it may be written with or without the path
  before the name.

  Key definitions include:
    * `markerName`
    * `Attribute.isMarker`
    * `Item.markers`
-/

namespace Nullary

/- The name of the marker that is always known. -/
def markerName : String :=
  "public_initialiser"

namespace Attribute

/- The path of an attribute ends in one of the names. -/
def isMarker
    (names : List String)
    (a : Attribute) : Bool :=
  a.path.getLast?.any fun last => names.any (last == ·)

end Attribute

namespace Item

/- The markers of an item, in the order of its attributes. -/
def markers
    (names : List String)
    (item : Item) : List Attribute :=
  item.attributes.filter (Attribute.isMarker names)

end Item

end Nullary
