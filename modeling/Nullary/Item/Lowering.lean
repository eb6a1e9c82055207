import Nullary.Declaration.Basic
import Nullary.Item.Basic

/-
  The declaration that an item makes, and the members that
  the implementations of a type declare.

  A function of an implementation counts as a constructor if
  it has no receiver and its result type ends in `Self` or in
  the name of the type.

  Key definitions include:
    * `Visibility.modifiers`
    * `Signature.member`
    * `StructItem.declaration`
    * `Item.declaration?`
    * `Item.inherentMembers`
    * `Item.declaringBodies`
    * `Item.siblingMembers?`
-/

namespace Nullary

------------------------------------------------------------
-- Visibility
------------------------------------------------------------

namespace Visibility

/- The qualifiers of a visibility; only the plain one is public. -/
def modifiers
    (v : Visibility) : Modifiers :=
  match v.scope with
  | .inherited => .empty
  | .everywhere => .ofTokens [Modifiers.publicToken]
  | .crate => .ofTokens ["crate"]
  | .restricted => .ofTokens ["restricted"]

end Visibility

------------------------------------------------------------
-- Functions
------------------------------------------------------------

namespace Argument

/- The parameter of a constructor; a receiver is none. -/
def parameter? : Argument → Option Parameter
  | receiver => none
  | typed pattern type => some ⟨Tokens.print pattern, Tokens.print type.tokens⟩

end Argument

namespace Signature

/- The result is the type itself. -/
def returnsSelf
    (s : Signature)
    (selfName : String) : Bool :=
  match s.result with
  | none => false
  | some type => type.name?.any fun name => name == "Self" || name == selfName

/- The member that a function of a type is. -/
def member
    (s : Signature)
    (visibility : Visibility)
    (selfName : String) : Member :=
  if !s.hasReceiver && s.returnsSelf selfName then
    .initializer (some s.name) visibility.modifiers (s.arguments.filterMap Argument.parameter?)
  else
    .method s.name visibility.modifiers

end Signature

namespace ImplMember

/- The member that a member of an implementation declares. -/
def member
    (selfName : String) : ImplMember → Member
  | function visibility signature => signature.member visibility selfName
  | other => .other

end ImplMember

namespace TraitMember

/- The member that a member of a trait declares. -/
def member : TraitMember → Member
  | function name => .method name .empty
  | other => .other

end TraitMember

------------------------------------------------------------
-- Items
------------------------------------------------------------

namespace Fields

/- The fields as members; those without names are counted from zero. -/
def members : Fields → List Member
  | named names => names.map Member.property
  | positional count => (List.range count).map fun index => .property (toString index)
  | unit => []

end Fields

namespace StructItem

/- The declaration of a record. -/
def declaration
    (item : StructItem) : Declaration :=
  ⟨item.name, .struct, item.visibility.modifiers, item.fields.members⟩

end StructItem

namespace ImplItem

/- The qualifiers of an item that may be unsafe. -/
def withUnsafety
    (m : Modifiers)
    (unsafety : Bool) : Modifiers :=
  if unsafety then m.insert "unsafe" else m

/- The members of an implementation of the named type. -/
def membersOf
    (item : ImplItem)
    (selfName : String) : List Member :=
  item.members.map (ImplMember.member selfName)

/- An implementation of the named type and of no trait. -/
def isInherentFor
    (item : ImplItem)
    (name : String) : Bool :=
  !item.ofTrait && item.self.name? == some name

/- The declaration of an implementation. -/
def declaration
    (item : ImplItem) : Declaration :=
  let name := item.self.name?.getD "_"
  ⟨name, .extension, withUnsafety .empty item.unsafety, item.membersOf name⟩

end ImplItem

namespace Item

/- The declaration that an item makes, if it declares a group of members. -/
def declaration? : Item → Option Declaration
  | struct item => some item.declaration
  | enum _ visibility name variants _ =>
      some ⟨name, .enum, visibility.modifiers, variants.map Member.property⟩
  | union _ visibility name fields _ =>
      some ⟨name, .union, visibility.modifiers, fields.map Member.property⟩
  | trait _ visibility unsafety name members _ =>
      some ⟨name, .protocol, ImplItem.withUnsafety visibility.modifiers unsafety,
        members.map TraitMember.member⟩
  | impl item => some item.declaration
  | _ => none

------------------------------------------------------------
-- Members Next to a Type
------------------------------------------------------------

/- The implementation that an item is, if it is inherent for a name. -/
def inherentImpl?
    (name : String) : Item → Option ImplItem
  | impl item => if item.isInherentFor name then some item else none
  | _ => none

/- The members of the named type in its inherent implementations. -/
def inherentMembers
    (items : List Item)
    (name : String) : List Member :=
  (items.filterMap (inherentImpl? name)).flatMap (·.membersOf name)

/- An item declares the record of the given name. -/
def declaresStruct
    (name : String) : Item → Bool
  | struct item => item.name == name
  | _ => false

mutual

/- The bodies inside an item that declare a record of the given name. -/
def declaringBodiesIn
    (name : String) : Item → List (List Item)
  | .module _ (some items) _ =>
      (if items.any (declaresStruct name) then [items] else []) ++
        declaringBodiesInAll name items
  | _ => []

/- The bodies inside items that declare a record of the given name. -/
def declaringBodiesInAll
    (name : String) : List Item → List (List Item)
  | [] => []
  | item :: rest => declaringBodiesIn name item ++ declaringBodiesInAll name rest

end

/-
  The module bodies that declare a record of the given name:
  the items themselves and the inline modules in them.
-/
def declaringBodies
    (name : String)
    (items : List Item) : List (List Item) :=
  (if items.any (declaresStruct name) then [items] else []) ++ declaringBodiesInAll name items

/-
  The inherent members of the named record in the module body
  that declares it, if there is exactly one such body.
-/
def siblingMembers?
    (items : List Item)
    (name : String) : Option (List Member) :=
  match declaringBodies name items with
  | [body] => some (inherentMembers body name)
  | _ => none

end Item

end Nullary
