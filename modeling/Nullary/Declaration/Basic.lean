import Nullary.Declaration.Modifiers

/-
  Declarations and their members, independent of the language
  they are written in.

  Key definitions include:
    * `DeclarationKind`
    * `Parameter`
    * `Member`
    * `Member.isPublicNullary`
    * `Declaration`
    * `Declaration.hasPublicNullary`
    * `Fragment`
-/

namespace Nullary

------------------------------------------------------------
-- Kinds
------------------------------------------------------------

/- What a declaration declares. -/
inductive DeclarationKind where
  | classKind
  | struct
  | enum
  | protocol
  | extension
  | actor
  | union
deriving DecidableEq, Repr

namespace DeclarationKind

/- All kinds, in the order in which they are listed to users. -/
def all : List DeclarationKind :=
  [.classKind, .struct, .enum, .protocol, .extension, .actor, .union]

/- The word for a kind. -/
def name : DeclarationKind → String
  | .classKind => "class"
  | .struct => "struct"
  | .enum => "enum"
  | .protocol => "protocol"
  | .extension => "extension"
  | .actor => "actor"
  | .union => "union"

/- Only classes and structs can be given a constructor. -/
def isEligible : DeclarationKind → Bool
  | .classKind => true
  | .struct => true
  | _ => false

end DeclarationKind

------------------------------------------------------------
-- Members
------------------------------------------------------------

/- A parameter of a constructor. -/
structure Parameter where
  label : String
  type : String
deriving DecidableEq, Repr

namespace Parameter

/- A parameter as `label: type`. -/
def print
    (p : Parameter) : String :=
  p.label ++ ": " ++ p.type

end Parameter

/- A member of a declaration. -/
inductive Member where
  | initializer (name : Option String) (modifiers : Modifiers) (parameters : List Parameter)
  | method (name : String) (modifiers : Modifiers)
  | property (name : String)
  | other
deriving DecidableEq, Repr

namespace Member

/- The name of a member that has one. -/
def name? : Member → Option String
  | initializer name _ _ => name
  | method name _ => some name
  | property name => some name
  | other => none

/- A public constructor without parameters. -/
def isPublicNullary : Member → Bool
  | initializer _ modifiers parameters => modifiers.isPublic && parameters.isEmpty
  | _ => false

/- The name of the constructor that is generated. -/
def constructorName : String :=
  "new"

/- A constructor or a method with the name of the generated constructor. -/
def takesConstructorName : Member → Bool
  | initializer name _ _ => name == some constructorName
  | method name _ => name == constructorName
  | _ => false

end Member

------------------------------------------------------------
-- Declarations
------------------------------------------------------------

/- A declaration with its members. -/
structure Declaration where
  name : String
  kind : DeclarationKind
  modifiers : Modifiers
  members : List Member
deriving DecidableEq, Repr

namespace Declaration

/- A declaration with nothing in it. -/
def new
    (name : String)
    (kind : DeclarationKind) : Declaration :=
  ⟨name, kind, .empty, []⟩

/- Add a qualifier. -/
def withModifier
    (d : Declaration)
    (token : String) : Declaration :=
  { d with modifiers := d.modifiers.insert token }

/- Add a member. -/
def withMember
    (d : Declaration)
    (member : Member) : Declaration :=
  { d with members := d.members ++ [member] }

/- Add members that are declared elsewhere. -/
def withMembers
    (d : Declaration)
    (members : List Member) : Declaration :=
  { d with members := d.members ++ members }

/- A public constructor without parameters is declared. -/
def hasPublicNullary
    (d : Declaration) : Bool :=
  d.members.any Member.isPublicNullary

/- The name of the generated constructor is taken. -/
def constructorNameTaken
    (members : List Member) : Bool :=
  members.any Member.takesConstructorName

end Declaration

------------------------------------------------------------
-- Fragments
------------------------------------------------------------

/- A generated constructor. -/
structure Fragment where
  modifiers : Modifiers
  parameters : List Parameter
deriving DecidableEq, Repr

namespace Fragment

/- The public constructor without parameters. -/
def publicInitializer : Fragment :=
  ⟨.ofTokens [Modifiers.publicToken], []⟩

/- A public fragment. -/
def isPublic
    (f : Fragment) : Bool :=
  f.modifiers.isPublic

/- A fragment as its qualifiers, its parameters and an empty body. -/
def print
    (f : Fragment) : String :=
  String.join (f.modifiers.tokens.map (· ++ " ")) ++ "init(" ++
    String.intercalate ", " (f.parameters.map Parameter.print) ++ ") \x7b\x7d"

end Fragment

end Nullary
