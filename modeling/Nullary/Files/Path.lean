/-
  Paths of files, as they are written.

  A path is compared by its components.  Repeated slashes and
  dots inside it do not count; a dot at its start does.

  Key definitions include:
    * `FilePath`
    * `FilePath.parts`
    * `FilePath.components`
    * `FilePath.key`
    * `FilePath.extension?`
    * `FilePath.join`
-/

namespace Nullary

------------------------------------------------------------
-- Components
------------------------------------------------------------

/- A component of a path. -/
inductive PathComponent where
  | root
  | current
  | parent
  | name (text : String)
deriving DecidableEq, Repr

namespace PathComponent

/- The component that a part between slashes stands for, if any. -/
def ofPart? : String → Option PathComponent
  | "" => none
  | "." => none
  | ".." => some .parent
  | text => some (.name text)

/-
  The place of a component in the order of components: the
  root, a dot, two dots, and then names by their characters.
-/
def key : PathComponent → List Nat
  | .root => [0]
  | .current => [1]
  | .parent => [2]
  | .name text => 3 :: text.toList.map Char.toNat

end PathComponent

------------------------------------------------------------
-- Paths
------------------------------------------------------------

/- A path as it is written. -/
structure FilePath where
  text : String
deriving DecidableEq, Repr

namespace FilePath

/- The parts of a path between its slashes, empty ones too. -/
def parts
    (p : FilePath) : List String :=
  (p.text.toList.splitOn '/').map String.ofList

/- A path that starts at the root. -/
def isAbsolute
    (p : FilePath) : Bool :=
  p.text.toList.head? == some '/'

/- The component before those that the parts of a path stand for. -/
def start
    (p : FilePath) : List PathComponent :=
  if p.isAbsolute then
    [.root]
  else if p.parts.head? = some "." then
    [.current]
  else
    []

/- The components of a path. -/
def components
    (p : FilePath) : List PathComponent :=
  p.start ++ p.parts.filterMap PathComponent.ofPart?

/- The place of a path in the order of paths. -/
def key
    (p : FilePath) : List (List Nat) :=
  p.components.map PathComponent.key

/- The name that a path ends with. -/
def fileName?
    (p : FilePath) : Option String :=
  match p.components.getLast? with
  | some (.name text) => some text
  | _ => none

/-
  What follows the last dot of a name, unless that dot is its
  first character.
-/
def extensionOf?
    (name : List Char) : Option (List Char) :=
  let after := (name.reverse.takeWhile (· != '.')).reverse
  let before := name.take (name.length - after.length)
  if before.length ≤ 1 then none else some after

/- The extension of the name that a path ends with. -/
def extension?
    (p : FilePath) : Option String := do
  let name ← p.fileName?
  let found ← extensionOf? name.toList
  return String.ofList found

/- The path of an entry of a directory. -/
def join
    (p : FilePath)
    (name : String) : FilePath :=
  if p.text.toList.getLast? = some '/' then
    ⟨p.text ++ name⟩
  else
    ⟨p.text ++ "/" ++ name⟩

end FilePath

end Nullary
