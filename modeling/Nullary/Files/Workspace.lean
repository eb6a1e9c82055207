import Nullary.Files.Path
import Nullary.Files.Tree

/-
  Workspaces: a tree of files, and the directory in it that
  paths start from.

  Key definitions include:
    * `FileError`
    * `Workspace`
    * `Workspace.resolve`
    * `Workspace.content`
    * `Workspace.text`
    * `Workspace.write`
    * `Workspace.makeDirectories`
    * `Workspace.ancestors`
-/

namespace Nullary

------------------------------------------------------------
-- Errors
------------------------------------------------------------

/- Why a file cannot be read or written. -/
inductive FileError where
  | missing
  | alreadyThere
  | notDirectory
  | isDirectory
  | notText
deriving DecidableEq, Repr

/- The wording of an error. -/
def FileError.message : FileError → String
  | .missing => "No such file or directory (os error 2)"
  | .alreadyThere => "File exists (os error 17)"
  | .notDirectory => "Not a directory (os error 20)"
  | .isDirectory => "Is a directory (os error 21)"
  | .notText => "stream did not contain valid UTF-8"

/- The text that the content of a file encodes. -/
def FileTree.decode
    (content : ByteArray) : Except FileError String :=
  match String.fromUTF8? content with
  | some text => .ok text
  | none => .error .notText

------------------------------------------------------------
-- Workspaces
------------------------------------------------------------

/- A tree, and the names that lead to the working directory. -/
structure Workspace where
  root : FileTree
  here : List String

namespace Workspace

/- The tree at a list of names. -/
def at?
    (w : Workspace)
    (names : List String) : Option FileTree :=
  w.root.at? names

/- The entries of the directory at a list of names. -/
def entriesAt
    (w : Workspace)
    (names : List String) : Except FileError (List (String × FileTree)) :=
  match w.at? names with
  | none => .error .missing
  | some (.file _) => .error .notDirectory
  | some (.directory entries) => .ok entries

------------------------------------------------------------
-- Resolving Paths
------------------------------------------------------------

/-
  The place that some parts of a path lead to.  Whatever is
  followed by a part must be a directory, and every name must
  be the name of an entry.
-/
def follow
    (w : Workspace) : List String → List String → Except FileError (List String)
  | names, [] => .ok names
  | names, part :: rest => do
      let entries ← w.entriesAt names
      match PathComponent.ofPart? part with
      | some (.name name) =>
          if (FileTree.child? entries name).isSome then
            w.follow (names ++ [name]) rest
          else
            .error .missing
      | some .parent => w.follow names.dropLast rest
      | _ => w.follow names rest

/- The place that a path starts from. -/
def origin
    (w : Workspace)
    (p : FilePath) : List String :=
  if p.isAbsolute then [] else w.here

/- The place that a path leads to. -/
def resolve
    (w : Workspace)
    (p : FilePath) : Except FileError (List String) :=
  if p.text = "" then .error .missing else w.follow (w.origin p) p.parts

/- A path that leads somewhere. -/
def contains
    (w : Workspace)
    (p : FilePath) : Bool :=
  match w.resolve p with
  | .ok _ => true
  | .error _ => false

/- The workspace with another working directory. -/
def enter
    (w : Workspace)
    (p : FilePath) : Except FileError Workspace := do
  let names ← w.resolve p
  let _ ← w.entriesAt names
  return { w with here := names }

/- A place and those above it, nearest first; the names are given backwards. -/
def upFrom : List String → List (List String)
  | [] => [[]]
  | name :: above => (name :: above).reverse :: upFrom above

/- The working directory and those above it, nearest first. -/
def ancestors
    (w : Workspace) : List (List String) :=
  upFrom w.here.reverse

------------------------------------------------------------
-- Reading
------------------------------------------------------------

/- The content of the file at a list of names. -/
def contentAt
    (w : Workspace)
    (names : List String) : Except FileError ByteArray :=
  match w.at? names with
  | none => .error .missing
  | some (.file content) => .ok content
  | some (.directory _) => .error .isDirectory

/- The content of a file. -/
def content
    (w : Workspace)
    (p : FilePath) : Except FileError ByteArray := do
  w.contentAt (← w.resolve p)

/- The text of the file at a list of names. -/
def textAt
    (w : Workspace)
    (names : List String) : Except FileError String := do
  FileTree.decode (← w.contentAt names)

/- The text of a file. -/
def text
    (w : Workspace)
    (p : FilePath) : Except FileError String := do
  FileTree.decode (← w.content p)

------------------------------------------------------------
-- Writing
------------------------------------------------------------

/- Put a tree at a list of names. -/
def put
    (w : Workspace)
    (names : List String)
    (tree : FileTree) : Workspace :=
  { w with root := w.root.put names tree }

/-
  Put a file into the directory at a list of names; an entry
  that is a directory is not replaced.
-/
def putFile
    (w : Workspace)
    (names : List String)
    (name : String)
    (content : ByteArray) : Except FileError Workspace := do
  let entries ← w.entriesAt names
  match FileTree.child? entries name with
  | some (.directory _) => .error .isDirectory
  | _ => .ok (w.put (names ++ [name]) (.file content))

/-
  Write a file, new or not, into a directory that is there.
  A path that ends in a slash or in dots is not that of a
  file.
-/
def write
    (w : Workspace)
    (p : FilePath)
    (content : ByteArray) : Except FileError Workspace :=
  if p.text = "" then
    .error .missing
  else
    match p.parts.reverse.dropWhile (· == "") with
    | [] => .error .isDirectory
    | last :: before => do
        let directory ← w.follow (w.origin p) before.reverse
        let _ ← w.entriesAt directory
        match PathComponent.ofPart? last with
        | some (.name name) =>
            if p.parts.getLast? = some "" then
              .error .isDirectory
            else
              w.putFile directory name content
        | _ => .error .isDirectory

/- Make the directories along the parts of a path that are missing. -/
def makeAlong
    (w : Workspace) : List String → List String → Except FileError Workspace
  | _, [] => .ok w
  | names, part :: rest => do
      let entries ← w.entriesAt names
      match PathComponent.ofPart? part with
      | some (.name name) =>
          match FileTree.child? entries name with
          | some (.directory _) => w.makeAlong (names ++ [name]) rest
          | some (.file _) =>
              .error (if rest.all (· == "") then .alreadyThere else .notDirectory)
          | none => (w.put (names ++ [name]) .empty).makeAlong (names ++ [name]) rest
      | some .parent => w.makeAlong names.dropLast rest
      | _ => w.makeAlong names rest

/- Make a directory and those above it, as far as they are missing. -/
def makeDirectories
    (w : Workspace)
    (p : FilePath) : Except FileError Workspace :=
  w.makeAlong (w.origin p) p.parts

/- Make the directories above a path, as far as they are missing. -/
def makeParents
    (w : Workspace)
    (p : FilePath) : Except FileError Workspace :=
  let body := p.parts.reverse.dropWhile fun part => part == "" || part == "."
  w.makeAlong (w.origin p) body.tail.reverse

/- Remove a file. -/
def remove
    (w : Workspace)
    (p : FilePath) : Except FileError Workspace := do
  let names ← w.resolve p
  let _ ← w.contentAt names
  return { w with root := w.root.erase names }

end Workspace

end Nullary
