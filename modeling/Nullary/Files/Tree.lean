/-
  Trees of files and directories.

  Key definitions include:
    * `FileTree`
    * `FileTree.at?`
    * `FileTree.put`
    * `FileTree.erase`
-/

namespace Nullary

/- A file with its content, or a directory with named entries. -/
inductive FileTree where
  | file (content : ByteArray)
  | directory (entries : List (String × FileTree))

namespace FileTree

------------------------------------------------------------
-- Entries
------------------------------------------------------------

/- The tree that has a name among the entries of a directory. -/
def child?
    (entries : List (String × FileTree))
    (name : String) : Option FileTree :=
  (entries.find? (·.1 == name)).map Prod.snd

/- Set the entry of a name, in its place or at the end. -/
def setEntry
    (name : String)
    (tree : FileTree) : List (String × FileTree) → List (String × FileTree)
  | [] => [(name, tree)]
  | (other, old) :: rest =>
      if other = name then (name, tree) :: rest else (other, old) :: setEntry name tree rest

/- Drop the entry of a name. -/
def dropEntry
    (name : String)
    (entries : List (String × FileTree)) : List (String × FileTree) :=
  entries.filter (·.1 != name)

/- A directory without entries. -/
def empty : FileTree :=
  .directory []

/- A tree that is a directory. -/
def isDirectory : FileTree → Bool
  | .file _ => false
  | .directory _ => true

------------------------------------------------------------
-- Places in a Tree
------------------------------------------------------------

/- The tree at a list of names, one inside the other. -/
def at? : List String → FileTree → Option FileTree
  | [], tree => some tree
  | _ :: _, .file _ => none
  | name :: names, .directory entries =>
      match child? entries name with
      | none => none
      | some child => at? names child

/- Put a tree at a list of names; directories on the way are made if they are missing. -/
def put : List String → FileTree → FileTree → FileTree
  | [], _, new => new
  | _ :: _, .file content, _ => .file content
  | name :: names, .directory entries, new =>
      .directory (setEntry name (put names ((child? entries name).getD empty) new) entries)

/- Take away what is at a list of names. -/
def erase : List String → FileTree → FileTree
  | [], tree => tree
  | _ :: _, .file content => .file content
  | [name], .directory entries => .directory (dropEntry name entries)
  | name :: next :: names, .directory entries =>
      match child? entries name with
      | none => .directory entries
      | some child => .directory (setEntry name (erase (next :: names) child) entries)

end FileTree

end Nullary
