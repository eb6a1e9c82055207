import Nullary.Expansion.Basic
import Nullary.Failure

/-
  The search for source files below some roots.

  A directory below a root is left out with all it holds if
  its name starts with a dot or is excluded.  The files found
  are given in the order of paths; of equal paths, only the
  one that was found first.

  Key definitions include:
    * `Scanner`
    * `FileTree.files`
    * `FilePath.insertNew`
    * `Scanner.collect`
-/

namespace Nullary

------------------------------------------------------------
-- Scanners
------------------------------------------------------------

/- The roots of a search, the directories left out, and the names that mark an item. -/
structure Scanner where
  roots : List FilePath
  exclude : List String
  markers : List String
deriving DecidableEq, Repr

namespace Scanner

/- The scanner that settings describe. -/
def ofSettings
    (s : Settings) : Scanner :=
  ⟨s.check.sourceDirs.map FilePath.mk, s.check.exclude, s.markerNames⟩

/- A scanner with other roots. -/
def withRoots
    (s : Scanner)
    (roots : List FilePath) : Scanner :=
  { s with roots := roots }

/- The scanner for some paths, or for the source directories if there are none. -/
def forPaths
    (s : Settings)
    (paths : List FilePath) : Scanner :=
  if paths.isEmpty then ofSettings s else (ofSettings s).withRoots paths

/- The name of a directory that is left out. -/
def leavesOut
    (s : Scanner)
    (name : String) : Bool :=
  name.toList.head? == some '.' || s.exclude.contains name

end Scanner

------------------------------------------------------------
-- Files of a Tree
------------------------------------------------------------

namespace FileTree

mutual

/- The paths of the files of a tree, where the tree has a path itself. -/
def files
    (leavesOut : String → Bool)
    (path : FilePath) : FileTree → List FilePath
  | .file _ => [path]
  | .directory entries => filesOfEntries leavesOut path entries

/- The paths of the files below the entries of a directory. -/
def filesOfEntries
    (leavesOut : String → Bool)
    (path : FilePath) : List (String × FileTree) → List FilePath
  | [] => []
  | (name, tree) :: rest =>
      let below :=
        if tree.isDirectory && leavesOut name then
          []
        else
          files leavesOut (path.join name) tree
      below ++ filesOfEntries leavesOut path rest

end

end FileTree

------------------------------------------------------------
-- Ordered Paths
------------------------------------------------------------

namespace FilePath

/- Put a path into its place among ordered paths; it takes the place of an equal one. -/
def insertNew
    (p : FilePath) : List FilePath → List FilePath
  | [] => [p]
  | q :: rest =>
      if p.key < q.key then
        p :: q :: rest
      else if p.key = q.key then
        p :: rest
      else
        q :: insertNew p rest

/- Paths in order, of equal ones only the first. -/
def ordered
    (paths : List FilePath) : List FilePath :=
  paths.foldr insertNew []

/- The path of a source file. -/
def isSource
    (p : FilePath) : Bool :=
  p.extension? == some "rs"

end FilePath

------------------------------------------------------------
-- Collection
------------------------------------------------------------

namespace Scanner

/- The source files below a root. -/
def filesBelow
    (s : Scanner)
    (w : Workspace)
    (root : FilePath) : Except Failure (List FilePath) :=
  match w.resolve root with
  | .error _ => .error (.rootMissing root)
  | .ok names =>
      match w.at? names with
      | none => .error (.rootMissing root)
      | some tree => .ok ((tree.files s.leavesOut root).filter FilePath.isSource)

/- The source files below all roots, in order. -/
def collect
    (s : Scanner)
    (w : Workspace) : Except Failure (List FilePath) := do
  let found ← s.roots.mapM (s.filesBelow w)
  return FilePath.ordered found.flatten

end Scanner

end Nullary
