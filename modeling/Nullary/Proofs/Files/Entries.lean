import Nullary.Proofs.Files.Path
import Nullary.Proofs.Files.Workspace

/-
  Trees whose directories hold entries under names of their
  own.

  In such a tree the path of a directory with the name of an
  entry after it leads to that entry, and so does every way
  down from a directory.

  Main declarations:
    * `FilePath.IsEntryName`
    * `FileTree.Proper`
    * `FileTree.Proper.of_at?`
    * `FilePath.parts_join`
    * `Workspace.resolve_join`
-/

namespace Nullary

------------------------------------------------------------
-- Names of Entries
------------------------------------------------------------

namespace FilePath

variable {name : String}

/- A name that an entry of a directory can have. -/
def IsEntryName
    (name : String) : Prop :=
  name ≠ "" ∧ name ≠ "." ∧ name ≠ ".." ∧ '/' ∉ name.toList

instance
    (name : String) :
    Decidable (IsEntryName name) :=
  inferInstanceAs (Decidable (_ ∧ _))

theorem IsEntryName.ofPart?
    (hName : IsEntryName name) :
    PathComponent.ofPart? name = some (.name name) := by
  rcases hName with ⟨hEmpty, hDot, hDots, _⟩
  unfold PathComponent.ofPart?
  split
  · exact absurd rfl hEmpty
  · exact absurd rfl hDot
  · exact absurd rfl hDots
  · rfl

/-
  The name of an entry is the last part of its path.  A slash
  at the end of the path of the directory is used for it.
-/
theorem parts_join
    (p : FilePath)
    (hName : IsEntryName name) :
    (p.join name).parts = p.parts ++ [name] ∨
      ∃ before, p.parts = before ++ [""] ∧
        (p.join name).parts = before ++ [name] := by
  have hSingle : name.toList.splitOn '/' = [name.toList] :=
    List.splitOn_eq_singleton hName.2.2.2
  unfold join
  split
  · next hSlash =>
      right
      rcases List.getLast?_eq_some_iff.mp hSlash with
        ⟨before, hText⟩
      refine ⟨(before.splitOn '/').map String.ofList, ?_, ?_⟩
      · rw [parts, hText, List.splitOn_append_cons_self,
          List.map_append]
        rfl
      · have hJoined :
            (p.text ++ name).toList =
              before ++ '/' :: name.toList := by
          rw [String.toList_append, hText, List.append_assoc]
          rfl
        rw [parts, hJoined, List.splitOn_append_cons_self,
          List.map_append, hSingle]
        simp
  · left
    have hJoined :
        (p.text ++ "/" ++ name).toList =
          p.text.toList ++ '/' :: name.toList := by
      rw [String.toList_append, String.toList_append,
        List.append_assoc]
      rfl
    rw [parts, hJoined, List.splitOn_append_cons_self,
      List.map_append, hSingle, parts]
    simp

theorem text_join_ne_empty
    (p : FilePath)
    (hName : IsEntryName name) :
    (p.join name).text ≠ "" := by
  unfold join
  split <;> simp [hName.1]

theorem isAbsolute_join
    (p : FilePath)
    (name : String)
    (hText : p.text ≠ "") :
    (p.join name).isAbsolute = p.isAbsolute := by
  have hChars : p.text.toList ≠ [] := by
    simpa using hText
  unfold join isAbsolute
  split
  · rw [String.toList_append, List.head?_append_of_ne_nil _ hChars]
  · rw [String.toList_append, String.toList_append,
      List.append_assoc, List.head?_append_of_ne_nil _ hChars]

end FilePath

------------------------------------------------------------
-- Proper Trees
------------------------------------------------------------

namespace FileTree

/-
  A tree that files can be kept in: the entries of each
  directory are told apart by names that can be written in a
  path.
-/
inductive Proper : FileTree → Prop
  | file (content : ByteArray) : Proper (.file content)
  | directory
      {entries : List (String × FileTree)}
      (hDistinct : (entries.map Prod.fst).Nodup)
      (hNames : ∀ entry ∈ entries, FilePath.IsEntryName entry.1)
      (hEntries : ∀ entry ∈ entries, Proper entry.2) :
      Proper (.directory entries)

/- An entry is what its name stands for. -/
theorem child?_of_mem
    {entries : List (String × FileTree)}
    (hDistinct : (entries.map Prod.fst).Nodup)
    {name : String}
    {tree : FileTree}
    (hEntry : (name, tree) ∈ entries) :
    child? entries name = some tree := by
  induction entries with
  | nil => cases hEntry
  | cons first rest ih =>
      rw [List.map_cons, List.nodup_cons] at hDistinct
      rcases List.mem_cons.mp hEntry with hFirst | hRest
      · subst hFirst
        simp [child?]
      · have hOther : first.1 ≠ name := by
          rintro rfl
          exact hDistinct.1 (List.mem_map.mpr ⟨_, hRest, rfl⟩)
        simpa [child?, hOther] using ih hDistinct.2 hRest

namespace Proper

variable {tree child : FileTree}
variable {entries : List (String × FileTree)}
variable {name : String}

theorem mem_of_child?
    (hChild : child? entries name = some child) :
    (name, child) ∈ entries := by
  rcases Option.map_eq_some_iff.mp hChild with
    ⟨entry, hFind, rfl⟩
  have hName : entry.1 = name := by
    simpa using List.find?_some hFind
  rw [← hName]
  exact List.mem_of_find?_eq_some hFind

/- Every tree inside a proper one is proper. -/
theorem of_at?
    (hProper : tree.Proper)
    {names : List String}
    (hAt : tree.at? names = some child) :
    child.Proper := by
  induction names generalizing tree with
  | nil =>
      rw [at?_nil, Option.some.injEq] at hAt
      exact hAt ▸ hProper
  | cons name rest ih =>
      cases hProper with
      | file content => cases hAt
      | directory hDistinct hNames hEntries =>
          rw [at?_cons_directory] at hAt
          rcases Option.bind_eq_some_iff.mp hAt with
            ⟨below, hChild, hBelow⟩
          exact ih (hEntries _ (mem_of_child? hChild)) hBelow

end Proper

end FileTree

------------------------------------------------------------
-- Paths of Entries
------------------------------------------------------------

namespace Workspace

variable {w : Workspace}
variable {p : FilePath}
variable {place : List String}
variable {entries : List (String × FileTree)}

/- A name leads from a directory to the entry of that name. -/
theorem follow_name
    (hDirectory : w.at? place = some (.directory entries))
    {name : String}
    (hName : FilePath.IsEntryName name)
    {tree : FileTree}
    (hChild : FileTree.child? entries name = some tree) :
    w.follow place [name] = .ok (place ++ [name]) := by
  have hNext : nextPlace place name = place ++ [name] := by
    rw [nextPlace, hName.ofPart?]
  rw [follow_cons_eq_ok_iff, hNext]
  refine ⟨contentAt_eq_isDirectory_iff.mpr ⟨entries, hDirectory⟩,
    ?_, rfl⟩
  rw [ne_eq, contentAt_eq_missing_iff, at?_snoc hDirectory, hChild]
  exact Option.some_ne_none tree

/- A slash at the end of a path leads nowhere else. -/
theorem follow_of_slash
    {names before : List String}
    (hFollow : w.follow names (before ++ [""]) = .ok place) :
    w.follow names before = .ok place := by
  rcases follow_append_eq_ok_iff.mp hFollow with
    ⟨next, hBefore, hSlash⟩
  rcases follow_cons_eq_ok_iff.mp hSlash with ⟨_, _, hSame⟩
  have hNext : nextPlace next "" = next := rfl
  rw [hNext, follow, Except.ok.injEq] at hSame
  rw [hBefore, hSame]

theorem resolve_join
    (hResolve : w.resolve p = .ok place)
    (hDirectory : w.at? place = some (.directory entries))
    {name : String}
    (hName : FilePath.IsEntryName name)
    {tree : FileTree}
    (hChild : FileTree.child? entries name = some tree) :
    w.resolve (p.join name) = .ok (place ++ [name]) := by
  have hLast := follow_name hDirectory hName hChild
  unfold resolve at hResolve ⊢
  by_cases hText : p.text = ""
  · rw [if_pos hText] at hResolve
    cases hResolve
  · rw [if_neg hText] at hResolve
    rw [if_neg (p.text_join_ne_empty hName), origin,
      p.isAbsolute_join name hText]
    rcases p.parts_join hName with hParts | ⟨before, hSlash, hParts⟩
    · rw [hParts, follow_append_eq_ok_iff]
      exact ⟨place, hResolve, hLast⟩
    · rw [hSlash] at hResolve
      rw [hParts, follow_append_eq_ok_iff]
      exact ⟨place, follow_of_slash hResolve, hLast⟩

end Workspace

end Nullary
