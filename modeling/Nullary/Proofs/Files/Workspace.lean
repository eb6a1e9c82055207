import Nullary.Files.Workspace
import Nullary.Proofs.Steps

/-
  Where paths lead, and what the writing of a file changes.

  There is nothing at a place, or a directory, or a file with
  its content; `Workspace.contentAt` tells them apart.  Where
  a path leads depends on this alone.  A file that is written
  changes it for one place, and there is no directory at that
  place before.

  Main declarations:
    * `FileTree.at?_append`
    * `FileTree.contentOf_at?_put`
    * `Workspace.follow_cons_eq_ok_iff`
    * `Workspace.exists_at?_of_resolve`
    * `Workspace.ChangedAt`
    * `Workspace.ChangedAt.follow_eq_ok`
    * `Workspace.changedAt_of_write`
-/

namespace Nullary

------------------------------------------------------------
-- Places in a Tree
------------------------------------------------------------

namespace FileTree

@[simp] theorem at?_nil
    (tree : FileTree) :
    tree.at? [] = some tree := by
  cases tree <;> rfl

@[simp] theorem at?_cons_file
    (name : String)
    (names : List String)
    (content : ByteArray) :
    (FileTree.file content).at? (name :: names) = none :=
  rfl

@[simp] theorem at?_cons_directory
    (name : String)
    (names : List String)
    (entries : List (String × FileTree)) :
    (FileTree.directory entries).at? (name :: names) =
      (child? entries name).bind (at? names) := by
  rw [at?]
  cases child? entries name <;> rfl

theorem at?_append
    (tree : FileTree)
    (names more : List String) :
    tree.at? (names ++ more) =
      (tree.at? names).bind (at? more) := by
  induction names generalizing tree with
  | nil => simp
  | cons name rest ih =>
      cases tree with
      | file content => simp
      | directory entries =>
          rw [List.cons_append, at?_cons_directory,
            at?_cons_directory]
          cases child? entries name with
          | none => rfl
          | some child => exact ih child

theorem child?_setEntry_self
    (name : String)
    (tree : FileTree)
    (entries : List (String × FileTree)) :
    child? (setEntry name tree entries) name = some tree := by
  induction entries with
  | nil => simp [setEntry, child?]
  | cons entry rest ih =>
      rw [setEntry]
      split
      · simp [child?]
      · next hNe => simpa [child?, hNe] using ih

theorem child?_setEntry_of_ne
    {name other : String}
    (hNe : other ≠ name)
    (tree : FileTree)
    (entries : List (String × FileTree)) :
    child? (setEntry name tree entries) other =
      child? entries other := by
  induction entries with
  | nil => simp [setEntry, child?, hNe.symm]
  | cons entry rest ih =>
      rw [setEntry]
      split
      · next hName => simp [child?, hName, hNe.symm]
      · by_cases hOther : entry.1 = other
        · simp [child?, hOther]
        · simpa [child?, hOther] using ih

/- What reading makes of a tree, or of nothing. -/
def contentOf : Option FileTree → Except FileError ByteArray
  | none => .error .missing
  | some (.file content) => .ok content
  | some (.directory _) => .error .isDirectory

/- A tree that is put into a directory is there. -/
theorem at?_put_self
    {tree : FileTree}
    {names : List String}
    {entries : List (String × FileTree)}
    (hDirectory : tree.at? names = some (.directory entries))
    (name : String)
    (new : FileTree) :
    (tree.put (names ++ [name]) new).at? (names ++ [name]) =
      some new := by
  induction names generalizing tree with
  | nil =>
      rw [at?_nil, Option.some.injEq] at hDirectory
      subst hDirectory
      simp [put, child?_setEntry_self]
  | cons first rest ih =>
      cases tree with
      | file content => cases hDirectory
      | directory above =>
          rw [at?_cons_directory] at hDirectory
          rcases Option.bind_eq_some_iff.mp hDirectory with
            ⟨child, hChild, hBelow⟩
          simp [put, child?_setEntry_self, hChild, ih hBelow]

/-
  A file that is put into a directory, in the place of
  nothing or of another file, leaves all other places as they
  are.
-/
theorem contentOf_at?_put
    {tree : FileTree}
    {names : List String}
    {entries : List (String × FileTree)}
    (hDirectory : tree.at? names = some (.directory entries))
    {name : String}
    (hName : ∀ below, child? entries name ≠ some (.directory below))
    (content : ByteArray)
    {other : List String}
    (hOther : other ≠ names ++ [name]) :
    contentOf ((tree.put (names ++ [name]) (.file content)).at? other) =
      contentOf (tree.at? other) := by
  induction names generalizing tree other with
  | nil =>
      rw [at?_nil, Option.some.injEq] at hDirectory
      subst hDirectory
      cases other with
      | nil => simp [put, contentOf]
      | cons first rest =>
          by_cases hFirst : first = name
          · subst hFirst
            -- There is nothing below a file, the new or the old one.
            cases rest with
            | nil => exact absurd rfl hOther
            | cons second rest =>
                cases hChild : child? entries first with
                | none => simp [put, child?_setEntry_self, hChild]
                | some child =>
                    cases child with
                    | file old =>
                        simp [put, child?_setEntry_self, hChild]
                    | directory below =>
                        exact absurd hChild (hName below)
          · simp [put, child?_setEntry_of_ne hFirst]
  | cons first rest ih =>
      cases tree with
      | file content => cases hDirectory
      | directory above =>
          rw [at?_cons_directory] at hDirectory
          rcases Option.bind_eq_some_iff.mp hDirectory with
            ⟨child, hChild, hBelow⟩
          cases other with
          | nil => simp [put, contentOf]
          | cons second others =>
              by_cases hSecond : second = first
              · subst hSecond
                have hOthers : others ≠ rest ++ [name] := by
                  intro hEq
                  exact hOther (congrArg (second :: ·) hEq)
                simpa [put, child?_setEntry_self, hChild] using
                  ih hBelow hOthers
              · simp [put, child?_setEntry_of_ne hSecond]

end FileTree

------------------------------------------------------------
-- Places in a Workspace
------------------------------------------------------------

theorem FilePath.parts_ne_nil
    (p : FilePath) :
    p.parts ≠ [] := by
  unfold parts
  rw [ne_eq, List.map_eq_nil_iff]
  exact List.splitOn_ne_nil _ _

/- Nothing is dropped from a path that does not end in a slash. -/
theorem FilePath.parts_eq_of_dropWhile
    (p : FilePath)
    (hSlash : ¬ p.parts.getLast? = some "")
    {last : String}
    {before : List String}
    (hParts :
      p.parts.reverse.dropWhile (· == "") = last :: before) :
    p.parts = before.reverse ++ [last] := by
  have hReverse : p.parts.reverse = last :: before := by
    cases hBackwards : p.parts.reverse with
    | nil =>
        rw [hBackwards] at hParts
        cases hParts
    | cons part rest =>
        have hLast : p.parts.getLast? = some part := by
          rw [← List.head?_reverse, hBackwards]
          rfl
        have hPart : part ≠ "" := by
          rintro rfl
          exact hSlash hLast
        rw [hBackwards] at hParts
        simpa [hPart] using hParts
  rw [← List.reverse_cons, ← hReverse, List.reverse_reverse]

namespace Workspace

variable {w w' : Workspace}
variable {names : List String}
variable {content : ByteArray}
variable {p : FilePath}

theorem contentAt_eq
    (w : Workspace)
    (names : List String) :
    w.contentAt names = FileTree.contentOf (w.at? names) := by
  unfold contentAt
  cases w.at? names with
  | none => rfl
  | some tree => cases tree <;> rfl

theorem contentAt_eq_ok_iff :
    w.contentAt names = .ok content ↔
      w.at? names = some (.file content) := by
  rw [contentAt_eq]
  cases w.at? names with
  | none => simp [FileTree.contentOf]
  | some tree => cases tree <;> simp [FileTree.contentOf]

theorem contentAt_eq_isDirectory_iff :
    w.contentAt names = .error .isDirectory ↔
      ∃ entries, w.at? names = some (.directory entries) := by
  rw [contentAt_eq]
  cases w.at? names with
  | none => simp [FileTree.contentOf]
  | some tree => cases tree <;> simp [FileTree.contentOf]

theorem contentAt_eq_missing_iff :
    w.contentAt names = .error .missing ↔ w.at? names = none := by
  rw [contentAt_eq]
  cases w.at? names with
  | none => simp [FileTree.contentOf]
  | some tree => cases tree <;> simp [FileTree.contentOf]

theorem text_of_content
    {file : FilePath}
    (hFile : w.content file = .ok content) :
    w.text file = FileTree.decode content := by
  rw [text, hFile, ok_bind]

theorem text_of_fromUTF8?
    {file : FilePath}
    {text : String}
    (hFile : w.content file = .ok content)
    (hText : String.fromUTF8? content = some text) :
    w.text file = .ok text := by
  rw [text_of_content hFile, FileTree.decode, hText]

theorem entriesAt_eq_ok_iff
    {entries : List (String × FileTree)} :
    w.entriesAt names = .ok entries ↔
      w.at? names = some (.directory entries) := by
  unfold entriesAt
  cases w.at? names with
  | none => simp
  | some tree => cases tree <;> simp

theorem at?_snoc
    {entries : List (String × FileTree)}
    (hDirectory : w.at? names = some (.directory entries))
    (name : String) :
    w.at? (names ++ [name]) = FileTree.child? entries name := by
  unfold at? at hDirectory ⊢
  rw [FileTree.at?_append, hDirectory]
  cases hChild : FileTree.child? entries name <;> simp [hChild]

/- Only a directory has something in it. -/
theorem isDirectory_of_at?_snoc
    {name : String}
    (hThere : w.at? (names ++ [name]) ≠ none) :
    w.contentAt names = .error .isDirectory := by
  rw [contentAt_eq_isDirectory_iff]
  unfold at? at hThere ⊢
  rw [FileTree.at?_append] at hThere
  cases hTree : w.root.at? names with
  | none =>
      rw [hTree] at hThere
      exact absurd rfl hThere
  | some tree =>
      cases tree with
      | file content =>
          rw [hTree] at hThere
          exact absurd rfl hThere
      | directory entries => exact ⟨entries, rfl⟩

/- What holds a place is there. -/
theorem at?_dropLast_ne_none
    (hThere : w.at? names ≠ none) :
    w.at? names.dropLast ≠ none := by
  intro hNone
  by_cases hNil : names = []
  · subst hNil
    exact hThere hNone
  · apply hThere
    unfold at? at hNone ⊢
    rw [← List.dropLast_concat_getLast hNil, FileTree.at?_append,
      hNone]
    rfl

------------------------------------------------------------
-- Following a Path
------------------------------------------------------------

/- The place after one part of a path. -/
def nextPlace
    (names : List String)
    (part : String) : List String :=
  match PathComponent.ofPart? part with
  | some (.name name) => names ++ [name]
  | some .parent => names.dropLast
  | _ => names

/-
  A path is followed from a directory to a place where there
  is something, and on from there.
-/
theorem follow_cons_eq_ok_iff
    {part : String}
    {rest place : List String} :
    w.follow names (part :: rest) = .ok place ↔
      w.contentAt names = .error .isDirectory ∧
        w.contentAt (nextPlace names part) ≠ .error .missing ∧
        w.follow (nextPlace names part) rest = .ok place := by
  rw [follow, bind_eq_ok_iff, contentAt_eq_isDirectory_iff, ne_eq,
    contentAt_eq_missing_iff]
  simp only [entriesAt_eq_ok_iff]
  rw [← exists_and_right]
  apply exists_congr
  intro entries
  apply and_congr_right
  intro hDirectory
  have hThere : w.at? names ≠ none := by simp [hDirectory]
  have hAbove := at?_dropLast_ne_none hThere
  unfold nextPlace
  rcases PathComponent.ofPart? part with _ | (_ | _ | _ | name)
  case some.name =>
    cases hChild : FileTree.child? entries name <;>
      simp [at?_snoc hDirectory, hChild]
  all_goals simp [hThere, hAbove]

theorem follow_append_eq_ok_iff
    {parts more place : List String} :
    w.follow names (parts ++ more) = .ok place ↔
      ∃ next, w.follow names parts = .ok next ∧
        w.follow next more = .ok place := by
  induction parts generalizing names with
  | nil => simp [follow]
  | cons part rest ih =>
      simp only [List.cons_append, follow_cons_eq_ok_iff, ih]
      constructor
      · rintro ⟨hDirectory, hThere, next, hRest, hMore⟩
        exact ⟨next, ⟨hDirectory, hThere, hRest⟩, hMore⟩
      · rintro ⟨next, ⟨hDirectory, hThere, hRest⟩, hMore⟩
        exact ⟨hDirectory, hThere, next, hRest, hMore⟩

/- Something is at the place that a path leads to. -/
theorem at?_ne_none_of_follow
    {parts place : List String}
    (hParts : parts ≠ [])
    (hFollow : w.follow names parts = .ok place) :
    w.at? place ≠ none := by
  induction parts generalizing names with
  | nil => exact absurd rfl hParts
  | cons part rest ih =>
      rcases follow_cons_eq_ok_iff.mp hFollow with
        ⟨_, hThere, hRest⟩
      by_cases hNil : rest = []
      · subst hNil
        rw [follow, Except.ok.injEq] at hRest
        subst hRest
        rwa [ne_eq, contentAt_eq_missing_iff] at hThere
      · exact ih hNil hRest

theorem contains_eq_true_iff :
    w.contains p = true ↔ ∃ place, w.resolve p = .ok place := by
  unfold contains
  cases w.resolve p <;> simp

theorem exists_at?_of_resolve
    {place : List String}
    (hResolve : w.resolve p = .ok place) :
    ∃ tree, w.at? place = some tree := by
  unfold resolve at hResolve
  split at hResolve
  · cases hResolve
  · exact Option.ne_none_iff_exists'.mp
      (at?_ne_none_of_follow p.parts_ne_nil hResolve)

------------------------------------------------------------
-- Writing
------------------------------------------------------------

/-
  The workspaces differ in one file, which has a given
  content in the second one and was another file or nothing
  in the first.
-/
structure ChangedAt
    (w w' : Workspace)
    (place : List String)
    (content : ByteArray) : Prop where
  here : w'.here = w.here
  written : w'.contentAt place = .ok content
  others : ∀ names, names ≠ place →
    w'.contentAt names = w.contentAt names
  noDirectory : w.contentAt place ≠ .error .isDirectory

namespace ChangedAt

variable {place : List String}
variable {content : ByteArray}

theorem isDirectory
    (hChanged : w.ChangedAt w' place content)
    (hDirectory : w.contentAt names = .error .isDirectory) :
    w'.contentAt names = .error .isDirectory := by
  by_cases hPlace : names = place
  · subst hPlace
    exact absurd hDirectory hChanged.noDirectory
  · rw [hChanged.others names hPlace, hDirectory]

theorem ne_missing
    (hChanged : w.ChangedAt w' place content)
    (hThere : w.contentAt names ≠ .error .missing) :
    w'.contentAt names ≠ .error .missing := by
  by_cases hPlace : names = place
  · subst hPlace
    rw [hChanged.written]
    exact fun hMissing => nomatch hMissing
  · rw [hChanged.others names hPlace]
    exact hThere

/- A path that led somewhere leads there still. -/
theorem follow_eq_ok
    (hChanged : w.ChangedAt w' place content)
    {parts last : List String}
    (hFollow : w.follow names parts = .ok last) :
    w'.follow names parts = .ok last := by
  induction parts generalizing names with
  | nil => exact hFollow
  | cons part rest ih =>
      rcases follow_cons_eq_ok_iff.mp hFollow with
        ⟨hDirectory, hThere, hRest⟩
      exact follow_cons_eq_ok_iff.mpr
        ⟨hChanged.isDirectory hDirectory,
          hChanged.ne_missing hThere, ih hRest⟩

end ChangedAt

theorem changedAt_of_putFile
    {name : String}
    (hPut : w.putFile names name content = .ok w') :
    w.ChangedAt w' (names ++ [name]) content := by
  rcases bind_eq_ok_iff.mp hPut with ⟨entries, hEntries, hRest⟩
  have hDirectory := entriesAt_eq_ok_iff.mp hEntries
  have hName :
      ∀ below, FileTree.child? entries name ≠
        some (.directory below) := by
    intro below hChild
    rw [hChild] at hRest
    cases hRest
  have hWritten : w.put (names ++ [name]) (.file content) = w' := by
    split at hRest
    · cases hRest
    · exact Except.ok.inj hRest
  subst hWritten
  exact {
    here := rfl
    written := contentAt_eq_ok_iff.mpr
      (FileTree.at?_put_self hDirectory name _)
    others := by
      intro other hOther
      rw [contentAt_eq, contentAt_eq]
      exact FileTree.contentOf_at?_put hDirectory hName content hOther
    noDirectory := by
      rw [ne_eq, contentAt_eq_isDirectory_iff, at?_snoc hDirectory]
      exact fun ⟨below, hBelow⟩ => hName below hBelow }

/-
  A file that is written is then found on its path, and no
  other file is changed.
-/
theorem changedAt_of_write
    (hWrite : w.write p content = .ok w') :
    ∃ place, w.ChangedAt w' place content ∧
      w'.resolve p = .ok place := by
  unfold write at hWrite
  split at hWrite
  · cases hWrite
  next hText =>
  split at hWrite
  · cases hWrite
  next last before hParts =>
  rcases bind_eq_ok_iff.mp hWrite with
    ⟨directory, hFollow, hWrite⟩
  rcases bind_eq_ok_iff.mp hWrite with ⟨entries, hEntries, hWrite⟩
  split at hWrite
  · next name hLast =>
      split at hWrite
      · cases hWrite
      next hSlash =>
      have hChanged := changedAt_of_putFile hWrite
      have hDirectory :
          w.contentAt directory = .error .isDirectory :=
        contentAt_eq_isDirectory_iff.mpr
          ⟨entries, entriesAt_eq_ok_iff.mp hEntries⟩
      have hPlace :
          nextPlace directory last = directory ++ [name] := by
        rw [nextPlace, hLast]
      have hThere :
          w'.contentAt (directory ++ [name]) ≠ .error .missing := by
        rw [hChanged.written]
        exact fun hMissing => nomatch hMissing
      refine ⟨directory ++ [name], hChanged, ?_⟩
      rw [resolve, if_neg hText, origin, hChanged.here,
        p.parts_eq_of_dropWhile hSlash hParts,
        follow_append_eq_ok_iff]
      refine ⟨directory, hChanged.follow_eq_ok hFollow, ?_⟩
      rw [follow_cons_eq_ok_iff, hPlace]
      exact ⟨hChanged.isDirectory hDirectory, hThere, rfl⟩
  · cases hWrite

end Workspace

end Nullary
