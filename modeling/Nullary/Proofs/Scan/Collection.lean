import Nullary.Proofs.Files.Path
import Nullary.Proofs.Files.Workspace
import Nullary.Scan.Basic

/-
  The source files that are found below some roots.

  They are those to which a way leads from a root on which no
  directory is left out, each of them once and in the order of
  paths.  Only a root that does not exist is an error.

  Main declarations:
    * `FilePath.pairwise_ordered`
    * `FilePath.mem_keys_ordered`
    * `FileTree.Reaches`
    * `FileTree.mem_files_iff`
    * `Scanner.Finds`
    * `Scanner.collect_finds`
-/

namespace Nullary

------------------------------------------------------------
-- Ordered Paths
------------------------------------------------------------

namespace FilePath

variable {p q : FilePath}
variable {paths : List FilePath}

theorem mem_of_mem_insertNew
    (hMem : q ∈ insertNew p paths) :
    q = p ∨ q ∈ paths := by
  fun_induction insertNew p paths with
  | case1 => simpa using hMem
  | case2 first rest hLess => simpa using hMem
  | case3 first rest hLess hSame =>
      rcases List.mem_cons.mp hMem with hFirst | hRest
      · exact Or.inl hFirst
      · exact Or.inr (List.mem_cons_of_mem first hRest)
  | case4 first rest hLess hSame ih =>
      rcases List.mem_cons.mp hMem with hFirst | hRest
      · exact Or.inr (hFirst ▸ List.mem_cons_self)
      · rcases ih hRest with hNew | hOld
        · exact Or.inl hNew
        · exact Or.inr (List.mem_cons_of_mem first hOld)

/- Equal paths count as one. -/
theorem mem_keys_insertNew
    {k : List (List Nat)} :
    k ∈ (insertNew p paths).map key ↔
      k = p.key ∨ k ∈ paths.map key := by
  fun_induction insertNew p paths with
  | case1 => simp
  | case2 first rest hLess => simp
  | case3 first rest hLess hSame => simp [hSame]
  | case4 first rest hLess hSame ih =>
      rw [List.map_cons, List.mem_cons, ih, List.map_cons,
        List.mem_cons]
      exact or_left_comm

theorem pairwise_insertNew
    (hOrdered : paths.Pairwise (·.key < ·.key)) :
    (insertNew p paths).Pairwise (·.key < ·.key) := by
  fun_induction insertNew p paths with
  | case1 => exact List.pairwise_singleton _ p
  | case2 first rest hLess =>
      refine List.pairwise_cons.mpr ⟨?_, hOrdered⟩
      intro other hOther
      rcases List.mem_cons.mp hOther with rfl | hRest
      · exact hLess
      · exact hLess.trans
          ((List.pairwise_cons.mp hOrdered).1 other hRest)
  | case3 first rest hLess hSame =>
      rcases List.pairwise_cons.mp hOrdered with ⟨hFirst, hRest⟩
      exact List.pairwise_cons.mpr
        ⟨fun other hOther => hSame ▸ hFirst other hOther, hRest⟩
  | case4 first rest hLess hSame ih =>
      rcases List.pairwise_cons.mp hOrdered with ⟨hFirst, hRest⟩
      refine List.pairwise_cons.mpr ⟨?_, ih hRest⟩
      intro other hOther
      rcases mem_of_mem_insertNew hOther with rfl | hOld
      · exact lt_of_le_of_ne (not_lt.mp hLess) (Ne.symm hSame)
      · exact hFirst other hOld

theorem mem_of_mem_ordered
    (hMem : q ∈ ordered paths) :
    q ∈ paths := by
  induction paths with
  | nil => exact hMem
  | cons p rest ih =>
      rcases mem_of_mem_insertNew hMem with rfl | hRest
      · exact List.mem_cons_self
      · exact List.mem_cons_of_mem p (ih hRest)

theorem mem_keys_ordered
    {k : List (List Nat)} :
    k ∈ (ordered paths).map key ↔ k ∈ paths.map key := by
  induction paths with
  | nil => exact Iff.rfl
  | cons p rest ih =>
      unfold ordered at ih ⊢
      rw [List.foldr_cons, mem_keys_insertNew, ih, List.map_cons,
        List.mem_cons]

theorem pairwise_ordered
    (paths : List FilePath) :
    (ordered paths).Pairwise (·.key < ·.key) := by
  induction paths with
  | nil => exact List.Pairwise.nil
  | cons p rest ih => exact pairwise_insertNew ih

theorem mem_components_ordered
    {c : List PathComponent} :
    c ∈ (ordered paths).map components ↔
      c ∈ paths.map components := by
  constructor
  · intro hMem
    rcases List.mem_map.mp hMem with ⟨p, hPath, hComponents⟩
    exact List.mem_map.mpr
      ⟨p, mem_of_mem_ordered hPath, hComponents⟩
  · intro hMem
    rcases List.mem_map.mp hMem with ⟨p, hPath, rfl⟩
    have hKey : p.key ∈ (ordered paths).map key :=
      mem_keys_ordered.mpr (List.mem_map_of_mem hPath)
    rcases List.mem_map.mp hKey with ⟨q, hOrdered, hSame⟩
    exact List.mem_map.mpr
      ⟨q, hOrdered, (q.key_eq_key_iff p).mp hSame⟩

theorem keys_ordered_congr
    {others : List FilePath}
    (hSame : ∀ p, p ∈ paths ↔ p ∈ others) :
    (ordered paths).map key = (ordered others).map key := by
  have hPairwise (found : List FilePath) :
      ((ordered found).map key).Pairwise (· < ·) :=
    List.pairwise_map.mpr (pairwise_ordered found)
  have hNodup (found : List FilePath) :
      ((ordered found).map key).Nodup :=
    (hPairwise found).imp fun hLess => ne_of_lt hLess
  refine List.Perm.eq_of_pairwise ?_ (hPairwise paths)
    (hPairwise others) ?_
  · exact fun a b _ _ hLess hMore => absurd hMore (lt_asymm hLess)
  · rw [List.perm_ext_iff_of_nodup (hNodup paths) (hNodup others)]
    intro k
    rw [mem_keys_ordered, mem_keys_ordered, List.mem_map,
      List.mem_map]
    simp only [hSame]

/- Ordered paths are determined by the paths that are among them. -/
theorem components_ordered_congr
    {others : List FilePath}
    (hSame : ∀ p, p ∈ paths ↔ p ∈ others) :
    (ordered paths).map components =
      (ordered others).map components := by
  have hMap (found : List FilePath) :
      found.map key =
        (found.map components).map (List.map PathComponent.key) := by
    rw [List.map_map]
    rfl
  have hKeys := keys_ordered_congr hSame
  rw [hMap, hMap] at hKeys
  exact List.map_injective_iff.mpr
    (List.map_injective_iff.mpr PathComponent.key_injective) hKeys

end FilePath

------------------------------------------------------------
-- Ways through a Tree
------------------------------------------------------------

namespace FileTree

/-
  The names on a way through a tree to a file lead through
  entries of directories.  None of the directories below the
  tree itself is left out.
-/
inductive Reaches
    (LeftOut : String → Prop) : FileTree → List String → Prop
  | file (content : ByteArray) :
      Reaches LeftOut (.file content) []
  | entry
      {entries : List (String × FileTree)}
      {name : String}
      {tree : FileTree}
      {names : List String}
      (hEntry : (name, tree) ∈ entries)
      (hKept : tree.isDirectory = true → ¬ LeftOut name)
      (hBelow : Reaches LeftOut tree names) :
      Reaches LeftOut (.directory entries) (name :: names)

variable {LeftOut : String → Prop}

theorem reaches_file_iff
    {content : ByteArray}
    {names : List String} :
    (FileTree.file content).Reaches LeftOut names ↔ names = [] := by
  constructor
  · intro hReaches
    cases hReaches
    rfl
  · rintro rfl
    exact .file content

theorem reaches_directory_iff
    {entries : List (String × FileTree)}
    {names : List String} :
    (FileTree.directory entries).Reaches LeftOut names ↔
      ∃ name tree below,
        (name, tree) ∈ entries ∧
          (tree.isDirectory = true → ¬ LeftOut name) ∧
          tree.Reaches LeftOut below ∧ names = name :: below := by
  constructor
  · intro hReaches
    cases hReaches with
    | entry hEntry hKept hBelow =>
        exact ⟨_, _, _, hEntry, hKept, hBelow, rfl⟩
  · rintro ⟨name, tree, below, hEntry, hKept, hBelow, rfl⟩
    exact .entry hEntry hKept hBelow

/- The paths below an entry, unless it is left out. -/
theorem mem_kept_iff
    {leavesOut : String → Bool}
    {name : String}
    {tree : FileTree}
    {p : FilePath}
    {paths : List FilePath} :
    p ∈ (if (tree.isDirectory && leavesOut name) = true then []
        else paths) ↔
      (tree.isDirectory = true → ¬ leavesOut name = true) ∧
        p ∈ paths := by
  by_cases hLeft : (tree.isDirectory && leavesOut name) = true
  · rw [if_pos hLeft]
    rw [Bool.and_eq_true] at hLeft
    simp [hLeft.1, hLeft.2]
  · rw [if_neg hLeft]
    rw [Bool.and_eq_true, not_and] at hLeft
    exact (and_iff_right hLeft).symm

mutual

/- The files of a tree are those that ways lead to. -/
theorem mem_files_iff
    (leavesOut : String → Bool)
    (p path : FilePath) :
    ∀ tree : FileTree,
      p ∈ tree.files leavesOut path ↔
        ∃ names, tree.Reaches (leavesOut · = true) names ∧
          p = path.joinAll names
  | .file content => by
      rw [files, List.mem_singleton]
      simp only [reaches_file_iff]
      simp [FilePath.joinAll]
  | .directory entries => by
      rw [files, mem_filesOfEntries_iff leavesOut p path entries]
      simp only [reaches_directory_iff]
      constructor
      · rintro ⟨name, tree, below, hEntry, hKept, hBelow, hPath⟩
        exact ⟨name :: below,
          ⟨name, tree, below, hEntry, hKept, hBelow, rfl⟩, hPath⟩
      · rintro ⟨_, ⟨name, tree, below, hEntry, hKept, hBelow, rfl⟩,
          hPath⟩
        exact ⟨name, tree, below, hEntry, hKept, hBelow, hPath⟩

theorem mem_filesOfEntries_iff
    (leavesOut : String → Bool)
    (p path : FilePath) :
    ∀ entries : List (String × FileTree),
      p ∈ filesOfEntries leavesOut path entries ↔
        ∃ name tree below,
          (name, tree) ∈ entries ∧
            (tree.isDirectory = true → ¬ leavesOut name = true) ∧
            tree.Reaches (leavesOut · = true) below ∧
            p = (path.join name).joinAll below
  | [] => by simp [filesOfEntries]
  | (first, tree) :: rest => by
      rw [filesOfEntries, List.mem_append,
        mem_filesOfEntries_iff leavesOut p path rest]
      constructor
      · rintro (hFirst |
          ⟨name, other, below, hEntry, hKept, hBelow, hPath⟩)
        · rcases mem_kept_iff.mp hFirst with ⟨hKept, hMem⟩
          rcases (mem_files_iff leavesOut p (path.join first)
              tree).mp hMem with
            ⟨below, hBelow, hPath⟩
          exact ⟨first, tree, below, List.mem_cons_self, hKept,
            hBelow, hPath⟩
        · exact ⟨name, other, below,
            List.mem_cons_of_mem _ hEntry, hKept, hBelow, hPath⟩
      · rintro ⟨name, other, below, hEntry, hKept, hBelow, hPath⟩
        rcases List.mem_cons.mp hEntry with hSame | hRest
        · cases hSame
          exact Or.inl (mem_kept_iff.mpr ⟨hKept,
            (mem_files_iff leavesOut p (path.join first)
              tree).mpr ⟨below, hBelow, hPath⟩⟩)
        · exact Or.inr
            ⟨name, other, below, hRest, hKept, hBelow, hPath⟩

end

end FileTree

------------------------------------------------------------
-- Scanners
------------------------------------------------------------

namespace Scanner

variable {s : Scanner}
variable {w : Workspace}
variable {root p : FilePath}

/- The name of a directory that is hidden or excluded. -/
def LeftOut
    (s : Scanner)
    (name : String) : Prop :=
  (∃ rest, name.toList = '.' :: rest) ∨ name ∈ s.exclude

theorem leavesOut_eq_true_iff
    (s : Scanner)
    (name : String) :
    s.leavesOut name = true ↔ s.LeftOut name := by
  unfold leavesOut LeftOut
  rw [Bool.or_eq_true, beq_iff_eq, List.head?_eq_some_iff,
    List.contains_iff_mem]

/-
  A way leads from a root to a source file.  The root itself
  is never left out.
-/
def Finds
    (s : Scanner)
    (w : Workspace)
    (root p : FilePath) : Prop :=
  ∃ place tree names,
    w.resolve root = .ok place ∧ w.at? place = some tree ∧
      tree.Reaches s.LeftOut names ∧ p = root.joinAll names ∧
      p.extension? = some "rs"

/- The source files below a root; none if it does not exist. -/
def below
    (s : Scanner)
    (w : Workspace)
    (root : FilePath) : List FilePath :=
  (s.filesBelow w root).toOption.getD []

theorem filesBelow_of_contains
    (hContains : w.contains root = true) :
    s.filesBelow w root = .ok (s.below w root) := by
  rcases Workspace.contains_eq_true_iff.mp hContains with
    ⟨place, hResolve⟩
  rcases Workspace.exists_at?_of_resolve hResolve with
    ⟨tree, hTree⟩
  simp [below, filesBelow, hResolve, hTree, Except.toOption]

theorem filesBelow_of_not_contains
    (hContains : w.contains root = false) :
    s.filesBelow w root = .error (.rootMissing root) := by
  unfold Workspace.contains at hContains
  unfold filesBelow
  cases hResolve : w.resolve root with
  | error cause => rfl
  | ok place =>
      rw [hResolve] at hContains
      cases hContains

/- They are those that ways lead to. -/
theorem mem_below_iff :
    p ∈ s.below w root ↔ s.Finds w root p := by
  unfold below filesBelow Finds
  cases hResolve : w.resolve root with
  | error cause => simp [Except.toOption]
  | ok place =>
      rcases Workspace.exists_at?_of_resolve hResolve with
        ⟨tree, hTree⟩
      simp only [hTree, Except.toOption, Option.getD_some,
        List.mem_filter, FileTree.mem_files_iff,
        leavesOut_eq_true_iff, FilePath.isSource, beq_iff_eq]
      constructor
      · rintro ⟨⟨names, hReaches, hPath⟩, hSource⟩
        exact ⟨place, tree, names, rfl, hTree, hReaches, hPath,
          hSource⟩
      · rintro ⟨_, _, names, hPlace, hOther, hReaches, hPath,
          hSource⟩
        cases hPlace
        rw [hTree, Option.some.injEq] at hOther
        exact ⟨⟨names, hOther ▸ hReaches, hPath⟩, hSource⟩

/- The paths that are found below some roots, in any spelling. -/
theorem mem_components_iff
    {roots : List FilePath}
    {c : List PathComponent} :
    c ∈ (FilePath.ordered (roots.flatMap (s.below w))).map
          FilePath.components ↔
      ∃ root ∈ roots, ∃ p, s.Finds w root p ∧ p.components = c := by
  rw [FilePath.mem_components_ordered, List.mem_map]
  simp only [List.mem_flatMap, mem_below_iff]
  constructor
  · rintro ⟨p, ⟨root, hRoot, hFinds⟩, hComponents⟩
    exact ⟨root, hRoot, p, hFinds, hComponents⟩
  · rintro ⟨root, hRoot, p, hFinds, hComponents⟩
    exact ⟨p, ⟨root, hRoot, hFinds⟩, hComponents⟩

/- If all roots exist, the files below them are collected. -/
theorem collect_eq_ok
    (hRoots : ∀ root ∈ s.roots, w.contains root = true) :
    s.collect w =
      .ok (FilePath.ordered (s.roots.flatMap (s.below w))) := by
  unfold collect
  rw [mapM_eq_ok fun root hRoot =>
    filesBelow_of_contains (hRoots root hRoot)]
  rfl

theorem collect_withRoots
    (s : Scanner)
    {roots : List FilePath}
    (hRoots : ∀ root ∈ roots, w.contains root = true) :
    (s.withRoots roots).collect w =
      .ok (FilePath.ordered (roots.flatMap (s.below w))) :=
  collect_eq_ok hRoots

/- What is collected from one root alone. -/
theorem exists_alone_iff
    (hRoot : w.contains root = true)
    {c : List PathComponent} :
    (∃ alone,
      (s.withRoots [root]).collect w = .ok alone ∧
        c ∈ alone.map FilePath.components) ↔
      ∃ p, s.Finds w root p ∧ p.components = c := by
  have hAlone :
      (s.withRoots [root]).collect w =
        .ok (FilePath.ordered ([root].flatMap (s.below w))) :=
    s.collect_withRoots (by simpa using hRoot)
  rw [hAlone]
  simp only [Except.ok.injEq, exists_eq_left', mem_components_iff,
    List.mem_singleton, exists_eq_left]

/- The first root that does not exist is an error. -/
theorem collect_eq_error
    {before after : List FilePath}
    (hRoots : s.roots = before ++ root :: after)
    (hBefore : ∀ first ∈ before, w.contains first = true)
    (hMissing : w.contains root = false) :
    s.collect w = .error (.rootMissing root) := by
  unfold collect
  rw [hRoots, mapM_eq_error
    (fun first hFirst =>
      ⟨_, filesBelow_of_contains (hBefore first hFirst)⟩)
    (filesBelow_of_not_contains hMissing)]
  rfl

theorem collect_eq_error_iff
    {failure : Failure} :
    s.collect w = .error failure ↔
      ∃ before root after,
        s.roots = before ++ root :: after ∧
          (∀ first ∈ before, w.contains first = true) ∧
          w.contains root = false ∧
          failure = .rootMissing root := by
  constructor
  · intro hError
    cases hFirst : s.roots.find? (!w.contains ·) with
    | none =>
        have hAll : ∀ root ∈ s.roots, w.contains root = true := by
          simpa using hFirst
        rw [collect_eq_ok hAll] at hError
        cases hError
    | some root =>
        rcases List.find?_eq_some_iff_append.mp hFirst with
          ⟨hMissing, before, after, hRoots, hBefore⟩
        have hMissing : w.contains root = false := by
          simpa using hMissing
        have hBefore :
            ∀ first ∈ before, w.contains first = true := by
          simpa using hBefore
        rw [collect_eq_error hRoots hBefore hMissing,
          Except.error.injEq] at hError
        exact ⟨before, root, after, hRoots, hBefore, hMissing,
          hError.symm⟩
  · rintro ⟨before, root, after, hRoots, hBefore, hMissing, rfl⟩
    exact collect_eq_error hRoots hBefore hMissing

/-
  The search fails with the first root that does not exist.
  If there is none, it gives the source files that ways lead
  to from the roots, each once and in order.  The order and
  the repetition of the roots do not matter.
-/
theorem collect_finds
    (s : Scanner)
    (w : Workspace) :
    (∀ failure,
      s.collect w = .error failure ↔
        ∃ before root after,
          s.roots = before ++ root :: after ∧
            (∀ first ∈ before, w.contains first = true) ∧
            w.contains root = false ∧
            failure = .rootMissing root) ∧
      ((∀ root ∈ s.roots, w.contains root = true) →
        ∃ found,
          s.collect w = .ok found ∧
            found.Pairwise FilePath.Precedes ∧
            (found.map FilePath.components).Nodup ∧
            (∀ p ∈ found, ∃ root ∈ s.roots, s.Finds w root p) ∧
            (∀ root ∈ s.roots, ∀ p, s.Finds w root p →
              ∃ q ∈ found, q.components = p.components) ∧
            (∀ c, c ∈ found.map FilePath.components ↔
              ∃ root ∈ s.roots, ∃ alone,
                (s.withRoots [root]).collect w = .ok alone ∧
                  c ∈ alone.map FilePath.components) ∧
            ∀ roots, (∀ root, root ∈ roots ↔ root ∈ s.roots) →
              ∃ others,
                (s.withRoots roots).collect w = .ok others ∧
                  others.map FilePath.components =
                    found.map FilePath.components) := by
  refine ⟨fun failure => collect_eq_error_iff, ?_⟩
  intro hRoots
  refine ⟨_, collect_eq_ok hRoots, ?_, ?_, ?_, ?_, ?_, ?_⟩
  · exact (FilePath.pairwise_ordered _).imp
      (FilePath.key_lt_key_iff _ _).mp
  · refine List.pairwise_map.mpr
      ((FilePath.pairwise_ordered _).imp ?_)
    intro p q hLess hSame
    exact absurd ((p.key_eq_key_iff q).mpr hSame) (ne_of_lt hLess)
  · intro p hPath
    rcases List.mem_flatMap.mp
        (FilePath.mem_of_mem_ordered hPath) with
      ⟨root, hRoot, hBelow⟩
    exact ⟨root, hRoot, mem_below_iff.mp hBelow⟩
  · intro root hRoot p hFinds
    exact List.mem_map.mp
      (mem_components_iff.mpr ⟨root, hRoot, p, hFinds, rfl⟩)
  · intro c
    rw [mem_components_iff]
    apply exists_congr
    intro root
    apply and_congr_right
    intro hRoot
    exact (exists_alone_iff (hRoots root hRoot)).symm
  · intro roots hSame
    refine ⟨_, s.collect_withRoots ?_, ?_⟩
    · exact fun root hRoot => hRoots root ((hSame root).mp hRoot)
    · apply FilePath.components_ordered_congr
      intro p
      simp only [List.mem_flatMap, hSame]

/- A directory of sources with one below it and a hidden one. -/
def nestedWorkspace : Workspace :=
  ⟨.directory [("src", .directory [
      ("b.rs", .file .empty),
      (".git", .directory [("c.rs", .file .empty)]),
      ("a", .directory [("d.rs", .file .empty)])])],
    []⟩

/- Roots that overlap and are repeated, and a root that is missing. -/
theorem collect_finds_nested :
    (∀ root ∈ [⟨"src"⟩, ⟨"src/a"⟩, ⟨"src/"⟩],
        nestedWorkspace.contains root = true) ∧
      (∃ found,
        collect ⟨[⟨"src"⟩, ⟨"src/a"⟩, ⟨"src/"⟩], ["target"], []⟩
            nestedWorkspace = .ok found ∧
          found.Pairwise FilePath.Precedes ∧
          ∀ p ∈ found,
            ∃ root ∈ [⟨"src"⟩, ⟨"src/a"⟩, ⟨"src/"⟩],
              Finds ⟨[⟨"src"⟩, ⟨"src/a"⟩, ⟨"src/"⟩], ["target"], []⟩
                nestedWorkspace root p) ∧
      collect ⟨[⟨"src"⟩, ⟨"lib"⟩], [], []⟩ nestedWorkspace =
        .error (.rootMissing ⟨"lib"⟩) := by
  have hRoots :
      ∀ root ∈ [⟨"src"⟩, ⟨"src/a"⟩, ⟨"src/"⟩],
        nestedWorkspace.contains root = true := by
    decide +kernel
  refine ⟨hRoots, ?_, ?_⟩
  · rcases (collect_finds
        ⟨[⟨"src"⟩, ⟨"src/a"⟩, ⟨"src/"⟩], ["target"], []⟩
        nestedWorkspace).2 hRoots with
      ⟨found, hFound, hOrdered, _, hFinds, _⟩
    exact ⟨found, hFound, hOrdered, hFinds⟩
  · exact ((collect_finds ⟨[⟨"src"⟩, ⟨"lib"⟩], [], []⟩
      nestedWorkspace).1 _).mpr
        ⟨[⟨"src"⟩], ⟨"lib"⟩, [], rfl, by decide +kernel,
          by decide +kernel, rfl⟩

/- Each file is found once, and the hidden one is not. -/
example :
    (collect ⟨[⟨"src"⟩, ⟨"src/a"⟩, ⟨"src/"⟩], ["target"], []⟩
        nestedWorkspace).toOption =
      some [⟨"src/a/d.rs"⟩, ⟨"src/b.rs"⟩] := by
  decide +kernel

end Scanner

end Nullary
