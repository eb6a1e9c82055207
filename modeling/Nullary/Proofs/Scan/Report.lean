import Mathlib.Algebra.Ring.Nat
import Nullary.Proofs.Expansion.Verdicts
import Nullary.Proofs.Files.Entries
import Nullary.Proofs.Scan.Collection
import Nullary.Scan.Report

/-
  The report on the source files below some roots.

  Every file that is found is reported on or skipped, in the
  order in which the files are found, and what is said of it
  is what its own expansion says.  There is no report at all
  if the removals in one of the files do not fit.

  Main declarations:
    * `Scanner.exists_content_of_finds`
    * `Scanner.expansion?`
    * `Scanner.Skips`
    * `Scanner.Fits`
    * `Scanner.checkFiles_of_fits`
    * `Scanner.checkFiles_of_not_fits`
    * `ScanReport.Covers`
    * `Scanner.scan_covers`
-/

namespace Nullary

------------------------------------------------------------
-- Files That Can Be Read
------------------------------------------------------------

namespace Scanner

variable {s : Scanner}
variable {w : Workspace}
variable {p root : FilePath}
variable {found : List FilePath}

/- A file that a way leads to can be read. -/
theorem exists_content_of_reaches
    (hProper : w.root.Proper)
    {LeftOut : String → Prop}
    {tree : FileTree}
    {names : List String}
    (hReaches : tree.Reaches LeftOut names)
    {place : List String}
    (hResolve : w.resolve root = .ok place)
    (hTree : w.at? place = some tree) :
    ∃ content, w.content (root.joinAll names) = .ok content := by
  induction hReaches generalizing root place with
  | file content =>
      refine ⟨content, ?_⟩
      rw [Workspace.content, FilePath.joinAll, List.foldl_nil,
        hResolve, ok_bind, Workspace.contentAt_eq_ok_iff, hTree]
  | @entry entries name tree names hEntry hKept hBelow ih =>
      cases hProper.of_at? hTree with
      | directory hDistinct hNames hEntries =>
          have hName := hNames _ hEntry
          have hChild :=
            FileTree.child?_of_mem hDistinct hEntry
          have hJoin :=
            Workspace.resolve_join hResolve hTree hName hChild
          apply ih hJoin
          rw [Workspace.at?_snoc hTree, hChild]

theorem exists_content_of_finds
    (hProper : w.root.Proper)
    (hFinds : s.Finds w root p) :
    ∃ content, w.content p = .ok content := by
  rcases hFinds with
    ⟨place, tree, names, hResolve, hTree, hReaches, rfl, _⟩
  exact exists_content_of_reaches hProper hReaches hResolve hTree

------------------------------------------------------------
-- Single Files
------------------------------------------------------------

/- The expansion of a file by itself. -/
def expansion?
    (s : Scanner)
    (w : Workspace)
    (p : FilePath) : Option Expansion :=
  (w.text p).toOption.bind fun text =>
    (Expansion.ofText s.markers text.toList).toOption

/- A file is not a text, or its text is not a source. -/
def Skips
    (s : Scanner)
    (w : Workspace)
    (p : FilePath) : Prop :=
  ∃ content, w.content p = .ok content ∧
    (String.fromUTF8? content = none ∨
      ∃ text, String.fromUTF8? content = some text ∧
        Expansion.ofText s.markers text.toList =
          .error .unparsed)

/- If a file is a source, the removals in it fit. -/
def Fits
    (s : Scanner)
    (w : Workspace)
    (p : FilePath) : Prop :=
  ∀ text file,
    w.text p = .ok text →
    SourceFile.parse? (dropByteOrderMark text.toList) =
        some file →
    file.RemovalsFit s.markers (dropByteOrderMark text.toList)

/- The report on a file that is a source. -/
def report?
    (s : Scanner)
    (w : Workspace)
    (p : FilePath) : Option FileReport :=
  (s.expansion? w p).map fun e => ⟨p, e.diagnostics, e.expanded⟩

variable {content : ByteArray}
variable {text : String}

/- The expansion of a text fails only for these two reasons. -/
theorem fits_iff_ne_misfit
    (hContent : w.content p = .ok content)
    (hText : String.fromUTF8? content = some text) :
    s.Fits w p ↔
      Expansion.ofText s.markers text.toList ≠ .error .misfit := by
  have hOwn := Workspace.text_of_fromUTF8? hContent hText
  constructor
  · intro hFits hMisfit
    cases hParse :
        SourceFile.parse? (dropByteOrderMark text.toList) with
    | none => simp [Expansion.ofText, hParse] at hMisfit
    | some file =>
        exact (Expansion.ofText_eq_misfit_iff s.markers hParse).mp
          hMisfit (hFits text file hOwn hParse)
  · intro hMisfit other file hOther hParse
    rw [hOwn, Except.ok.injEq] at hOther
    subst hOther
    by_contra hNot
    exact hMisfit
      ((Expansion.ofText_eq_misfit_iff s.markers hParse).mpr hNot)

/- What may become of a file that fits. -/
theorem cases_of_fits
    (hContent : w.content p = .ok content)
    (hFits : s.Fits w p) :
    String.fromUTF8? content = none ∨
      ∃ text, String.fromUTF8? content = some text ∧
        ((∃ e, Expansion.ofText s.markers text.toList = .ok e) ∨
          Expansion.ofText s.markers text.toList =
            .error .unparsed) := by
  cases hText : String.fromUTF8? content with
  | none => exact Or.inl rfl
  | some text =>
      have hMisfit := (fits_iff_ne_misfit hContent hText).mp hFits
      refine Or.inr ⟨text, rfl, ?_⟩
      cases hResult : Expansion.ofText s.markers text.toList with
      | ok e => exact Or.inl ⟨e, rfl⟩
      | error cause =>
          cases cause with
          | unparsed => exact Or.inr rfl
          | misfit => exact absurd hResult hMisfit

theorem checkFile_of_fits
    (hContent : w.content p = .ok content)
    (hFits : s.Fits w p) :
    s.checkFile w p = .ok (s.report? w p) := by
  unfold checkFile report report? expansion?
  rw [Workspace.text_of_content hContent, FileTree.decode]
  rcases cases_of_fits hContent hFits with
    hText | ⟨text, hText, ⟨e, hResult⟩ | hResult⟩
  · simp [hContent, hText, Except.toOption]
  · simp [hContent, hText, hResult, Except.toOption]
  · simp [hContent, hText, hResult, Except.toOption]

theorem checkFile_of_not_fits
    (hContent : w.content p = .ok content)
    (hFits : ¬ s.Fits w p) :
    s.checkFile w p = .error .misfit := by
  cases hText : String.fromUTF8? content with
  | none =>
      refine absurd ?_ hFits
      intro text file hOther
      rw [Workspace.text_of_content hContent, FileTree.decode,
        hText] at hOther
      cases hOther
  | some text =>
      rw [fits_iff_ne_misfit hContent hText, not_not] at hFits
      simp [checkFile, hContent, report, hText, hFits]

/- A file is reported on unless it is skipped. -/
theorem report?_eq_none_iff
    (hContent : w.content p = .ok content)
    (hFits : s.Fits w p) :
    s.report? w p = none ↔ s.Skips w p := by
  unfold report? expansion? Skips
  rw [Workspace.text_of_content hContent, FileTree.decode]
  rcases cases_of_fits hContent hFits with
    hText | ⟨text, hText, ⟨e, hResult⟩ | hResult⟩
  · simp [hContent, hText, Except.toOption]
  · simp [hContent, hText, hResult, Except.toOption]
  · simp [hContent, hText, hResult, Except.toOption]

/- What is reported is what the expansion of the file says. -/
theorem of_report?
    {file : FileReport}
    (hReport : s.report? w p = some file) :
    file.path = p ∧
      ∃ text e, w.text p = .ok text ∧
        Expansion.ofText s.markers text.toList = .ok e ∧
        file.diagnostics = e.diagnostics ∧
        file.expanded = e.expanded := by
  rcases Option.map_eq_some_iff.mp hReport with ⟨e, hOwn, rfl⟩
  rcases Option.bind_eq_some_iff.mp hOwn with
    ⟨text, hText, hResult⟩
  rw [toOption_eq_some_iff] at hText hResult
  exact ⟨rfl, text, e, hText, hResult, rfl, rfl⟩

------------------------------------------------------------
-- Several Files
------------------------------------------------------------

theorem checkFiles_of_fits
    (hContent : ∀ p ∈ found, ∃ content, w.content p = .ok content)
    (hFits : ∀ p ∈ found, s.Fits w p) :
    s.checkFiles w found =
      .ok ⟨found.filterMap (s.report? w),
        found.filter (fun p => (s.report? w p).isNone)⟩ := by
  induction found with
  | nil => rfl
  | cons p rest ih =>
      rw [List.forall_mem_cons] at hContent hFits
      rcases hContent.1 with ⟨content, hFirst⟩
      rw [checkFiles, checkFile_of_fits hFirst hFits.1, ok_bind,
        ih hContent.2 hFits.2, ok_bind]
      cases hReport : s.report? w p with
      | none => simp [ScanReport.add, hReport, pure, Except.pure]
      | some file => simp [ScanReport.add, hReport, pure, Except.pure]

/- The first file whose removals do not fit ends the scan. -/
theorem checkFiles_of_not_fits
    (hContent : ∀ p ∈ found, ∃ content, w.content p = .ok content)
    (hFits : ¬ ∀ p ∈ found, s.Fits w p) :
    s.checkFiles w found = .error .misfit := by
  induction found with
  | nil => simp at hFits
  | cons p rest ih =>
      rw [List.forall_mem_cons] at hContent hFits
      rcases hContent.1 with ⟨content, hFirst⟩
      by_cases hOwn : s.Fits w p
      · have hRest : ¬ ∀ q ∈ rest, s.Fits w q :=
          fun hAll => hFits ⟨hOwn, hAll⟩
        rw [checkFiles, checkFile_of_fits hFirst hOwn, ok_bind,
          ih hContent.2 hRest, error_bind]
      · rw [checkFiles, checkFile_of_not_fits hFirst hOwn,
          error_bind]

/- The files that are found have different components. -/
theorem nodup_components_of_collect
    (hCollect : s.collect w = .ok found)
    (hRoots : ∀ root ∈ s.roots, w.contains root = true) :
    (found.map FilePath.components).Nodup := by
  rw [collect_eq_ok hRoots, Except.ok.injEq] at hCollect
  subst hCollect
  refine List.pairwise_map.mpr
    ((FilePath.pairwise_ordered _).imp ?_)
  intro p q hLess hSame
  rw [← FilePath.key_eq_key_iff] at hSame
  exact lt_irrefl _ (hSame ▸ hLess)

theorem exists_content_of_collect
    (hProper : w.root.Proper)
    (hCollect : s.collect w = .ok found)
    (hRoots : ∀ root ∈ s.roots, w.contains root = true) :
    ∀ p ∈ found, ∃ content, w.content p = .ok content := by
  rw [collect_eq_ok hRoots, Except.ok.injEq] at hCollect
  subst hCollect
  intro p hMem
  rcases List.mem_flatMap.mp (FilePath.mem_of_mem_ordered hMem) with
    ⟨root, _, hBelow⟩
  exact exists_content_of_finds hProper (mem_below_iff.mp hBelow)

end Scanner

------------------------------------------------------------
-- What a Report Says
------------------------------------------------------------

namespace ScanReport

/-
  A report on some files.  Each of them is reported on or
  skipped, in the order of the files, and only those that are
  no sources are skipped.
-/
structure Covers
    (s : Scanner)
    (w : Workspace)
    (found : List FilePath)
    (r : ScanReport) : Prop where
  partition : (r.files.map (·.path) ++ r.skipped).Perm found
  files_sublist : (r.files.map (·.path)).Sublist found
  skipped_sublist : r.skipped.Sublist found
  skips : ∀ p ∈ found, p ∈ r.skipped ↔ s.Skips w p
  states :
    ∀ file ∈ r.files,
      ∃ text e, w.text file.path = .ok text ∧
        Expansion.ofText s.markers text.toList = .ok e ∧
        file.diagnostics = e.diagnostics ∧
        file.expanded = e.expanded

/- The numbers in a report are those of the files together. -/
structure Totals
    (r : ScanReport) : Prop where
  expanded :
    r.expanded = (r.files.map (·.expanded)).sum
  errors :
    r.errors =
      (r.files.map (·.diagnostics.countP Diagnostic.isError)).sum
  warnings :
    r.warnings =
      (r.files.map (·.diagnostics.countP Diagnostic.isWarning)).sum
  diagnostics :
    r.errors + r.warnings = r.diagnostics.length

variable {s : Scanner}
variable {w : Workspace}
variable {found : List FilePath}

theorem paths_filterMap_report?
    (s : Scanner)
    (w : Workspace)
    (found : List FilePath) :
    (found.filterMap (s.report? w)).map (·.path) =
      found.filter (fun p => ! (s.report? w p).isNone) := by
  induction found with
  | nil => rfl
  | cons p rest ih =>
      cases hReport : s.report? w p with
      | none => simp [hReport, ih]
      | some file =>
          have hPath := (Scanner.of_report? hReport).1
          simp [hReport, ih, hPath]

theorem covers_of_fits
    (hContent : ∀ p ∈ found, ∃ content, w.content p = .ok content)
    (hFits : ∀ p ∈ found, s.Fits w p) :
    (⟨found.filterMap (s.report? w),
        found.filter (fun p => (s.report? w p).isNone)⟩ :
      ScanReport).Covers s w found where
  partition := by
    rw [paths_filterMap_report?]
    exact List.perm_append_comm.trans
      (List.filter_append_perm _ found)
  files_sublist := by
    rw [paths_filterMap_report?]
    exact List.filter_sublist
  skipped_sublist := List.filter_sublist
  skips := by
    intro p hMem
    rcases hContent p hMem with ⟨content, hOwn⟩
    rw [List.mem_filter, Option.isNone_iff_eq_none,
      Scanner.report?_eq_none_iff hOwn (hFits p hMem)]
    exact and_iff_right hMem
  states := by
    intro file hFile
    rcases List.mem_filterMap.mp hFile with ⟨p, _, hReport⟩
    rcases Scanner.of_report? hReport with ⟨rfl, hStates⟩
    exact hStates

theorem totals
    (r : ScanReport) :
    r.Totals where
  expanded := by
    unfold ScanReport.expanded
    induction r.files with
    | nil => rfl
    | cons file rest ih => simp [ih]
  errors := List.countP_flatMap
  warnings := List.countP_flatMap
  diagnostics := by
    unfold ScanReport.errors ScanReport.warnings
    rw [List.length_eq_countP_add_countP Diagnostic.isError]
    congr 2
    funext d
    unfold Diagnostic.isError Diagnostic.isWarning
    cases d.severity <;> rfl

end ScanReport

namespace Scanner

/-
  The files below roots that exist can all be read, and they
  are reported on exactly if the removals in each of them
  fit.  The report covers the files that were found.
-/
theorem scan_covers
    (s : Scanner)
    (w : Workspace)
    (hProper : w.root.Proper)
    (hRoots : ∀ root ∈ s.roots, w.contains root = true) :
    ∃ found, s.collect w = .ok found ∧
      (found.map FilePath.components).Nodup ∧
      (∀ p ∈ found, ∃ content, w.content p = .ok content) ∧
      ((∀ p ∈ found, s.Fits w p) →
        ∃ r, s.scan w = .ok r ∧ r.Covers s w found ∧ r.Totals) ∧
      ((¬ ∀ p ∈ found, s.Fits w p) →
        s.scan w = .error .misfit) := by
  have hCollect := collect_eq_ok hRoots
  have hContent :=
    exists_content_of_collect hProper hCollect hRoots
  refine ⟨_, hCollect, nodup_components_of_collect hCollect hRoots,
    hContent, ?_, ?_⟩
  · intro hFits
    refine ⟨_, ?_, ScanReport.covers_of_fits hContent hFits,
      ScanReport.totals _⟩
    rw [scan, hCollect, ok_bind, checkFiles_of_fits hContent hFits]
  · intro hNot
    rw [scan, hCollect, ok_bind,
      checkFiles_of_not_fits hContent hNot]

/- A source, a text that is none, and a file that is no text. -/
def mixedWorkspace : Workspace :=
  ⟨.directory [
      ("b.rs", .file "#[a] pub struct B; #[a] enum C \x7b\x7d".toUTF8),
      ("d", .directory [("e.rs", .file ⟨#[255]⟩)]),
      ("a.rs", .file "pub struct".toUTF8)],
    []⟩

theorem proper_mixedWorkspace :
    mixedWorkspace.root.Proper := by
  refine .directory (by decide) (by decide) ?_
  intro entry hEntry
  simp only [List.mem_cons, List.not_mem_nil, or_false] at hEntry
  rcases hEntry with rfl | rfl | rfl
  · exact .file _
  · refine .directory (by decide) (by decide) ?_
    simpa using .file _
  · exact .file _

/- The source is reported on, and the others are skipped. -/
theorem scan_covers_mixed :
    mixedWorkspace.root.Proper ∧
      mixedWorkspace.contains ⟨"."⟩ = true ∧
      ∃ found r,
        collect ⟨[⟨"."⟩], [], ["a"]⟩ mixedWorkspace = .ok found ∧
          scan ⟨[⟨"."⟩], [], ["a"]⟩ mixedWorkspace = .ok r ∧
          r.Covers ⟨[⟨"."⟩], [], ["a"]⟩ mixedWorkspace found ∧
          r.Totals ∧ r.files.length = 1 ∧ r.skipped.length = 2 ∧
          r.expanded = 1 ∧ r.errors = 1 := by
  have hRoots :
      ∀ root ∈ [⟨"."⟩], mixedWorkspace.contains root = true := by
    decide +kernel
  have hScan :
      (scan ⟨[⟨"."⟩], [], ["a"]⟩ mixedWorkspace).toOption.any
          (fun r => r.files.length == 1 && r.skipped.length == 2 &&
            r.expanded == 1 && r.errors == 1) =
        true := by
    decide +kernel
  rcases (Option.any_eq_true _ _).mp hScan with
    ⟨r, hSome, hCounts⟩
  rw [toOption_eq_some_iff] at hSome
  simp only [Bool.and_eq_true, beq_iff_eq] at hCounts
  rcases hCounts with ⟨⟨⟨hFiles, hSkipped⟩, hExpanded⟩, hErrors⟩
  rcases scan_covers ⟨[⟨"."⟩], [], ["a"]⟩ mixedWorkspace
      proper_mixedWorkspace hRoots with
    ⟨found, hCollect, _, _, hFits, hMisfit⟩
  have hAll :
      ∀ p ∈ found, Fits ⟨[⟨"."⟩], [], ["a"]⟩ mixedWorkspace p := by
    by_contra hNot
    rw [hMisfit hNot] at hSome
    cases hSome
  rcases hFits hAll with ⟨other, hOther, hCovers, hTotals⟩
  rw [hSome, Except.ok.injEq] at hOther
  subst hOther
  exact ⟨proper_mixedWorkspace, hRoots _ List.mem_cons_self, found,
    r, hCollect, hSome, hCovers, hTotals, hFiles, hSkipped,
    hExpanded, hErrors⟩

end Scanner

end Nullary
