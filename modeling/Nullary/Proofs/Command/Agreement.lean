import Nullary.Command.Run
import Nullary.Proofs.Expansion.Verdicts
import Nullary.Proofs.Files.Workspace

/-
  Checking a file and expanding it.

  Both commands report the same about a source file, and they
  fail for the same reason unless warnings are denied.  A file
  that is not a source cannot be expanded, and a check skips
  it.

  Main declarations:
    * `Failure.ofDiagnostics?`
    * `Scanner.scan_file`
    * `Workspace.commands_of_notText`
    * `Workspace.commands_of_unparsed`
    * `Workspace.commands_of_misfit`
    * `Workspace.commands_of_expansion`
    * `Invocation.check_agrees_expand`
-/

namespace Nullary

------------------------------------------------------------
-- Reports on One File
------------------------------------------------------------

/- The failure that some diagnostics make, if warnings are not denied. -/
def Failure.ofDiagnostics?
    (diagnostics : List (Diagnostic Location)) : Option Failure :=
  if diagnostics.any Diagnostic.isError then
    some (.rejected (diagnostics.countP Diagnostic.isError)
      (diagnostics.countP Diagnostic.isWarning))
  else
    none

namespace Scanner

variable {s : Scanner}
variable {w : Workspace}
variable {file : FilePath}
variable {content : ByteArray}

/- A root that is a source file is all that is found there. -/
theorem collect_file
    (hRoots : s.roots = [file])
    (hFile : w.content file = .ok content)
    (hSource : file.extension? = some "rs") :
    s.collect w = .ok [file] := by
  rcases bind_eq_ok_iff.mp hFile with ⟨place, hResolve, hContent⟩
  rw [Workspace.contentAt_eq_ok_iff] at hContent
  have hBelow : s.filesBelow w file = .ok [file] := by
    simp [filesBelow, hResolve, hContent, FileTree.files,
      FilePath.isSource, hSource]
  rw [collect, hRoots,
    mapM_eq_ok (f := fun file => [file]) (by simpa using hBelow)]
  rfl

theorem scan_file
    (hRoots : s.roots = [file])
    (hFile : w.content file = .ok content)
    (hSource : file.extension? = some "rs") :
    s.scan w =
      (s.report file content).map
        ((⟨[], []⟩ : ScanReport).add file) := by
  have hCheck : s.checkFile w file = s.report file content := by
    rw [checkFile, hFile]
  rw [scan, collect_file hRoots hFile hSource, ok_bind, checkFiles,
    hCheck]
  cases s.report file content <;> rfl

end Scanner

------------------------------------------------------------
-- The Two Commands
------------------------------------------------------------

namespace Workspace

variable {w : Workspace}
variable {s : Settings}
variable {file : FilePath}
variable {content : ByteArray}
variable {denyWarnings : Bool}

/- The scan of one file goes by the report on it. -/
theorem scan_of_report
    (hFile : w.content file = .ok content)
    (hSource : file.extension? = some "rs")
    {found : Option FileReport}
    (hReport :
      (Scanner.forPaths s [file]).report file content = .ok found) :
    (Scanner.forPaths s [file]).scan w =
      .ok ((⟨[], []⟩ : ScanReport).add file found) := by
  rw [Scanner.scan_file rfl hFile hSource, hReport]
  rfl

/- A file that is not a source is skipped. -/
theorem checkSources_skipped
    (hFile : w.content file = .ok content)
    (hSource : file.extension? = some "rs")
    (hReport :
      (Scanner.forPaths s [file]).report file content = .ok none) :
    w.checkSources s [file] denyWarnings = .done w [] "" := by
  rw [checkSources, scan_of_report hFile hSource hReport]
  simp [ScanReport.add, ScanReport.errors, ScanReport.warnings,
    ScanReport.diagnostics, ScanReport.lines]

theorem checkSources_failed
    (hFile : w.content file = .ok content)
    (hSource : file.extension? = some "rs")
    {failure : Failure}
    (hReport :
      (Scanner.forPaths s [file]).report file content =
        .error failure) :
    w.checkSources s [file] denyWarnings = .fail w [] failure := by
  rw [checkSources, Scanner.scan_file rfl hFile hSource, hReport]
  rfl

theorem checkSources_reported
    (denyWarnings : Bool)
    (hFile : w.content file = .ok content)
    (hSource : file.extension? = some "rs")
    {report : FileReport}
    (hReport :
      (Scanner.forPaths s [file]).report file content =
        .ok (some report)) :
    (w.checkSources s [file] denyWarnings).lines = report.lines ∧
      (denyWarnings = false → s.check.denyWarnings = false →
        (w.checkSources s [file] denyWarnings).failure =
          Failure.ofDiagnostics? report.diagnostics) := by
  rw [checkSources, scan_of_report hFile hSource hReport]
  simp only [ScanReport.add, ScanReport.errors, ScanReport.warnings,
    ScanReport.diagnostics, ScanReport.lines, List.flatMap_singleton]
  constructor
  · split <;> rfl
  · intro hFlag hSetting
    have hAny :
        report.diagnostics.countP Diagnostic.isError > 0 ↔
          report.diagnostics.any Diagnostic.isError = true := by
      rw [gt_iff_lt, List.countP_pos_iff, List.any_eq_true]
    simp only [hFlag, hSetting, hAny, Bool.or_self, Bool.false_and,
      Bool.or_false, decide_eq_true_eq, Failure.ofDiagnostics?]
    split <;> rfl

theorem deliver_reported
    (w : Workspace)
    (file : FilePath)
    (e : Expansion) :
    (w.deliver file none e).lines =
        e.diagnostics.map (·.line file) ∧
      (w.deliver file none e).failure =
        Failure.ofDiagnostics? e.diagnostics := by
  unfold deliver Failure.ofDiagnostics? Expansion.hasErrors
  dsimp only
  split
  · exact ⟨rfl, rfl⟩
  · exact ⟨rfl, rfl⟩

------------------------------------------------------------
-- By the Content of the File
------------------------------------------------------------

/- What both commands make of a file that is not a text. -/
theorem commands_of_notText
    (hFile : w.content file = .ok content)
    (hSource : file.extension? = some "rs")
    (hText : String.fromUTF8? content = none) :
    w.expandFile s file none = .fail w [] (.file .notText) ∧
      w.checkSources s [file] denyWarnings = .done w [] "" := by
  constructor
  · rw [expandFile, text_of_content hFile, FileTree.decode, hText]
  · apply checkSources_skipped hFile hSource
    rw [Scanner.report, hText]

variable {text : String}

theorem markers_forPaths
    (s : Settings)
    (paths : List FilePath) :
    (Scanner.forPaths s paths).markers = s.markerNames := by
  unfold Scanner.forPaths
  split <;> rfl

/- What they make of a text that is not a source. -/
theorem commands_of_unparsed
    (hFile : w.content file = .ok content)
    (hSource : file.extension? = some "rs")
    (hText : String.fromUTF8? content = some text)
    (hResult :
      Expansion.ofText s.markerNames text.toList =
        .error .unparsed) :
    w.expandFile s file none = .fail w [] (.source file) ∧
      w.checkSources s [file] denyWarnings = .done w [] "" := by
  constructor
  · simp only [expandFile, text_of_fromUTF8? hFile hText, hResult]
  · apply checkSources_skipped hFile hSource
    simp only [Scanner.report, hText, markers_forPaths, hResult]

/- What they make of a source whose edits do not fit. -/
theorem commands_of_misfit
    (hFile : w.content file = .ok content)
    (hSource : file.extension? = some "rs")
    (hText : String.fromUTF8? content = some text)
    (hResult :
      Expansion.ofText s.markerNames text.toList =
        .error .misfit) :
    w.expandFile s file none = .fail w [] .misfit ∧
      w.checkSources s [file] denyWarnings =
        .fail w [] .misfit := by
  constructor
  · simp only [expandFile, text_of_fromUTF8? hFile hText, hResult]
  · apply checkSources_failed hFile hSource
    simp only [Scanner.report, hText, markers_forPaths, hResult]

/- What they make of a source that can be expanded. -/
theorem commands_of_expansion
    (denyWarnings : Bool)
    (hFile : w.content file = .ok content)
    (hSource : file.extension? = some "rs")
    (hText : String.fromUTF8? content = some text)
    {e : Expansion}
    (hResult :
      Expansion.ofText s.markerNames text.toList = .ok e) :
    (w.expandFile s file none).lines =
        e.diagnostics.map (·.line file) ∧
      (w.expandFile s file none).failure =
        Failure.ofDiagnostics? e.diagnostics ∧
      (w.checkSources s [file] denyWarnings).lines =
        e.diagnostics.map (·.line file) ∧
      (denyWarnings = false → s.check.denyWarnings = false →
        (w.checkSources s [file] denyWarnings).failure =
          Failure.ofDiagnostics? e.diagnostics) := by
  have hExpand :
      w.expandFile s file none = w.deliver file none e := by
    simp only [expandFile, text_of_fromUTF8? hFile hText, hResult]
  have hReport :
      (Scanner.forPaths s [file]).report file content =
        .ok (some ⟨file, e.diagnostics, e.expanded⟩) := by
    simp only [Scanner.report, hText, markers_forPaths, hResult]
  rcases w.deliver_reported file e with ⟨hLines, hFailure⟩
  rcases checkSources_reported denyWarnings hFile hSource hReport with
    ⟨hChecked, hNotDenied⟩
  rw [hExpand]
  exact ⟨hLines, hFailure, hChecked, hNotDenied⟩

end Workspace

------------------------------------------------------------
-- Agreement
------------------------------------------------------------

namespace Invocation

theorem run_check
    {i : Invocation}
    {e : Environment}
    {w : Workspace}
    {s : Settings}
    {paths : List FilePath}
    {denyWarnings : Bool}
    (hCommand : i.command = .check paths denyWarnings)
    (hSettings : i.settings e w = .ok s)
    (input : ByteArray) :
    i.run e input w = w.checkSources s paths denyWarnings := by
  rw [run, hCommand]
  dsimp only
  rw [withSettings, hSettings]

theorem run_expand
    {i : Invocation}
    {e : Environment}
    {w : Workspace}
    {s : Settings}
    {file : FilePath}
    {output : Option FilePath}
    (hCommand : i.command = .expand file output)
    (hSettings : i.settings e w = .ok s)
    (input : ByteArray) :
    i.run e input w = w.expandFile s file output := by
  rw [run, hCommand]
  dsimp only
  rw [withSettings, hSettings]

/-
  On a source file, both commands print the same lines.  If
  the removals in it fit, these are its diagnostics, and both
  fail with the same counts or succeed; else both are given
  up.  A file that is not a source is an error for one of
  them, and nothing for the other.
-/
theorem check_agrees_expand
    {check expand : Invocation}
    {e : Environment}
    {w : Workspace}
    {s : Settings}
    {file : FilePath}
    {content : ByteArray}
    {denyWarnings : Bool}
    (hCheck : check.command = .check [file] denyWarnings)
    (hExpand : expand.command = .expand file none)
    (hConfig : check.config = expand.config)
    (hSettings : expand.settings e w = .ok s)
    (hFile : w.content file = .ok content)
    (hSource : file.extension? = some "rs")
    (input other : ByteArray) :
    (String.fromUTF8? content = none →
      (expand.run e input w).failure = some (.file .notText) ∧
        (check.run e other w).failure = none ∧
        (check.run e other w).lines = []) ∧
      ∀ text, String.fromUTF8? content = some text →
        (SourceFile.parse? (dropByteOrderMark text.toList) = none →
          (expand.run e input w).failure = some (.source file) ∧
            (check.run e other w).failure = none ∧
            (check.run e other w).lines = []) ∧
          ∀ source,
            SourceFile.parse? (dropByteOrderMark text.toList) =
                some source →
            (expand.run e input w).lines =
                (check.run e other w).lines ∧
              (source.RemovalsFit s.markerNames
                  (dropByteOrderMark text.toList) →
                (expand.run e input w).lines =
                    (source.diagnostics s.markerNames).map
                      (·.line file) ∧
                  (expand.run e input w).failure =
                    Failure.ofDiagnostics?
                      (source.diagnostics s.markerNames) ∧
                  (denyWarnings = false →
                    s.check.denyWarnings = false →
                    (check.run e other w).failure =
                      (expand.run e input w).failure)) ∧
              (¬ source.RemovalsFit s.markerNames
                  (dropByteOrderMark text.toList) →
                (expand.run e input w).failure = some .misfit ∧
                  (check.run e other w).failure =
                    some .misfit) := by
  have hSame : check.settings e w = .ok s := by
    rw [settings, hConfig]
    exact hSettings
  rw [run_check hCheck hSame, run_expand hExpand hSettings]
  constructor
  · intro hText
    rcases Workspace.commands_of_notText hFile hSource hText with
      ⟨hExpanded, hChecked⟩
    rw [hExpanded, hChecked]
    exact ⟨rfl, rfl, rfl⟩
  intro text hText
  constructor
  · intro hParse
    have hResult :
        Expansion.ofText s.markerNames text.toList =
          .error .unparsed := by
      simp only [Expansion.ofText, hParse]
    rcases Workspace.commands_of_unparsed hFile hSource hText
        hResult with
      ⟨hExpanded, hChecked⟩
    rw [hExpanded, hChecked]
    exact ⟨rfl, rfl, rfl⟩
  intro source hParse
  by_cases hFit :
      source.RemovalsFit s.markerNames
        (dropByteOrderMark text.toList)
  · rcases (Expansion.exists_ofText_eq_ok_iff s.markerNames
        hParse).mpr hFit with
      ⟨output, hResult⟩
    rcases Workspace.commands_of_expansion denyWarnings hFile
        hSource hText hResult with
      ⟨hLines, hFailure, hChecked, hNotDenied⟩
    refine ⟨hLines.trans hChecked.symm, ?_,
      fun hNot => absurd hFit hNot⟩
    intro _
    refine ⟨hLines, hFailure, ?_⟩
    intro hFlag hSetting
    exact (hNotDenied hFlag hSetting).trans hFailure.symm
  · have hResult :=
      (Expansion.ofText_eq_misfit_iff s.markerNames hParse).mpr hFit
    rcases Workspace.commands_of_misfit hFile hSource hText
        hResult with
      ⟨hExpanded, hChecked⟩
    rw [hExpanded, hChecked]
    exact ⟨rfl, fun hNot => absurd hNot hFit, fun _ => ⟨rfl, rfl⟩⟩

/- A marked record and a marked enumeration. -/
def mixedSource : ByteArray :=
  ("#[public_initialiser] pub struct B;\n" ++
    "#[public_initialiser] enum C \x7b\x7d").toUTF8

def mixedWorkspace : Workspace :=
  ⟨.directory [("a.rs", .file mixedSource)], []⟩

/- Both commands report the enumeration, and are rejected. -/
theorem check_agrees_expand_mixed :
    ∃ check expand,
      ofWords? .empty ["check", "a.rs"] = some check ∧
        ofWords? .empty ["expand", "a.rs"] = some expand ∧
        (expand.run .empty .empty mixedWorkspace).lines =
          (check.run .empty .empty mixedWorkspace).lines ∧
        (check.run .empty .empty mixedWorkspace).failure =
          (expand.run .empty .empty mixedWorkspace).failure ∧
        (expand.run .empty .empty mixedWorkspace).failure.isSome := by
  refine ⟨⟨none, 0, false, .check [⟨"a.rs"⟩] false⟩,
    ⟨none, 0, false, .expand ⟨"a.rs"⟩ none⟩,
    by decide, by decide, ?_⟩
  have hAny :
      ((String.fromUTF8? mixedSource).any fun text =>
        (SourceFile.parse? (dropByteOrderMark text.toList)).any
          fun source => decide (source.RemovalsFit
            Settings.default.markerNames
            (dropByteOrderMark text.toList))) = true := by
    decide +kernel
  rcases (Option.any_eq_true _ _).mp hAny with ⟨text, hText, hAny⟩
  rcases (Option.any_eq_true _ _).mp hAny with
    ⟨source, hParse, hFit⟩
  rw [decide_eq_true_eq] at hFit
  have hSettings :
      settings ⟨none, 0, false, .expand ⟨"a.rs"⟩ none⟩ .empty
          mixedWorkspace =
        .ok .default :=
    rfl
  have hConfig :
      config ⟨none, 0, false, .check [⟨"a.rs"⟩] false⟩ =
        config ⟨none, 0, false, .expand ⟨"a.rs"⟩ none⟩ :=
    rfl
  have hFile :
      mixedWorkspace.content ⟨"a.rs"⟩ = .ok mixedSource :=
    rfl
  rcases check_agrees_expand rfl rfl hConfig hSettings hFile
      (by decide) .empty .empty with
    ⟨_, hTexts⟩
  rcases (hTexts text hText).2 source hParse with
    ⟨hLines, hReported, _⟩
  exact ⟨hLines, (hReported hFit).2.2 rfl rfl, by decide +kernel⟩

end Invocation

end Nullary
