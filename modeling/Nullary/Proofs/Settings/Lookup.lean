import Mathlib.Data.List.Induction
import Nullary.Proofs.Command.Effects
import Nullary.Proofs.Files.Entries
import Nullary.Proofs.Settings.Resolution

/-
  Where the settings of a workspace come from.

  The nearest entry with the name of a file of settings
  decides, in the working directory or above it.  If it cannot
  be read, nothing farther away is tried.  A new file of
  settings says what holds without one, whatever the
  variables are, so that it hides all settings above it.

  Main declarations:
    * `Workspace.find?_upFrom`
    * `Workspace.NearestSettings`
    * `Workspace.settingsPlace?_cases`
    * `Workspace.resolve_ofNames`
    * `Settings.ofToml_template`
    * `Settings.ofWorkspace_nearest`
-/

namespace Nullary

------------------------------------------------------------
-- Looking Upwards
------------------------------------------------------------

namespace Workspace

variable {w : Workspace}
variable {dir : List String}

/-
  The first place on the way up that passes a test is the
  longest of those that do.
-/
theorem find?_upFrom
    (test : List String → Bool)
    (backwards : List String) :
    (∃ dir, (upFrom backwards).find? test = some dir ∧
        dir <+: backwards.reverse ∧ test dir = true ∧
        ∀ other, other <+: backwards.reverse →
          dir.length < other.length → test other = false) ∨
      ((upFrom backwards).find? test = none ∧
        ∀ dir, dir <+: backwards.reverse → test dir = false) := by
  induction backwards with
  | nil =>
      cases hTest : test [] with
      | true =>
          left
          refine ⟨[], by simp [upFrom, hTest], List.nil_prefix, hTest,
            ?_⟩
          intro other hOther hLonger
          rw [List.reverse_nil, List.prefix_nil] at hOther
          subst hOther
          exact absurd hLonger (Nat.lt_irrefl 0)
      | false =>
          right
          refine ⟨by simp [upFrom, hTest], ?_⟩
          intro dir hDir
          rw [List.reverse_nil, List.prefix_nil] at hDir
          rw [hDir, hTest]
  | cons name above ih =>
      rw [upFrom]
      cases hTest : test (name :: above).reverse with
      | true =>
          left
          refine ⟨(name :: above).reverse,
            List.find?_cons_of_pos hTest, List.prefix_refl _, hTest,
            ?_⟩
          intro other hOther hLonger
          exact absurd hOther.length_le (Nat.not_le.mpr hLonger)
      | false =>
          rw [List.find?_cons_of_neg (Bool.not_eq_true _ ▸ hTest)]
          rw [List.reverse_cons] at hTest ⊢
          simp only [List.prefix_concat_iff]
          rcases ih with
            ⟨dir, hFind, hDir, hPasses, hLonger⟩ | ⟨hFind, hNone⟩
          · left
            refine ⟨dir, hFind, Or.inr hDir, hPasses, ?_⟩
            rintro other (rfl | hOther) hLength
            · exact hTest
            · exact hLonger other hOther hLength
          · right
            refine ⟨hFind, ?_⟩
            rintro dir (rfl | hDir)
            · exact hTest
            · exact hNone dir hDir

/-
  The directory that settings are taken from: the working
  directory or one above it that has an entry with the name of
  a file of settings, and none between the two has one.
-/
structure NearestSettings
    (w : Workspace)
    (dir : List String) : Prop where
  above : dir <+: w.here
  there : w.at? (dir ++ [Settings.fileName]) ≠ none
  nearest : ∀ other, other <+: w.here → dir.length < other.length →
    w.at? (other ++ [Settings.fileName]) = none

theorem settingsPlace?_cases
    (w : Workspace) :
    (∃ dir, w.NearestSettings dir ∧
        w.settingsPlace? = some (dir ++ [Settings.fileName])) ∨
      ((∀ dir, dir <+: w.here →
          w.at? (dir ++ [Settings.fileName]) = none) ∧
        w.settingsPlace? = none) := by
  unfold settingsPlace? ancestors
  rw [List.find?_map]
  rcases find?_upFrom
      ((fun names => (w.at? names).isSome) ∘
        (· ++ [Settings.fileName]))
      w.here.reverse with
    ⟨dir, hFind, hDir, hThere, hLonger⟩ | ⟨hFind, hNone⟩
  · left
    rw [List.reverse_reverse] at hDir hLonger
    refine ⟨dir, ⟨hDir, ?_, ?_⟩, by rw [hFind]; rfl⟩
    · exact Option.isSome_iff_ne_none.mp hThere
    · intro other hOther hLength
      simpa using hLonger other hOther hLength
  · right
    rw [List.reverse_reverse] at hNone
    refine ⟨?_, by rw [hFind]; rfl⟩
    intro dir hDir
    simpa using hNone dir hDir

/- There is only one such directory. -/
theorem NearestSettings.settingsPlace?_eq
    (hNearest : w.NearestSettings dir) :
    w.settingsPlace? = some (dir ++ [Settings.fileName]) := by
  rcases w.settingsPlace?_cases with
    ⟨other, hOther, hPlace⟩ | ⟨hNone, _⟩
  · have hLe : dir.length ≤ other.length := by
      by_contra hNot
      exact hNearest.there
        (hOther.nearest dir hNearest.above (Nat.not_le.mp hNot))
    have hGe : other.length ≤ dir.length := by
      by_contra hNot
      exact hOther.there
        (hNearest.nearest other hOther.above (Nat.not_le.mp hNot))
    have hSame : dir = other :=
      (List.prefix_of_prefix_length_le hNearest.above hOther.above
        hLe).eq_of_length (Nat.le_antisymm hLe hGe)
    rw [hSame, hPlace]
  · exact absurd (hNone dir hNearest.above) hNearest.there

------------------------------------------------------------
-- Paths of Places
------------------------------------------------------------

end Workspace

/- A text is what its bytes encode. -/
theorem FileTree.decode_toUTF8
    (text : String) :
    decode text.toUTF8 = .ok text := by
  have hText : String.fromUTF8? text.toUTF8 = some text :=
    dif_pos text.isValidUTF8
  rw [decode, hText]

/- The path of a place from the root on. -/
def FilePath.ofNames
    (names : List String) : FilePath :=
  names.foldl FilePath.join ⟨"/"⟩

namespace Workspace

variable {w : Workspace}

/- In a proper tree the path of a place leads there. -/
theorem resolve_ofNames
    (hProper : w.root.Proper)
    (hRoot : w.contentAt [] = .error .isDirectory)
    {names : List String}
    (hThere : w.at? names ≠ none) :
    w.resolve (.ofNames names) = .ok names := by
  induction names using List.reverseRecOn with
  | nil =>
      have hParts : (FilePath.ofNames []).parts = ["", ""] := by
        decide
      have hNext : nextPlace [] "" = [] := rfl
      have hSome : w.contentAt [] ≠ .error .missing := by
        rw [hRoot]
        decide
      rw [resolve, if_neg (by decide), hParts]
      change w.follow [] ["", ""] = .ok []
      rw [follow_cons_eq_ok_iff, hNext, follow_cons_eq_ok_iff,
        hNext]
      exact ⟨hRoot, hSome, hRoot, hSome, rfl⟩
  | append_singleton names name ih =>
      have hDirectory := isDirectory_of_at?_snoc hThere
      rcases contentAt_eq_isDirectory_iff.mp hDirectory with
        ⟨entries, hEntries⟩
      have hAbove := ih (by simp [hEntries])
      rw [at?_snoc hEntries] at hThere
      rcases Option.ne_none_iff_exists'.mp hThere with
        ⟨tree, hChild⟩
      have hName : FilePath.IsEntryName name := by
        cases hProper.of_at? hEntries with
        | directory _ hNames _ =>
            exact hNames _ (FileTree.Proper.mem_of_child? hChild)
      have hJoin :
          FilePath.ofNames (names ++ [name]) =
            (FilePath.ofNames names).join name := by
        simp [FilePath.ofNames]
      rw [hJoin]
      exact resolve_join hAbove hEntries hName hChild

theorem text_of_resolve
    {p : FilePath}
    {place : List String}
    (hResolve : w.resolve p = .ok place) :
    w.text p = w.textAt place := by
  unfold text content textAt
  rw [hResolve, ok_bind]

/- Something that has a name stands in a root that is a directory. -/
theorem root_isDirectory
    {names : List String}
    {name : String}
    (hThere : w.at? (names ++ [name]) ≠ none) :
    w.contentAt [] = .error .isDirectory := by
  rw [contentAt_eq_isDirectory_iff]
  unfold at? at hThere ⊢
  cases hRoot : w.root with
  | directory entries => exact ⟨entries, rfl⟩
  | file content =>
      rw [hRoot] at hThere
      cases names <;> exact absurd rfl hThere

end Workspace

------------------------------------------------------------
-- Settings of a Workspace
------------------------------------------------------------

namespace Settings

variable {e : Environment}
variable {w : Workspace}
variable {dir : List String}

theorem ofText_eq_ok_iff
    {text : Except FileError String}
    {s : Settings} :
    ofText e text = .ok s ↔
      ∃ found, text = .ok found ∧ ofToml e found.toList = .ok s := by
  unfold ofText
  cases text with
  | error cause => simp
  | ok found =>
      dsimp only
      cases hFound : ofToml e found.toList with
      | error cause => simp [hFound]
      | ok settings => simp [hFound]

/- Only the nearest entry is looked at. -/
theorem ofWorkspace_of_nearest
    (e : Environment)
    (hNearest : w.NearestSettings dir) :
    ofWorkspace e w =
      ofText (w.withVariables e) (w.textAt (dir ++ [fileName])) := by
  unfold ofWorkspace
  rw [hNearest.settingsPlace?_eq]

------------------------------------------------------------
-- New Settings
------------------------------------------------------------

-- The lines are decoded one by one, which is faster than the whole text.
theorem parse?_template :
    parse? template.toList = some default := by
  have hLines :
      template.toList =
        templateLines.flatMap fun line => line.toList ++ ['\n'] := by
    simp [template, String.toList_join, List.flatMap_map]
  rw [hLines]
  decide +kernel

/- There is no placeholder in the directories of the usual settings. -/
theorem mapM_resolveDir_default
    (e : Environment) :
    default.check.sourceDirs.mapM (resolveDir e) =
      .ok default.check.sourceDirs := by
  have hNone : Placeholder.findAll "src".toList = [] := by
    decide
  have hSource : resolveDir e "src" = .ok "src" := by
    rw [resolveDir_eq_ok_iff, Environment.substitute, hNone]
    rfl
  change ["src"].mapM (resolveDir e) = .ok ["src"]
  rw [List.mapM_cons, hSource, ok_bind]
  rfl

/- A new file of settings says what holds without it. -/
theorem ofToml_template
    (e : Environment) :
    ofToml e template.toList = .ok default := by
  rw [ofToml_eq parse?_template, mapM_resolveDir_default, ok_bind]

/- After new settings were written, they are the nearest ones below. -/
theorem nearestSettings_of_changedAt
    {w' : Workspace}
    {content : ByteArray}
    (hChanged :
      w.ChangedAt w' (w.here ++ [fileName]) content)
    {below : List String}
    (hBelow : ∀ part, part <+: below → part ≠ [] →
      w'.at? (w.here ++ part ++ [fileName]) = none) :
    Workspace.NearestSettings
      { w' with here := w.here ++ below } w.here where
  above := List.prefix_append _ _
  there := by
    have hWritten :=
      Workspace.contentAt_eq_ok_iff.mp hChanged.written
    change w'.at? (w.here ++ [fileName]) ≠ none
    rw [hWritten]
    exact Option.some_ne_none _
  nearest := by
    intro other hOther hLonger
    have hAbove : w.here <+: other :=
      List.prefix_of_prefix_length_le (List.prefix_append _ _)
        hOther hLonger.le
    rcases hAbove with ⟨part, rfl⟩
    apply hBelow part
    · exact (List.prefix_append_right_inj _).mp hOther
    · rintro rfl
      simp at hLonger

/-
  Below a directory with new settings the usual ones hold, as
  far as no other file of settings is nearer.
-/
theorem ofWorkspace_of_changedAt
    {w' : Workspace}
    (hChanged :
      w.ChangedAt w' (w.here ++ [fileName]) template.toUTF8)
    {below : List String}
    (hBelow : ∀ part, part <+: below → part ≠ [] →
      w'.at? (w.here ++ part ++ [fileName]) = none)
    (e : Environment) :
    ofWorkspace e { w' with here := w.here ++ below } =
      .ok default := by
  have hContent :
      Workspace.contentAt { w' with here := w.here ++ below }
          (w.here ++ [fileName]) =
        .ok template.toUTF8 :=
    hChanged.written
  rw [ofWorkspace_of_nearest e
      (nearestSettings_of_changedAt hChanged hBelow),
    ofText_eq_ok_iff]
  refine ⟨template, ?_, ofToml_template _⟩
  rw [Workspace.textAt, hContent, ok_bind, FileTree.decode_toUTF8]

/-
  The settings of a workspace are those of the nearest file of
  settings, in the working directory or above it; they fail if
  that file cannot be read, is malformed or refers to a
  variable without a value.  The usual settings hold if there
  is no such file.  After a new file of settings was written,
  they hold in its directory and below, as far as no other
  file of settings is nearer.
-/
theorem ofWorkspace_nearest
    (e : Environment)
    (w : Workspace) :
    ((∃ dir, w.NearestSettings dir ∧
        (w.root.Proper →
          w.resolve (.ofNames (dir ++ [fileName])) =
            .ok (dir ++ [fileName])) ∧
        (∀ p, w.resolve p = .ok (dir ++ [fileName]) →
          ofWorkspace e w = ofFile (w.withVariables e) w p) ∧
        ∀ s, ofWorkspace e w = .ok s ↔
          ∃ text, w.textAt (dir ++ [fileName]) = .ok text ∧
            ofToml (w.withVariables e) text.toList = .ok s) ∨
      ((∀ dir, dir <+: w.here →
          w.at? (dir ++ [fileName]) = none) ∧
        ofWorkspace e w = .ok default)) ∧
      ∀ (i : Invocation) force input,
        i.command = .init force →
          (i.run e input w).failure = none →
          ∀ below,
            (∀ part, part <+: below → part ≠ [] →
              (i.run e input w).workspace.at?
                (w.here ++ part ++ [fileName]) = none) →
            ∀ others,
              ofWorkspace others
                  { (i.run e input w).workspace with
                    here := w.here ++ below } =
                .ok default := by
  constructor
  · rcases w.settingsPlace?_cases with
      ⟨dir, hNearest, _⟩ | ⟨hNone, hPlace⟩
    · left
      have hSettings := ofWorkspace_of_nearest e hNearest
      refine ⟨dir, hNearest, ?_, ?_, ?_⟩
      · intro hProper
        exact Workspace.resolve_ofNames hProper
          (Workspace.root_isDirectory hNearest.there) hNearest.there
      · intro p hResolve
        rw [hSettings, ofFile, Workspace.text_of_resolve hResolve]
      · intro s
        rw [hSettings, ofText_eq_ok_iff]
    · right
      refine ⟨hNone, ?_⟩
      unfold ofWorkspace
      rw [hPlace]
  · intro i force input hInit hDone below hBelow others
    have hRun : i.run e input w = w.writeSettings force := by
      unfold Invocation.run
      rw [hInit]
    rw [hRun] at hDone hBelow ⊢
    exact ofWorkspace_of_changedAt
      (Workspace.changed_of_writeSettings hDone).2 hBelow others

/- A directory inside another, below settings that are malformed. -/
def nestedWorkspace : Workspace :=
  ⟨.directory
    [(fileName, .file "check = 1".toUTF8),
      ("a", .directory [("b", .directory [])])],
    ["a"]⟩

/-
  Malformed settings above the working directory are reported,
  and new settings hide them.
-/
theorem ofWorkspace_nearest_malformed_above :
    (∃ dir, nestedWorkspace.NearestSettings dir ∧
        nestedWorkspace.resolve ⟨"../initialiser.toml"⟩ =
          .ok (dir ++ [fileName]) ∧
        ofWorkspace .empty nestedWorkspace =
          ofFile (nestedWorkspace.withVariables .empty)
            nestedWorkspace ⟨"../initialiser.toml"⟩) ∧
      (∀ s, ofWorkspace .empty nestedWorkspace ≠ .ok s) ∧
      ∃ i, Invocation.ofWords? .empty ["init"] = some i ∧
        (i.run .empty .empty nestedWorkspace).failure = none ∧
        ∀ others,
          ofWorkspace others
              { (i.run .empty .empty nestedWorkspace).workspace with
                here := ["a", "b"] } =
            .ok default := by
  have hSettings := ofWorkspace_nearest .empty nestedWorkspace
  constructor
  · rcases hSettings.1 with
      ⟨dir, hNearest, _, hFile, _⟩ | ⟨hNone, _⟩
    · have hPlace :
          nestedWorkspace.resolve ⟨"../initialiser.toml"⟩ =
            .ok (dir ++ [fileName]) := by
        rw [← Option.some.inj hNearest.settingsPlace?_eq]
        rfl
      exact ⟨dir, hNearest, hPlace, hFile _ hPlace⟩
    · cases hNone [] List.nil_prefix
  constructor
  · intro s hOk
    have hFails :
        (ofWorkspace .empty nestedWorkspace).toOption.isNone =
          true := by
      decide +kernel
    rw [hOk] at hFails
    cases hFails
  · have hDone :
        (Invocation.run ⟨none, 0, false, .init false⟩ .empty .empty
          nestedWorkspace).failure = none := by
      rw [← Option.isNone_iff_eq_none]
      decide +kernel
    refine ⟨⟨none, 0, false, .init false⟩, by decide, hDone, ?_⟩
    apply hSettings.2 _ false .empty rfl hDone ["b"]
    intro part hPart hNonempty
    rcases List.prefix_cons_iff.mp hPart with
      hEmpty | ⟨rest, rfl, hRest⟩
    · exact absurd hEmpty hNonempty
    · rw [List.prefix_nil] at hRest
      subst hRest
      rw [← Option.isNone_iff_eq_none]
      decide +kernel

end Settings

end Nullary
