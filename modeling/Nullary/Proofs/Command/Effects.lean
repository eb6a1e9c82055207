import Nullary.Command.Run
import Nullary.Proofs.Files.Workspace

/-
  What commands do to the files of a workspace.

  A command that fails changes no file and writes nothing to
  its output.  One that succeeds changes at most one file: the
  one that an expanded text is to be written to, or the file
  of settings in the working directory.

  Main declarations:
    * `Effect.HarmlessIn`
    * `Workspace.changed_of_expandFile`
    * `Workspace.changed_of_writeSettings`
    * `Invocation.Leaves`
    * `Invocation.run_leaves`
-/

namespace Nullary

------------------------------------------------------------
-- Failures
------------------------------------------------------------

namespace Effect

/- If the command fails, it changes no file and writes no output. -/
def HarmlessIn
    (x : Effect)
    (w : Workspace) : Prop :=
  x.failure ≠ none → x.workspace = w ∧ x.output = ""

variable {w : Workspace}

theorem harmlessIn_fail
    (lines : List String)
    (failure : Failure) :
    (fail w lines failure).HarmlessIn w :=
  fun _ => ⟨rfl, rfl⟩

theorem harmlessIn_done
    (lines : List String)
    (output : String) :
    (done w lines output).HarmlessIn w :=
  fun hFailure => absurd rfl hFailure

theorem harmlessIn_write
    (lines : List String)
    (p : FilePath)
    (text : String) :
    (write w lines p text).HarmlessIn w := by
  unfold write
  cases w.write p text.toUTF8 with
  | ok written => exact fun hFailure => absurd rfl hFailure
  | error cause => exact harmlessIn_fail lines (.file cause)

/- Writing that succeeds changes the file on its path. -/
theorem changedAt_of_write
    {lines : List String}
    {p : FilePath}
    {text : String}
    (hDone : (write w lines p text).failure = none) :
    ∃ place,
      w.ChangedAt (write w lines p text).workspace place text.toUTF8 ∧
        (write w lines p text).workspace.resolve p = .ok place := by
  unfold write at hDone ⊢
  cases hWrite : w.write p text.toUTF8 with
  | ok written => exact Workspace.changedAt_of_write hWrite
  | error cause =>
      rw [hWrite] at hDone
      cases hDone

end Effect

------------------------------------------------------------
-- Commands
------------------------------------------------------------

namespace Workspace

variable {w : Workspace}

theorem answerRequest_workspace
    (w : Workspace)
    (input : ByteArray)
    (file : Option FilePath) :
    (w.answerRequest input file).workspace = w ∧
      (w.answerRequest input file).HarmlessIn w := by
  unfold answerRequest
  dsimp only
  split
  · exact ⟨rfl, Effect.harmlessIn_fail _ _⟩
  · split
    · exact ⟨rfl, Effect.harmlessIn_fail _ _⟩
    · exact ⟨rfl, Effect.harmlessIn_done _ _⟩

theorem checkSources_workspace
    (w : Workspace)
    (s : Settings)
    (paths : List FilePath)
    (denyWarnings : Bool) :
    (w.checkSources s paths denyWarnings).workspace = w ∧
      (w.checkSources s paths denyWarnings).HarmlessIn w := by
  unfold checkSources
  split
  · exact ⟨rfl, Effect.harmlessIn_fail _ _⟩
  · split
    · exact ⟨rfl, Effect.harmlessIn_fail _ _⟩
    · exact ⟨rfl, Effect.harmlessIn_done _ _⟩

theorem harmlessIn_deliver
    (w : Workspace)
    (file : FilePath)
    (output : Option FilePath)
    (e : Expansion) :
    (w.deliver file output e).HarmlessIn w := by
  unfold deliver
  dsimp only
  split
  · exact Effect.harmlessIn_fail _ _
  · cases output with
    | none => exact Effect.harmlessIn_done _ _
    | some path => exact Effect.harmlessIn_write _ path _

theorem harmlessIn_expandFile
    (w : Workspace)
    (s : Settings)
    (file : FilePath)
    (output : Option FilePath) :
    (w.expandFile s file output).HarmlessIn w := by
  unfold expandFile
  split
  · exact Effect.harmlessIn_fail _ _
  · split
    · exact w.harmlessIn_deliver file output _
    · exact Effect.harmlessIn_fail _ _
    · exact Effect.harmlessIn_fail _ _

/- A file is only expanded if its text has an expansion without errors. -/
theorem expandFile_of_done
    {s : Settings}
    {file : FilePath}
    {output : Option FilePath}
    (hDone : (w.expandFile s file output).failure = none) :
    ∃ text e, w.text file = .ok text ∧
      Expansion.ofText s.markerNames text.toList = .ok e ∧
      e.hasErrors = false ∧
      w.expandFile s file output = w.deliver file output e := by
  unfold expandFile at hDone ⊢
  cases hText : w.text file with
  | error cause =>
      rw [hText] at hDone
      cases hDone
  | ok text =>
      rw [hText] at hDone
      dsimp only at hDone ⊢
      cases hExpansion :
          Expansion.ofText s.markerNames text.toList with
      | error cause =>
          rw [hExpansion] at hDone
          cases cause <;> cases hDone
      | ok e =>
          rw [hExpansion] at hDone
          refine ⟨text, e, rfl, hExpansion, ?_, rfl⟩
          rw [← Bool.not_eq_true]
          intro hErrors
          simp [deliver, hErrors, Effect.fail] at hDone

theorem expandFile_none_workspace
    (w : Workspace)
    (s : Settings)
    (file : FilePath) :
    (w.expandFile s file none).workspace = w := by
  by_cases hDone : (w.expandFile s file none).failure = none
  · rcases expandFile_of_done hDone with
      ⟨text, e, _, _, hErrors, hDeliver⟩
    rw [hDeliver, deliver, hErrors]
    rfl
  · exact (w.harmlessIn_expandFile s file none hDone).1

/-
  A file that an expanded text was written to holds it, and
  the text was expanded as it was before.
-/
theorem changed_of_expandFile
    {s : Settings}
    {file output : FilePath}
    (hDone : (w.expandFile s file (some output)).failure = none) :
    ∃ text e place, w.text file = .ok text ∧
      Expansion.ofText s.markerNames text.toList = .ok e ∧
      e.hasErrors = false ∧
      w.ChangedAt (w.expandFile s file (some output)).workspace
        place (String.ofList e.source).toUTF8 ∧
      (w.expandFile s file (some output)).workspace.resolve output =
        .ok place := by
  rcases expandFile_of_done hDone with
    ⟨text, e, hText, hExpansion, hErrors, hDeliver⟩
  have hWrite :
      w.expandFile s file (some output) =
        .write w (e.diagnostics.map (·.line file)) output
          (String.ofList e.source) := by
    rw [hDeliver, deliver, hErrors]
    rfl
  rw [hWrite] at hDone ⊢
  rcases Effect.changedAt_of_write hDone with
    ⟨place, hChanged, hResolve⟩
  exact ⟨text, e, place, hText, hExpansion, hErrors, hChanged,
    hResolve⟩

theorem resolve_settingsPath_eq_ok_iff
    {place : List String} :
    w.resolve settingsPath = .ok place ↔
      w.at? (w.here ++ [Settings.fileName]) ≠ none ∧
        place = w.here ++ [Settings.fileName] := by
  have hText : settingsPath.text ≠ "" := by decide
  have hParts : settingsPath.parts = [".", Settings.fileName] := by
    decide
  have hOrigin : w.origin settingsPath = w.here := rfl
  have hDot : nextPlace w.here "." = w.here := rfl
  have hName :
      nextPlace w.here Settings.fileName =
        w.here ++ [Settings.fileName] :=
    rfl
  rw [resolve, if_neg hText, hParts, hOrigin,
    follow_cons_eq_ok_iff, hDot, follow_cons_eq_ok_iff, hName,
    follow, Except.ok.injEq, ne_eq, ne_eq,
    contentAt_eq_missing_iff, contentAt_eq_missing_iff]
  constructor
  · rintro ⟨_, _, _, hThere, hPlace⟩
    exact ⟨hThere, hPlace.symm⟩
  · rintro ⟨hThere, hPlace⟩
    have hDirectory := isDirectory_of_at?_snoc hThere
    refine ⟨hDirectory, ?_, hDirectory, hThere, hPlace.symm⟩
    intro hNone
    rw [contentAt_eq_missing_iff.mpr hNone] at hDirectory
    cases hDirectory

theorem contains_settingsPath_iff
    (w : Workspace) :
    w.contains settingsPath = true ↔
      w.at? (w.here ++ [Settings.fileName]) ≠ none := by
  rw [contains_eq_true_iff]
  simp [resolve_settingsPath_eq_ok_iff]

theorem harmlessIn_writeSettings
    (w : Workspace)
    (force : Bool) :
    (w.writeSettings force).HarmlessIn w := by
  unfold writeSettings
  split
  · exact Effect.harmlessIn_fail _ _
  · exact Effect.harmlessIn_write _ _ _

/- Settings are written where there were none, or by force. -/
theorem changed_of_writeSettings
    {force : Bool}
    (hDone : (w.writeSettings force).failure = none) :
    (w.at? (w.here ++ [Settings.fileName]) = none ∨ force = true) ∧
      w.ChangedAt (w.writeSettings force).workspace
        (w.here ++ [Settings.fileName])
        Settings.template.toUTF8 := by
  unfold writeSettings at hDone ⊢
  by_cases hRefused : (w.contains settingsPath && !force) = true
  · rw [if_pos hRefused] at hDone
    cases hDone
  · rw [if_neg hRefused] at hDone ⊢
    constructor
    · cases force with
      | true => exact Or.inr rfl
      | false =>
          have hAbsent : ¬ w.contains settingsPath = true := by
            simpa using hRefused
          rw [contains_settingsPath_iff, Classical.not_not]
            at hAbsent
          exact Or.inl hAbsent
    · rcases Effect.changedAt_of_write hDone with
        ⟨place, hChanged, hResolve⟩
      rw [resolve_settingsPath_eq_ok_iff, hChanged.here] at hResolve
      exact hResolve.2 ▸ hChanged

end Workspace

------------------------------------------------------------
-- Invocations
------------------------------------------------------------

namespace Invocation

/- A command that succeeds leaves a workspace with these files. -/
def Leaves
    (i : Invocation)
    (e : Environment)
    (w w' : Workspace) : Prop :=
  match i.command with
  | .evaluate _ => w' = w
  | .check _ _ => w' = w
  | .expand _ none => w' = w
  | .expand file (some output) =>
      ∃ s text expansion place,
        i.settings e w = .ok s ∧
          w.text file = .ok text ∧
          Expansion.ofText s.markerNames text.toList =
            .ok expansion ∧
          (∀ d ∈ expansion.diagnostics, d.isError = false) ∧
          w'.resolve output = .ok place ∧
          w.ChangedAt w' place
            (String.ofList expansion.source).toUTF8
  | .init force =>
      (w.at? (w.here ++ [Settings.fileName]) = none ∨
          force = true) ∧
        w.ChangedAt w' (w.here ++ [Settings.fileName])
          Settings.template.toUTF8

theorem harmlessIn_withSettings
    {i : Invocation}
    {e : Environment}
    {w : Workspace}
    {next : Settings → Effect}
    (hNext : ∀ s, (next s).HarmlessIn w) :
    (i.withSettings e w next).HarmlessIn w := by
  unfold withSettings
  split
  · exact Effect.harmlessIn_fail _ _
  · exact hNext _

theorem exists_settings_of_done
    {i : Invocation}
    {e : Environment}
    {w : Workspace}
    {next : Settings → Effect}
    (hDone : (i.withSettings e w next).failure = none) :
    ∃ s, i.settings e w = .ok s ∧
      i.withSettings e w next = next s := by
  unfold withSettings at hDone ⊢
  cases hSettings : i.settings e w with
  | error failure =>
      rw [hSettings] at hDone
      cases hDone
  | ok s => exact ⟨s, rfl, rfl⟩

/-
  A command that fails changes no file and writes nothing to
  its output.  One that succeeds changes at most the file that
  it was told to write.
-/
theorem run_leaves
    (i : Invocation)
    (e : Environment)
    (input : ByteArray)
    (w : Workspace) :
    ((i.run e input w).failure ≠ none →
      (i.run e input w).workspace = w ∧
        (i.run e input w).output = "") ∧
      ((i.run e input w).failure = none →
        i.Leaves e w (i.run e input w).workspace) := by
  unfold run Leaves
  cases i.command with
  | evaluate file =>
      have hAnswer := w.answerRequest_workspace input file
      exact ⟨hAnswer.2, fun _ => hAnswer.1⟩
  | check paths denyWarnings =>
      refine ⟨harmlessIn_withSettings fun s =>
        (w.checkSources_workspace s paths denyWarnings).2, ?_⟩
      intro hDone
      rcases exists_settings_of_done hDone with ⟨s, _, hRun⟩
      dsimp only
      rw [hRun]
      exact (w.checkSources_workspace s paths denyWarnings).1
  | expand file output =>
      refine ⟨harmlessIn_withSettings fun s =>
        w.harmlessIn_expandFile s file output, ?_⟩
      intro hDone
      rcases exists_settings_of_done hDone with
        ⟨s, hSettings, hRun⟩
      dsimp only at hDone ⊢
      rw [hRun] at hDone ⊢
      cases output with
      | none => exact w.expandFile_none_workspace s file
      | some path =>
          rcases Workspace.changed_of_expandFile hDone with
            ⟨text, expansion, place, hText, hExpansion, hErrors,
              hChanged, hResolve⟩
          refine ⟨s, text, expansion, place, hSettings, hText,
            hExpansion, ?_, hResolve, hChanged⟩
          simpa [Expansion.hasErrors] using hErrors
  | init force =>
      exact ⟨w.harmlessIn_writeSettings force,
        Workspace.changed_of_writeSettings⟩

/- A workspace with one marked record. -/
def recordWorkspace : Workspace :=
  ⟨.directory
    [("a.rs", .file "#[public_initialiser] pub struct A;".toUTF8)],
    []⟩

/- A file is expanded in its own place; a missing one fails. -/
theorem run_leaves_in_place :
    ∃ i j,
      ofWords? .empty ["expand", "a.rs", "-o", "a.rs"] = some i ∧
        (i.run .empty .empty recordWorkspace).failure = none ∧
        i.Leaves .empty recordWorkspace
          (i.run .empty .empty recordWorkspace).workspace ∧
        ofWords? .empty ["expand", "b.rs", "-o", "a.rs"] = some j ∧
        (j.run .empty .empty recordWorkspace).failure ≠ none ∧
        (j.run .empty .empty recordWorkspace).workspace =
          recordWorkspace := by
  refine ⟨⟨none, 0, false, .expand ⟨"a.rs"⟩ (some ⟨"a.rs"⟩)⟩,
    ⟨none, 0, false, .expand ⟨"b.rs"⟩ (some ⟨"a.rs"⟩)⟩,
    by decide, ?_⟩
  have hDone :
      (run ⟨none, 0, false, .expand ⟨"a.rs"⟩ (some ⟨"a.rs"⟩)⟩
        .empty .empty recordWorkspace).failure = none := by
    rw [← Option.isNone_iff_eq_none]
    decide +kernel
  have hFailed :
      (run ⟨none, 0, false, .expand ⟨"b.rs"⟩ (some ⟨"a.rs"⟩)⟩
        .empty .empty recordWorkspace).failure ≠ none := by
    rw [← Option.isSome_iff_ne_none]
    decide +kernel
  exact ⟨hDone, (run_leaves _ _ _ _).2 hDone, by decide, hFailed,
    ((run_leaves _ _ _ _).1 hFailed).1⟩

end Invocation

end Nullary
