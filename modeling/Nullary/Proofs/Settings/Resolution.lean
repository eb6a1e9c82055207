import Mathlib.Data.List.Forall2
import Nullary.Proofs.Environment.Placeholder
import Nullary.Proofs.Steps
import Nullary.Settings.Toml

/-
  When the source directories of settings can be resolved.

  A directory fails at its first placeholder that has neither
  a variable nor a fallback, whatever the placeholders before
  it put in, and settings fail at their first directory that
  does.  Otherwise only the directories with a placeholder
  change.

  Main declarations:
    * `Placeholder.Lacks`
    * `Environment.FirstLacks`
    * `Environment.substitute_eq_error_iff`
    * `Environment.substitute_of_not_lacks`
    * `Settings.ofToml_resolves`
-/

namespace Nullary

------------------------------------------------------------
-- Placeholders without a Value
------------------------------------------------------------

namespace Placeholder

/- There is no fallback, and the variable is not set. -/
def Lacks
    (e : Environment)
    (p : Placeholder) : Prop :=
  p.fallback = none ∧ e.value? (String.ofList p.name) = none

theorem value?_eq_none_iff
    {p : Placeholder}
    {e : Environment} :
    p.value? e = none ↔ p.Lacks e := by
  unfold value? Lacks
  split
  · next hSet => simp [hSet]
  · next hUnset => simp [hUnset]

theorem exists_value?_iff
    {p : Placeholder}
    {e : Environment} :
    (∃ value, p.value? e = some value) ↔ ¬ p.Lacks e := by
  rw [← value?_eq_none_iff, ← Option.ne_none_iff_exists']

end Placeholder

namespace Environment

variable {e : Environment}
variable {text : List Char}

/- A text holds a placeholder that has no value. -/
def SomeLacks
    (e : Environment)
    (text : List Char) : Prop :=
  ∃ pieces, Pieces text pieces ∧
    ∃ p ∈ Piece.placeholders pieces, p.Lacks e

/-
  The first placeholder of a text that has no value is for
  the given variable.
-/
def FirstLacks
    (e : Environment)
    (text : List Char)
    (name : String) : Prop :=
  ∃ pieces, Pieces text pieces ∧
    ∃ before p after,
      Piece.placeholders pieces = before ++ p :: after ∧
        (∀ q ∈ before, ¬ q.Lacks e) ∧
        p.Lacks e ∧ name = String.ofList p.name

theorem substituteOne_of_not_lacks
    {p : Placeholder}
    (hValue : ¬ p.Lacks e)
    (text : List Char) :
    ∃ changed, e.substituteOne text p = .ok changed := by
  rcases Placeholder.exists_value?_iff.mpr hValue with
    ⟨value, hSome⟩
  exact ⟨_, by rw [substituteOne, hSome]⟩

theorem substituteOne_of_lacks
    {p : Placeholder}
    (hLacks : p.Lacks e)
    (text : List Char) :
    e.substituteOne text p = .error (String.ofList p.name) := by
  rw [substituteOne, Placeholder.value?_eq_none_iff.mpr hLacks]

/-
  Whether a placeholder fails does not depend on the text that
  it finds.
-/
theorem foldlM_substituteOne
    (placeholders : List Placeholder)
    (text : List Char) :
    ((∀ p ∈ placeholders, ¬ p.Lacks e) ∧
        ∃ result,
          placeholders.foldlM e.substituteOne text = .ok result) ∨
      ∃ before p after,
        placeholders = before ++ p :: after ∧
          (∀ q ∈ before, ¬ q.Lacks e) ∧ p.Lacks e ∧
          placeholders.foldlM e.substituteOne text =
            .error (String.ofList p.name) := by
  induction placeholders generalizing text with
  | nil => exact Or.inl ⟨nofun, text, rfl⟩
  | cons p others ih =>
      rw [List.foldlM_cons]
      by_cases hLacks : p.Lacks e
      · refine Or.inr ⟨[], p, others, rfl, nofun, hLacks, ?_⟩
        rw [substituteOne_of_lacks hLacks, error_bind]
      · rcases substituteOne_of_not_lacks hLacks text with
          ⟨changed, hFirst⟩
        rw [hFirst, ok_bind]
        rcases ih changed with
          ⟨hOthers, hResult⟩ |
          ⟨before, q, after, rfl, hBefore, hFails, hError⟩
        · exact Or.inl
            ⟨List.forall_mem_cons.mpr ⟨hLacks, hOthers⟩, hResult⟩
        · exact Or.inr ⟨p :: before, q, after, rfl,
            List.forall_mem_cons.mpr ⟨hLacks, hBefore⟩, hFails,
            hError⟩

/- A text in which every placeholder has a value. -/
theorem substitute_of_not_lacks
    (hValues : ¬ e.SomeLacks text) :
    ∃ result, e.substitute text = .ok result := by
  rcases exists_pieces text with ⟨pieces, hPieces⟩
  unfold substitute
  rw [hPieces.findAll_eq]
  rcases foldlM_substituteOne (Piece.placeholders pieces) text with
    ⟨_, hResult⟩ | ⟨before, p, after, hSplit, _, hLacks, _⟩
  · exact hResult
  · exact absurd ⟨pieces, hPieces, p, by simp [hSplit], hLacks⟩
      hValues

/- The first placeholder without a value decides. -/
theorem substitute_eq_error_iff
    {name : String} :
    e.substitute text = .error name ↔ e.FirstLacks text name := by
  constructor
  · intro hError
    rcases exists_pieces text with ⟨pieces, hPieces⟩
    unfold substitute at hError
    rw [hPieces.findAll_eq] at hError
    rcases foldlM_substituteOne (Piece.placeholders pieces) text with
      ⟨_, result, hResult⟩ |
      ⟨before, p, after, hSplit, hBefore, hLacks, hFails⟩
    · rw [hResult] at hError
      cases hError
    · rw [hFails] at hError
      exact ⟨pieces, hPieces, before, p, after, hSplit, hBefore,
        hLacks, (Except.error.inj hError).symm⟩
  · rintro ⟨pieces, hPieces, before, p, after, hSplit, hBefore,
      hLacks, rfl⟩
    unfold substitute
    rw [hPieces.findAll_eq, hSplit, List.foldlM_append]
    rcases foldlM_substituteOne before text with
      ⟨_, changed, hFirst⟩ |
      ⟨first, q, second, rfl, _, hFails, _⟩
    · rw [hFirst, ok_bind, List.foldlM_cons,
        substituteOne_of_lacks hLacks, error_bind]
    · exact absurd hFails (hBefore q (by simp))

theorem someLacks_iff :
    e.SomeLacks text ↔ ∃ name, e.FirstLacks text name := by
  constructor
  · rintro ⟨pieces, hPieces, p, hMem, hLacks⟩
    rcases foldlM_substituteOne (Piece.placeholders pieces) text with
      ⟨hNone, _⟩ | ⟨before, q, after, hSplit, hBefore, hFails, _⟩
    · exact absurd hLacks (hNone p hMem)
    · exact ⟨_, pieces, hPieces, before, q, after, hSplit, hBefore,
        hFails, rfl⟩
  · rintro ⟨_, pieces, hPieces, before, p, after, hSplit, _,
      hLacks, _⟩
    exact ⟨pieces, hPieces, p, by simp [hSplit], hLacks⟩

/- A text without placeholders is kept. -/
theorem substitute_of_no_placeholder
    {pieces : List Piece}
    (hPieces : Pieces text pieces)
    (hNone : Piece.placeholders pieces = []) :
    e.substitute text = .ok text := by
  unfold substitute
  rw [hPieces.findAll_eq, hNone]
  rfl

end Environment

------------------------------------------------------------
-- Settings
------------------------------------------------------------

namespace Settings

variable {e : Environment}

theorem resolveDir_eq_ok_iff
    {dir resolved : String} :
    resolveDir e dir = .ok resolved ↔
      e.substitute dir.toList = .ok resolved.toList := by
  unfold resolveDir
  cases e.substitute dir.toList with
  | error name => simp
  | ok text =>
      simp only [Except.ok.injEq]
      constructor
      · rintro rfl
        simp
      · rintro rfl
        simp

theorem resolveDir_eq_error_iff
    {dir : String}
    {error : SettingsError} :
    resolveDir e dir = .error error ↔
      ∃ name, error = .unset name ∧
        e.FirstLacks dir.toList name := by
  simp only [← Environment.substitute_eq_error_iff]
  unfold resolveDir
  cases e.substitute dir.toList with
  | error name => simp [eq_comm]
  | ok text => simp

/- Directories that can all be resolved, or the first that cannot. -/
theorem mapM_resolveDir
    (dirs : List String) :
    ((∀ dir ∈ dirs, ¬ e.SomeLacks dir.toList) ∧
        ∃ resolved, dirs.mapM (resolveDir e) = .ok resolved ∧
          List.Forall₂ (fun dir found => resolveDir e dir = .ok found)
            dirs resolved) ∨
      ∃ before dir after name,
        dirs = before ++ dir :: after ∧
          (∀ other ∈ before, ¬ e.SomeLacks other.toList) ∧
          e.FirstLacks dir.toList name ∧
          dirs.mapM (resolveDir e) = .error (.unset name) := by
  induction dirs with
  | nil => exact Or.inl ⟨nofun, [], rfl, .nil⟩
  | cons dir dirs ih =>
      rw [List.mapM_cons]
      by_cases hLacks : e.SomeLacks dir.toList
      · rcases Environment.someLacks_iff.mp hLacks with ⟨name, hFirst⟩
        refine Or.inr ⟨[], dir, dirs, name, rfl, nofun, hFirst, ?_⟩
        rw [resolveDir_eq_error_iff.mpr ⟨name, rfl, hFirst⟩,
          error_bind]
      · rcases Environment.substitute_of_not_lacks hLacks with
          ⟨text, hText⟩
        have hHere : resolveDir e dir = .ok (String.ofList text) :=
          resolveDir_eq_ok_iff.mpr (by simpa using hText)
        rw [hHere, ok_bind]
        rcases ih with
          ⟨hOthers, resolved, hMap, hEach⟩ |
          ⟨before, other, after, name, rfl, hBefore, hFirst, hError⟩
        · left
          refine ⟨List.forall_mem_cons.mpr ⟨hLacks, hOthers⟩, ?_⟩
          rw [hMap]
          exact ⟨_, rfl, .cons hHere hEach⟩
        · right
          refine ⟨dir :: before, other, after, name, rfl,
            List.forall_mem_cons.mpr ⟨hLacks, hBefore⟩, hFirst, ?_⟩
          rw [hError, error_bind]

theorem ofToml_eq
    {text : List Char}
    {s : Settings}
    (hParse : parse? text = some s) :
    ofToml e text =
      (s.check.sourceDirs.mapM (resolveDir e) >>= fun dirs =>
        .ok { s with check := { s.check with sourceDirs := dirs } }) := by
  unfold ofToml
  rw [hParse]
  rfl

/- The directory where settings fail, and the variable. -/
theorem ofToml_eq_unset_iff
    {text : List Char}
    {s : Settings}
    (hParse : parse? text = some s)
    (name : String) :
    ofToml e text = .error (.unset name) ↔
      ∃ before dir after,
        s.check.sourceDirs = before ++ dir :: after ∧
          (∀ other ∈ before, ¬ e.SomeLacks other.toList) ∧
          e.FirstLacks dir.toList name := by
  rw [ofToml_eq hParse]
  constructor
  · intro hError
    rcases mapM_resolveDir s.check.sourceDirs with
      ⟨_, resolved, hMap, _⟩ |
      ⟨before, dir, after, found, hSplit, hBefore, hFirst, hMap⟩
    · rw [hMap] at hError
      cases hError
    · rw [hMap] at hError
      cases hError
      exact ⟨before, dir, after, hSplit, hBefore, hFirst⟩
  · rintro ⟨before, dir, after, hSplit, hBefore, hFirst⟩
    have hResolved :
        ∀ other ∈ before, ∃ found, resolveDir e other = .ok found := by
      intro other hMem
      rcases Environment.substitute_of_not_lacks
          (hBefore other hMem) with
        ⟨found, hFound⟩
      exact ⟨String.ofList found,
        resolveDir_eq_ok_iff.mpr (by simpa using hFound)⟩
    rw [hSplit, mapM_eq_error hResolved
      (resolveDir_eq_error_iff.mpr ⟨name, rfl, hFirst⟩), error_bind]

/- A resolved directory is the one that is written, with values. -/
theorem resolved_of_resolveDir
    {dir resolved : String}
    (hResolve : resolveDir e dir = .ok resolved) :
    e.substitute dir.toList = .ok resolved.toList ∧
      ((∃ pieces, Pieces dir.toList pieces ∧
          Piece.placeholders pieces = []) →
        resolved = dir) := by
  have hSubstitute := resolveDir_eq_ok_iff.mp hResolve
  refine ⟨hSubstitute, ?_⟩
  rintro ⟨pieces, hPieces, hNone⟩
  rw [Environment.substitute_of_no_placeholder hPieces hNone]
    at hSubstitute
  exact (String.toList_injective (Except.ok.inj hSubstitute)).symm

/-
  Settings in an environment fail if some directory has a
  placeholder without a value, and then for the first such
  placeholder of the first such directory.  Otherwise they
  succeed with the directories in their order, each resolved
  by itself, and with all else as it is written.
-/
theorem ofToml_resolves
    {text : List Char}
    {s : Settings}
    (hParse : parse? text = some s)
    (e : Environment) :
    ((∃ name, ofToml e text = .error (.unset name)) ↔
        ∃ dir ∈ s.check.sourceDirs, e.SomeLacks dir.toList) ∧
      (∀ name,
        ofToml e text = .error (.unset name) ↔
          ∃ before dir after,
            s.check.sourceDirs = before ++ dir :: after ∧
              (∀ other ∈ before, ¬ e.SomeLacks other.toList) ∧
              e.FirstLacks dir.toList name) ∧
      ((∀ dir ∈ s.check.sourceDirs, ¬ e.SomeLacks dir.toList) →
        ∃ dirs,
          ofToml e text =
              .ok { s with check := { s.check with sourceDirs := dirs } } ∧
            List.Forall₂
              (fun dir resolved =>
                e.substitute dir.toList = .ok resolved.toList ∧
                  ((∃ pieces, Pieces dir.toList pieces ∧
                      Piece.placeholders pieces = []) →
                    resolved = dir))
              s.check.sourceDirs dirs) := by
  have hUnset := ofToml_eq_unset_iff (e := e) hParse
  refine ⟨?_, hUnset, ?_⟩
  · constructor
    · rintro ⟨name, hError⟩
      rcases (hUnset name).mp hError with
        ⟨before, dir, after, hSplit, _, hFirst⟩
      exact ⟨dir, by simp [hSplit],
        Environment.someLacks_iff.mpr ⟨name, hFirst⟩⟩
    · rintro ⟨dir, hMem, hLacks⟩
      rcases mapM_resolveDir s.check.sourceDirs with
        ⟨hNone, _⟩ |
        ⟨before, other, after, name, hSplit, hBefore, hFirst, _⟩
      · exact absurd hLacks (hNone dir hMem)
      · exact ⟨name, (hUnset name).mpr
          ⟨before, other, after, hSplit, hBefore, hFirst⟩⟩
  · intro hValues
    rcases mapM_resolveDir s.check.sourceDirs with
      ⟨_, resolved, hMap, hEach⟩ |
      ⟨before, dir, after, name, hSplit, _, hFirst, _⟩
    · refine ⟨resolved, ?_, hEach.imp fun _ _ => resolved_of_resolveDir⟩
      rw [ofToml_eq hParse, hMap, ok_bind]
    · exact absurd (Environment.someLacks_iff.mpr ⟨name, hFirst⟩)
        (hValues dir (by simp [hSplit]))

/- Of two variables that are not set the first one is named. -/
theorem ofToml_resolves_two_unset :
    ∃ s,
      parse? "[check]\nsource_dirs = ['a', '$\x7bX\x7d$\x7bY\x7d']".toList =
          some s ∧
        ofToml .empty
            "[check]\nsource_dirs = ['a', '$\x7bX\x7d$\x7bY\x7d']".toList =
          .error (.unset "X") ∧
        ∃ before dir after,
          s.check.sourceDirs = before ++ dir :: after ∧
            (∀ other ∈ before,
              ¬ Environment.empty.SomeLacks other.toList) ∧
            Environment.empty.FirstLacks dir.toList "X" := by
  have hSome :
      (parse?
        "[check]\nsource_dirs = ['a', '$\x7bX\x7d$\x7bY\x7d']".toList).isSome =
        true := by
    decide +kernel
  rcases Option.isSome_iff_exists.mp hSome with ⟨s, hParse⟩
  have hError :
      ofToml .empty
          "[check]\nsource_dirs = ['a', '$\x7bX\x7d$\x7bY\x7d']".toList =
        .error (.unset "X") := by
    decide +kernel
  exact ⟨s, hParse, hError,
    ((ofToml_resolves hParse .empty).2.1 "X").mp hError⟩

end Settings

end Nullary
