import Nullary.Proofs.Expansion.Splicing
import Nullary.Proofs.Source.Fitting

/-
  What the expansion of a file says of its marked items.

  Each of them is counted or reported.  The expansion says
  exactly this, unless the removal of a marker would cut a
  character of a constructor that is put at its start; then
  there is no expansion.

  Main declarations:
    * `SourceFile.RemovalsFit`
    * `SourceFile.performAll?_edits_isSome_iff`
    * `Expansion.exists_ofText_eq_ok_iff`
    * `Expansion.ofText_verdicts`
-/

namespace Nullary

------------------------------------------------------------
-- Removals That Fit
------------------------------------------------------------

namespace SourceFile

/-
  What is put at the start of the range of a marker and what
  stands in the range can be cut after as many bytes as the
  range has.
-/
def RemovalsFit
    (file : SourceFile)
    (names : List String)
    (body : List Char) : Prop :=
  ∀ m ∈ file.markedItems names,
    ∀ removal ∈ m.removals body,
      Edit.Cuts
        (Edit.inserted (file.edits names body) removal.start)
        (Edit.taken body removal)

instance
    (file : SourceFile)
    (names : List String)
    (body : List Char) :
    Decidable (file.RemovalsFit names body) :=
  inferInstanceAs (Decidable (∀ m ∈ _, _))

/-
  The edits of a file can be applied in turn if the removals
  fit.
-/
theorem performAll?_edits_isSome_iff
    {body : List Char}
    {file : SourceFile}
    (hParse : parse? body = some file)
    (names : List String) :
    (Edit.performAll? body (file.edits names body)).isSome =
        true ↔
      file.RemovalsFit names body := by
  rcases exists_survey hParse with
    ⟨text, lead, hLeads, hPlaced⟩
  have hArranged := arranged_edits hLeads hPlaced names
  rw [Edit.performAll?_isSome_iff hArranged]
  constructor
  · intro hCuts m hM removal hRemoval
    apply hCuts
    exact mem_edits_iff.mpr
      ⟨m, hM, List.mem_append_left _ hRemoval⟩
  · intro hFit e hE
    rcases mem_edits_iff.mp hE with ⟨m, hM, hEdit⟩
    rcases List.mem_append.mp hEdit with hRemoval | hInsertion
    · exact hFit m hM e hRemoval
    · rw [Option.mem_toList] at hInsertion
      have hEmpty :=
        MarkedItem.insertion_start_eq_stop hInsertion
      rw [(hArranged.fits e hE).taken_eq_nil hEmpty]
      exact Edit.cuts_nil_right _

end SourceFile

------------------------------------------------------------
-- The Expansion of a Text
------------------------------------------------------------

namespace Expansion

theorem source_withMarkOf_body
    (text : List Char)
    (diagnostics : List (Diagnostic Location))
    (expanded : Nat) :
    withMarkOf text
        ⟨dropByteOrderMark text, diagnostics, expanded⟩ =
      ⟨text, diagnostics, expanded⟩ := by
  unfold withMarkOf dropByteOrderMark
  split
  · next hMark =>
      rcases List.head?_eq_some_iff.mp hMark with ⟨rest, rfl⟩
      rfl
  · rfl

/- The mark of a text is no part of what is said of the items. -/
theorem exists_withMarkOf_eq
    (text source : List Char)
    (diagnostics : List (Diagnostic Location))
    (expanded : Nat) :
    ∃ source',
      withMarkOf text ⟨source, diagnostics, expanded⟩ =
        ⟨source', diagnostics, expanded⟩ := by
  unfold withMarkOf
  split
  · exact ⟨byteOrderMark :: source, rfl⟩
  · exact ⟨source, rfl⟩

/- There is an expansion exactly if the removals fit. -/
theorem exists_ofText_eq_ok_iff
    (names : List String)
    {text : List Char}
    {file : SourceFile}
    (hParse :
      SourceFile.parse? (dropByteOrderMark text) = some file) :
    (∃ source,
        ofText names text =
          .ok ⟨source, file.diagnostics names,
            file.expanded names⟩) ↔
      file.RemovalsFit names (dropByteOrderMark text) := by
  rw [← SourceFile.performAll?_edits_isSome_iff hParse,
    ofText_eq names hParse]
  cases Edit.performAll? (dropByteOrderMark text)
      (file.edits names (dropByteOrderMark text)) with
  | none => simp
  | some source =>
      rcases exists_withMarkOf_eq text source
          (file.diagnostics names) (file.expanded names) with
        ⟨source', hMark⟩
      simp only [hMark, Option.isSome_some, iff_true]
      exact ⟨source', rfl⟩

theorem ofText_eq_misfit_iff
    (names : List String)
    {text : List Char}
    {file : SourceFile}
    (hParse :
      SourceFile.parse? (dropByteOrderMark text) = some file) :
    ofText names text = .error .misfit ↔
      ¬ file.RemovalsFit names (dropByteOrderMark text) := by
  rw [← SourceFile.performAll?_edits_isSome_iff hParse,
    ofText_eq names hParse]
  cases Edit.performAll? (dropByteOrderMark text)
      (file.edits names (dropByteOrderMark text)) with
  | none => simp
  | some source => simp

/-
  The expansion of a source file lists its marked items by
  their paths, counts those without an objection and reports
  the first objection to each of the others.  It does so
  exactly if the removals fit; if they do not, there is no
  expansion.
-/
theorem ofText_verdicts
    (names : List String)
    {text : List Char}
    {file : SourceFile}
    (hParse :
      SourceFile.parse? (dropByteOrderMark text) = some file) :
    ∃ marked, file.ListsMarked names marked ∧
      ((∃ source,
          ofText names text =
            .ok ⟨source, marked.filterMap MarkedItem.report?,
              marked.countP (·.objection?.isNone)⟩) ↔
        file.RemovalsFit names (dropByteOrderMark text)) ∧
      (¬ file.RemovalsFit names (dropByteOrderMark text) →
        ofText names text = .error .misfit) ∧
      marked.countP (·.objection?.isNone) +
          (marked.filterMap MarkedItem.report?).length =
        marked.length ∧
      (marked = [] → ofText names text = .ok ⟨text, [], 0⟩) := by
  have hText := ofText_eq names hParse
  have hOk := exists_ofText_eq_ok_iff names hParse
  rw [SourceFile.diagnostics_eq, SourceFile.expanded_eq] at hOk
  refine ⟨file.markedItems names,
    file.listsMarked_markedItems names, hOk, ?_,
    MarkedItem.countP_add_length_reports _, ?_⟩
  · intro hNot
    rw [← SourceFile.performAll?_edits_isSome_iff hParse,
      Bool.not_eq_true, Option.isSome_eq_false_iff,
      Option.isNone_iff_eq_none] at hNot
    rw [hText, hNot]
  · intro hNone
    have hEdits :
        file.edits names (dropByteOrderMark text) = [] := by
      unfold SourceFile.edits
      rw [hNone, List.flatMap_nil]
    have hPerform :
        Edit.performAll? (dropByteOrderMark text) [] =
          some (dropByteOrderMark text) :=
      rfl
    rw [hText, hEdits, hPerform, SourceFile.diagnostics_eq,
      SourceFile.expanded_eq, hNone]
    exact congrArg Except.ok (source_withMarkOf_body text [] 0)

/- One record is given a constructor, an enumeration is reported. -/
theorem ofText_verdicts_record_and_enumeration :
    ∃ file,
      SourceFile.parse? (dropByteOrderMark
          "#[a] pub struct B; #[a] enum C \x7b\x7d".toList) =
        some file ∧
      file.RemovalsFit ["a"] (dropByteOrderMark
        "#[a] pub struct B; #[a] enum C \x7b\x7d".toList) ∧
      ∃ marked source, file.ListsMarked ["a"] marked ∧
        ofText ["a"]
            "#[a] pub struct B; #[a] enum C \x7b\x7d".toList =
          .ok ⟨source, marked.filterMap MarkedItem.report?,
            marked.countP (·.objection?.isNone)⟩ := by
  have hAny :
      (SourceFile.parse? (dropByteOrderMark
        "#[a] pub struct B; #[a] enum C \x7b\x7d".toList)).any
          (fun file => decide (file.RemovalsFit ["a"]
            (dropByteOrderMark
              "#[a] pub struct B; #[a] enum C \x7b\x7d".toList))) =
        true := by
    decide +kernel
  rcases (Option.any_eq_true _ _).mp hAny with
    ⟨file, hParse, hFit⟩
  rw [decide_eq_true_eq] at hFit
  rcases ofText_verdicts ["a"] hParse with
    ⟨marked, hMarked, hResult, _⟩
  rcases hResult.mpr hFit with ⟨source, hSource⟩
  exact ⟨file, hParse, hFit, marked, source, hMarked, hSource⟩

/-
  The removal of the second marker cuts a letter of the
  first name.
-/
example :
    (ofText ["a"]
        "#[a]    pub struct é;#[a]    pub struct C;".toList).toOption =
      none := by
  decide +kernel

end Expansion

end Nullary
