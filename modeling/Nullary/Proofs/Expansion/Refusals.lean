import Nullary.Proofs.Expansion.Hosts
import Nullary.Proofs.Expansion.Verdicts

/-
  The items that a marker refuses whatever is declared next
  to them.

  These are the items other than records and the records that
  are not public.  Where such an item of a file carries a
  marker among the attributes that count for it, the
  expansion of the file reports the same error at the first
  marker of the item, with or without arguments.

  Main declarations:
    * `Item.AlwaysRefused`
    * `Item.lastingObjection?`
    * `Item.alwaysRefused_iff`
    * `Expansion.reports_alwaysRefused`
-/

namespace Nullary

------------------------------------------------------------
-- Lasting Objections
------------------------------------------------------------

namespace Item

variable {item : Item}
variable {kind : DiagnosticKind}

/-
  A marker with the arguments is followed by an error,
  whatever the members next to the item are.
-/
def AlwaysRefused
    (arguments : Tokens)
    (item : Item) : Prop :=
  ∀ siblings, ∃ message,
    item.expandMarker arguments siblings =
      item.tokens ++ errorTokens message

/-
  What can be said against a constructor for an item in every
  body.
-/
def lastingObjection? : Item → Option DiagnosticKind
  | struct record =>
      if record.visibility.scope ≠ .everywhere then
        some .nonPublicType
      else
        none
  | _ => some .ineligibleKind

/- Attributes are no part of what is objected to. -/
@[simp] theorem lastingObjection?_withAttributes
    (attributes : List Attribute)
    (tokens : Tokens)
    (item : Item) :
    (item.withAttributes attributes tokens).lastingObjection? =
      item.lastingObjection? := by
  cases item <;> rfl

/- A lasting objection is an error. -/
theorem severity_of_lastingObjection?
    (hLasting : item.lastingObjection? = some kind) :
    kind.severity = .error := by
  cases item with
  | struct record =>
      simp only [lastingObjection?,
        Option.ite_none_right_eq_some] at hLasting
      cases hLasting.2
      rfl
  | _ =>
      cases hLasting
      rfl

/- It is the first objection in every body. -/
theorem objection?_of_lastingObjection?
    (hLasting : item.lastingObjection? = some kind)
    (body : List Item) :
    item.objection? body = some kind := by
  cases item with
  | struct record =>
      simp only [lastingObjection?,
        Option.ite_none_right_eq_some] at hLasting
      rw [objection?, if_pos hLasting.1, hLasting.2]
  | _ => exact hLasting

/- The members next to an item do not answer it. -/
theorem outcome_of_lastingObjection?
    {α : Type}
    (hLasting : item.lastingObjection? = some kind)
    (siblings : String → List Member)
    (anchor : α) :
    item.outcome siblings anchor =
      .rejected (.new kind defaultMarker anchor) := by
  cases item with
  | struct record =>
      simp only [lastingObjection?,
        Option.ite_none_right_eq_some] at hLasting
      rcases hLasting with ⟨hScope, hKind⟩
      cases hKind
      have hPrivate :
          record.visibility.modifiers.isPublic = false := by
        rw [← Bool.not_eq_true, Visibility.isPublic_modifiers]
        exact hScope
      simp [outcome, declaration?, StructItem.declaration,
        Declaration.withMembers, Declaration.evaluateNamed,
        Declaration.evaluate, Declaration.evaluateWith,
        DeclarationKind.isEligible, hPrivate]
  | _ =>
      cases hLasting
      rfl

theorem expandMarker_of_lastingObjection?
    (hLasting : item.lastingObjection? = some kind)
    (siblings : List Member) :
    item.expandMarker [] siblings =
      item.tokens ++ errorTokens (kind.message defaultMarker) := by
  unfold expandMarker markerTokens
  rw [outcome_of_lastingObjection? hLasting]
  rfl

/- Arguments are refused first of all. -/
theorem expandMarker_arguments
    {arguments : Tokens}
    (hArguments : arguments ≠ [])
    (item : Item)
    (siblings : List Member) :
    item.expandMarker arguments siblings =
      item.tokens ++ errorTokens argumentsMessage := by
  unfold expandMarker markerTokens
  rw [if_pos (by simpa using hArguments)]

/- A public record without members next to it is not refused. -/
theorem lastingObjection?_ne_none
    (hRefused : item.AlwaysRefused []) :
    item.lastingObjection? ≠ none := by
  intro hNone
  cases item with
  | struct record =>
      have hPublic :
          record.visibility.scope = .everywhere := by
        simpa [lastingObjection?] using hNone
      have hGranted : (struct record).objection? [] = none :=
        objection?_struct_eq_none_iff.mpr
          ⟨hPublic, by simp [Implements], by simp [Implements]⟩
      rcases hRefused (inherentMembers [] record.name) with
        ⟨message, hMessage⟩
      rw [expandMarker_eq, hGranted] at hMessage
      exact tokensFor_ne_errorTokens _ _ _
        (List.append_cancel_left hMessage)
  | _ => cases hNone

/-
  A marker refuses an item whatever is next to it if it has
  arguments, if the item is no record, or if the record is
  not public.
-/
theorem alwaysRefused_iff
    {arguments : Tokens} :
    item.AlwaysRefused arguments ↔
      arguments ≠ [] ∨ item.lastingObjection?.isSome = true := by
  constructor
  · intro hRefused
    by_cases hArguments : arguments = []
    · subst hArguments
      exact .inr (Option.isSome_iff_ne_none.mpr
        (lastingObjection?_ne_none hRefused))
    · exact .inl hArguments
  · intro hRefused siblings
    by_cases hArguments : arguments = []
    · subst hArguments
      rcases Option.isSome_iff_exists.mp
          (hRefused.resolve_left (fun hNil => hNil rfl)) with
        ⟨kind, hLasting⟩
      exact ⟨_, expandMarker_of_lastingObjection? hLasting siblings⟩
    · exact ⟨_, expandMarker_arguments hArguments item siblings⟩

end Item

------------------------------------------------------------
-- Reports of Lasting Objections
------------------------------------------------------------

namespace SourceFile

/- An item with a marker and a lasting objection is reported. -/
theorem exists_report_of_lastingObjection?
    {file : SourceFile}
    {names : List String}
    {p : Placement}
    (hPlace : p ∈ Item.placements file.items)
    {a : Attribute}
    (hMem : a ∈ p.item.attributes)
    (hMarker : a.isMarker names = true)
    {kind : DiagnosticKind}
    (hLasting : p.item.lastingObjection? = some kind) :
    ∃ first, (p.item.markers names).head? = some first ∧
      Diagnostic.new kind defaultMarker
          (Location.ofPosition first.span.start) ∈
        file.diagnostics names := by
  rcases MarkedItem.exists_ofPlacement?_iff.mpr
      ⟨a, hMem, hMarker⟩ with
    ⟨m, hMarked⟩
  rcases MarkedItem.ofPlacement?_eq_some_iff.mp hMarked with
    ⟨_, _, hMarkers⟩
  refine ⟨m.first, ?_, ?_⟩
  · rw [← hMarkers]
    rfl
  · rw [diagnostics_eq, List.mem_filterMap]
    refine ⟨m, List.mem_filterMap.mpr ⟨p, hPlace, hMarked⟩, ?_⟩
    unfold MarkedItem.report?
    rw [MarkedItem.objection?_of_ofPlacement? hMarked,
      Item.objection?_of_lastingObjection? hLasting]
    rfl

/- Where no constructor is added, nothing gets in a removal's way. -/
theorem removalsFit_of_expanded_eq_zero
    {file : SourceFile}
    {names : List String}
    (hNone : file.expanded names = 0)
    (body : List Char) :
    file.RemovalsFit names body := by
  intro m hM removal hRemoval
  rw [expanded_eq, List.countP_eq_zero] at hNone
  have hBlank :
      Edit.inserted (file.edits names body) removal.start = [] := by
    unfold Edit.inserted
    rw [List.flatMap_eq_nil_iff]
    intro e hE
    rw [List.mem_reverse, List.mem_filter, mem_edits_iff] at hE
    rcases hE with ⟨⟨n, hN, hEdit⟩, _⟩
    rcases MarkedItem.mem_edits_iff.mp hEdit with
      ⟨a, _, rfl⟩ | hInsertion
    · rfl
    · rcases MarkedItem.insertion?_eq_some_iff.mp hInsertion with
        ⟨_, _, hGranted, _⟩
      exact absurd (by simp [hGranted]) (hNone n hN)
  have hCut :
      SourceText.cut? (SourceText.byteSize (Edit.taken body removal))
          (Edit.taken body removal ++ []) =
        some (Edit.taken body removal, []) :=
    SourceText.cut?_append _ _
  rw [List.append_nil] at hCut
  simp [Edit.Cuts, hBlank, hCut]

end SourceFile

namespace Expansion

/- Of a text with an expansion the removals fit. -/
theorem removalsFit_of_ofText_eq_ok
    {names : List String}
    {text : List Char}
    {file : SourceFile}
    (hParse :
      SourceFile.parse? (dropByteOrderMark text) = some file)
    {e : Expansion}
    (hOk : ofText names text = .ok e) :
    file.RemovalsFit names (dropByteOrderMark text) := by
  rcases ofText_eq_ok_iff.mp hOk with
    ⟨found, source, hFound, hEdits, _⟩
  cases hParse.symm.trans hFound
  rw [← SourceFile.performAll?_edits_isSome_iff hParse, hEdits]
  rfl

/-
  What the marker refuses in every place, the expansion
  refuses too: where the item stands in a file with a marker
  among its attributes, the file reports an error with the
  marker's own message at the first marker of the item.  The
  arguments of the marker change nothing in this.  The
  expansion holds the report exactly if the removals fit, and
  they do where no record is given a constructor.
-/
theorem reports_alwaysRefused
    {names : List String}
    (hNames : markerName ∈ names)
    {text : List Char}
    {file : SourceFile}
    (hParse :
      SourceFile.parse? (dropByteOrderMark text) = some file)
    {p : Placement}
    (hPlace : p ∈ Item.placements file.items)
    {a : Attribute}
    (hMem : a ∈ p.item.attributes)
    (hPath : a.path.getLast? = some markerName)
    {attributes : List Attribute}
    {tokens : Tokens}
    (hRefused :
      (p.item.withAttributes attributes tokens).AlwaysRefused []) :
    (∀ arguments,
      (p.item.withAttributes attributes tokens).AlwaysRefused
        arguments) ∧
    (∃ first d, (p.item.markers names).head? = some first ∧
      d ∈ file.diagnostics names ∧
      d.isError = true ∧
      d.anchor = .ofPosition first.span.start ∧
      ∀ siblings,
        (p.item.withAttributes attributes tokens).expandMarker []
            siblings =
          (p.item.withAttributes attributes tokens).tokens ++
            errorTokens d.message) ∧
    ((∃ e, ofText names text = .ok e ∧
        e.diagnostics = file.diagnostics names ∧
        e.hasErrors = true) ↔
      file.RemovalsFit names (dropByteOrderMark text)) ∧
    (file.expanded names = 0 →
      file.RemovalsFit names (dropByteOrderMark text)) := by
  have hSome := Item.lastingObjection?_ne_none hRefused
  rcases Option.ne_none_iff_exists'.mp hSome with
    ⟨kind, hKind⟩
  have hLasting := hKind
  rw [Item.lastingObjection?_withAttributes] at hLasting
  have hMarker : a.isMarker names = true := by
    simp [Attribute.isMarker, hPath, hNames]
  rcases SourceFile.exists_report_of_lastingObjection? hPlace
      hMem hMarker hLasting with
    ⟨first, hFirst, hReport⟩
  have hError :
      (Diagnostic.new kind defaultMarker
        (Location.ofPosition first.span.start)).isError = true := by
    simp [Diagnostic.isError, Diagnostic.new,
      Item.severity_of_lastingObjection? hLasting]
  refine ⟨fun arguments => Item.alwaysRefused_iff.mpr
      (.inr (Option.isSome_iff_ne_none.mpr hSome)),
    ⟨first, _, hFirst, hReport, hError, rfl,
      Item.expandMarker_of_lastingObjection? hKind⟩, ?_,
    fun hNone => SourceFile.removalsFit_of_expanded_eq_zero hNone _⟩
  constructor
  · rintro ⟨e, hOk, _⟩
    exact removalsFit_of_ofText_eq_ok hParse hOk
  · intro hFit
    rcases (exists_ofText_eq_ok_iff names hParse).mpr hFit with
      ⟨source, hOk⟩
    exact ⟨_, hOk, rfl, List.any_eq_true.mpr ⟨_, hReport, hError⟩⟩

/-
  A private record is reported, though its marker has
  arguments.
-/
theorem reports_alwaysRefused_private_record :
    ∃ file p a,
      SourceFile.parse? (dropByteOrderMark
          "#[public_initialiser(x)] struct B;".toList) =
        some file ∧
      p ∈ Item.placements file.items ∧
      a ∈ p.item.attributes ∧
      a.path.getLast? = some markerName ∧
      (p.item.withAttributes [] []).AlwaysRefused [] ∧
      ∃ e,
        ofText [markerName]
            "#[public_initialiser(x)] struct B;".toList = .ok e ∧
        e.hasErrors = true := by
  have hAny :
      (SourceFile.parse? (dropByteOrderMark
        "#[public_initialiser(x)] struct B;".toList)).any
          (fun file => file.expanded [markerName] == 0 &&
            (Item.placements file.items).any fun p =>
              p.item.lastingObjection?.isSome &&
                p.item.attributes.any fun a =>
                  a.path.getLast? == some markerName) = true := by
    decide +kernel
  rcases (Option.any_eq_true _ _).mp hAny with
    ⟨file, hParse, hFile⟩
  rw [Bool.and_eq_true, beq_iff_eq] at hFile
  rcases List.any_eq_true.mp hFile.2 with ⟨p, hPlace, hItem⟩
  rw [Bool.and_eq_true] at hItem
  rcases List.any_eq_true.mp hItem.2 with ⟨a, hMem, hPath⟩
  rw [beq_iff_eq] at hPath
  have hRefused :
      (p.item.withAttributes [] []).AlwaysRefused [] := by
    rw [Item.alwaysRefused_iff,
      Item.lastingObjection?_withAttributes]
    exact .inr hItem.1
  rcases reports_alwaysRefused List.mem_cons_self hParse hPlace
      hMem hPath hRefused with
    ⟨_, _, hResult, hFit⟩
  rcases hResult.mpr (hFit hFile.1) with ⟨e, hOk, _, hErrors⟩
  exact ⟨file, p, a, hParse, hPlace, hMem, hPath, hRefused, e,
    hOk, hErrors⟩

/-
  The attributes of an import do not count: the marker would
  refuse the import in every place, and the expansion does
  not see the marker.
-/
theorem marked_import_unreported :
    ∃ item e,
      SourceFile.parse? "use a;".toList = some ⟨[item]⟩ ∧
      item.AlwaysRefused [] ∧
      ofText [markerName]
          "#[public_initialiser] use a;".toList = .ok e ∧
      e.source = "#[public_initialiser] use a;".toList ∧
      e.hasErrors = false := by
  have hImport :
      (SourceFile.parse? "use a;".toList).any
          (fun file => file.items.length == 1 &&
            file.items.all (·.lastingObjection?.isSome)) =
        true := by
    decide +kernel
  rcases (Option.any_eq_true _ _).mp hImport with
    ⟨⟨items⟩, hParse, hItems⟩
  rw [Bool.and_eq_true, beq_iff_eq, List.length_eq_one_iff]
    at hItems
  rcases hItems with ⟨⟨item, rfl⟩, hAll⟩
  have hLasting : item.lastingObjection?.isSome = true :=
    List.all_eq_true.mp hAll item List.mem_cons_self
  have hText :
      (ofText [markerName]
          "#[public_initialiser] use a;".toList).toOption =
        some ⟨"#[public_initialiser] use a;".toList, [], 0⟩ := by
    decide +kernel
  exact ⟨item, _, hParse,
    Item.alwaysRefused_iff.mpr (.inr hLasting),
    eq_ok_of_toOption hText, rfl, rfl⟩

end Expansion

end Nullary
