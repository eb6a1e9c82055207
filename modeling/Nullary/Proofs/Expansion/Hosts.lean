import Nullary.Proofs.Expansion.Verdicts
import Nullary.Proofs.Text.Quoted

/-
  The marker by itself and the expansion of a whole file come
  to the same verdict about a record.

  The marker looks for the body that declares the record in
  the whole file; the expansion knows the body that it is in.
  If only one body of the file declares a record of the name,
  both look at the same implementations.

  Main declarations:
    * `Item.bodies`
    * `Item.declaringBodies_eq`
    * `Item.siblingMembers?_eq`
    * `Item.expandMarker_eq`
    * `Expansion.expandMarker_agrees`
-/

namespace Nullary

open Nullary.Tokens

------------------------------------------------------------
-- Bodies of a File
------------------------------------------------------------

/- The items of an inline module at a placement. -/
def Placement.inlineBody?
    (p : Placement) : Option (List Item) :=
  match p.item with
  | .module _ content _ => content
  | _ => none

namespace Item

/-
  The module bodies of a file: its own items and those of
  every inline module in it.
-/
def bodies
    (items : List Item) : List (List Item) :=
  items :: (placements items).filterMap Placement.inlineBody?

mutual

theorem declaringBodiesIn_eq
    (name : String)
    (body : List Item)
    (item : Item) :
    declaringBodiesIn name item =
      ((placementsOf body item).filterMap
        Placement.inlineBody?).filter
          (·.any (declaresStruct name)) := by
  cases item with
  | module attributes content tokens =>
      cases content with
      | none =>
          simp [declaringBodiesIn, placementsOf,
            Placement.inlineBody?]
      | some items =>
          have hBody :
              Placement.inlineBody?
                  ⟨.module attributes (some items) tokens, body⟩ =
                some items :=
            rfl
          rw [declaringBodiesIn, placementsOf,
            declaringBodiesInAll_eq name items items,
            List.filterMap_cons_some hBody, List.filter_cons]
          split <;> rfl
  | _ =>
      simp [declaringBodiesIn, placementsOf,
        Placement.inlineBody?]

theorem declaringBodiesInAll_eq
    (name : String)
    (body : List Item)
    (items : List Item) :
    declaringBodiesInAll name items =
      ((placementsOfAll body items).filterMap
        Placement.inlineBody?).filter
          (·.any (declaresStruct name)) := by
  cases items with
  | nil => simp [declaringBodiesInAll, placementsOfAll]
  | cons item items =>
      rw [declaringBodiesInAll, placementsOfAll,
        declaringBodiesIn_eq name body item,
        declaringBodiesInAll_eq name body items,
        List.filterMap_append, List.filter_append]

end

/-
  The bodies that declare a record are found by a search of
  all bodies.
-/
theorem declaringBodies_eq
    (name : String)
    (items : List Item) :
    declaringBodies name items =
      (bodies items).filter (·.any (declaresStruct name)) := by
  unfold declaringBodies bodies placements
  rw [declaringBodiesInAll_eq name items items, List.filter_cons]
  split <;> rfl

mutual

/- The body of an item is the body around it, or one inside it. -/
theorem body_mem_of_mem_placementsOf
    (body : List Item)
    (item : Item)
    {p : Placement}
    (hMem : p ∈ placementsOf body item) :
    p.body ∈ body ::
      (placementsOf body item).filterMap
        Placement.inlineBody? := by
  cases item with
  | module attributes content tokens =>
      cases content with
      | none =>
          simp only [placementsOf, List.mem_singleton] at hMem
          rw [hMem]
          exact List.mem_cons_self
      | some items =>
          rw [placementsOf] at hMem ⊢
          have hBody :
              Placement.inlineBody?
                  ⟨.module attributes (some items) tokens, body⟩ =
                some items :=
            rfl
          rw [List.filterMap_cons_some hBody]
          rcases List.mem_cons.mp hMem with rfl | hInside
          · exact List.mem_cons_self
          · exact List.mem_cons_of_mem body
              (body_mem_of_mem_placementsOfAll items items
                hInside)
  | _ =>
      simp only [placementsOf, List.mem_singleton] at hMem
      rw [hMem]
      exact List.mem_cons_self

theorem body_mem_of_mem_placementsOfAll
    (body : List Item)
    (items : List Item)
    {p : Placement}
    (hMem : p ∈ placementsOfAll body items) :
    p.body ∈ body ::
      (placementsOfAll body items).filterMap
        Placement.inlineBody? := by
  cases items with
  | nil => simp [placementsOfAll] at hMem
  | cons item items =>
      rw [placementsOfAll] at hMem ⊢
      rw [List.filterMap_append, List.mem_cons, List.mem_append]
      rcases List.mem_append.mp hMem with hFirst | hRest
      · rcases List.mem_cons.mp
          (body_mem_of_mem_placementsOf body item hFirst) with
          hBody | hInside
        · exact Or.inl hBody
        · exact Or.inr (Or.inl hInside)
      · rcases List.mem_cons.mp
          (body_mem_of_mem_placementsOfAll body items hRest) with
          hBody | hInside
        · exact Or.inl hBody
        · exact Or.inr (Or.inr hInside)

end

/- Every item stands in a body of the file. -/
theorem body_mem_bodies
    {items : List Item}
    {p : Placement}
    (hMem : p ∈ placements items) :
    p.body ∈ bodies items :=
  body_mem_of_mem_placementsOfAll items items hMem

/-
  The only body that declares a record is the one that the
  record stands in.
-/
theorem siblingMembers?_eq
    {items : List Item}
    {record : StructItem}
    {body : List Item}
    (hPlace : ⟨.struct record, body⟩ ∈ placements items)
    (hUnique :
      ((bodies items).filter
        (·.any (declaresStruct record.name))).length = 1) :
    siblingMembers? items record.name =
      some (inherentMembers body record.name) := by
  have hBody : body ∈ bodies items := body_mem_bodies hPlace
  have hRecord : Item.struct record ∈ body :=
    mem_body_of_mem_placements hPlace
  have hDeclares :
      body.any (declaresStruct record.name) = true := by
    rw [List.any_eq_true]
    exact ⟨_, hRecord, by simp [declaresStruct]⟩
  have hFound :
      body ∈ (bodies items).filter
        (·.any (declaresStruct record.name)) :=
    List.mem_filter.mpr ⟨hBody, hDeclares⟩
  rcases List.length_eq_one_iff.mp hUnique with ⟨only, hOnly⟩
  rw [hOnly, List.mem_singleton] at hFound
  unfold siblingMembers?
  rw [declaringBodies_eq, hOnly, hFound]

end Item

------------------------------------------------------------
-- What Follows a Record
------------------------------------------------------------

theorem generatedString_inj
    {first second : String} :
    generatedString first = generatedString second ↔
      first = second := by
  unfold generatedString
  rw [TokenTree.literal.injEq, String.ofList_inj,
    Quoted.literal_inj, String.toList_inj]
  simp

theorem errorTokens_inj
    {first second : String} :
    errorTokens first = errorTokens second ↔
      first = second := by
  unfold errorTokens
  rw [List.append_right_inj, List.cons.injEq]
  simp [generatedGroup, generatedString_inj]

theorem warningTokens_inj
    {first second : String} :
    warningTokens first = warningTokens second ↔
      first = second := by
  simp [warningTokens, deprecationTokens, generatedGroup,
    generatedString_inj]

/- Constructors, errors and warnings start with different tokens. -/
theorem head?_tokensFor
    (f : Fragment)
    (record : StructItem) :
    (f.tokensFor record).head? = some (generatedWord "impl") :=
  rfl

theorem head?_errorTokens
    (message : String) :
    (errorTokens message).head? =
      some (.mark ':' true .nowhere) :=
  rfl

theorem head?_warningTokens
    (note : String) :
    (warningTokens note).head? = some (generatedWord "const") :=
  rfl

theorem tokensFor_ne_errorTokens
    (f : Fragment)
    (record : StructItem)
    (message : String) :
    f.tokensFor record ≠ errorTokens message := by
  intro hSame
  have hHead := congrArg List.head? hSame
  rw [head?_tokensFor, head?_errorTokens] at hHead
  cases hHead

theorem tokensFor_ne_warningTokens
    (f : Fragment)
    (record : StructItem)
    (note : String) :
    f.tokensFor record ≠ warningTokens note := by
  intro hSame
  have hHead := congrArg List.head? hSame
  rw [head?_tokensFor, head?_warningTokens] at hHead
  simp [generatedWord] at hHead

theorem errorTokens_ne_warningTokens
    (message note : String) :
    errorTokens message ≠ warningTokens note := by
  intro hSame
  have hHead := congrArg List.head? hSame
  rw [head?_errorTokens, head?_warningTokens] at hHead
  cases hHead

/- What the marker of a record adds, given the first objection. -/
def StructItem.verdictTokens
    (record : StructItem) : Option DiagnosticKind → Tokens
  | none => Fragment.publicInitializer.tokensFor record
  | some .redundantInitialiser =>
      warningTokens
        (DiagnosticKind.redundantInitialiser.message defaultMarker)
  | some kind => errorTokens (kind.message defaultMarker)

/- The marker decides as the expansion does with the same body. -/
theorem Item.expandMarker_eq
    (record : StructItem)
    (body : List Item) :
    (struct record).expandMarker []
        (inherentMembers body record.name) =
      record.tokens ++
        record.verdictTokens ((struct record).objection? body) := by
  have hOutcome :
      (struct record).outcome
          (fun _ => inherentMembers body record.name) () =
        .ofObjection () ((struct record).objection? body) :=
    outcome_eq (struct record) body ()
  unfold expandMarker markerTokens
  rw [hOutcome]
  congr 1
  cases (struct record).objection? body with
  | none =>
      exact List.flatMap_singleton
        (fun f : Fragment => f.tokensFor record) _
  | some kind => cases kind <;> rfl

namespace MarkedItem

variable {m : MarkedItem}
variable {record : StructItem}

/- A constructor follows the record if it is counted. -/
theorem verdictTokens_eq_tokensFor_iff :
    record.verdictTokens m.objection? =
        Fragment.publicInitializer.tokensFor record ↔
      m.isExpanded = true := by
  rw [isExpanded_eq]
  cases m.objection? with
  | none => simp [StructItem.verdictTokens]
  | some kind =>
      cases kind <;> simp [StructItem.verdictTokens,
        (tokensFor_ne_errorTokens _ _ _).symm,
        (tokensFor_ne_warningTokens _ _ _).symm]

/- An error follows it if an error with its message is reported. -/
theorem verdictTokens_eq_errorTokens_iff
    {message : String} :
    record.verdictTokens m.objection? = errorTokens message ↔
      ∃ d, m.outcome.diagnostic? = some d ∧
        d.isError = true ∧ d.message = message := by
  rw [diagnostic?_outcome]
  unfold report?
  cases m.objection? with
  | none =>
      simp [StructItem.verdictTokens, tokensFor_ne_errorTokens]
  | some kind =>
      cases kind <;> simp [StructItem.verdictTokens,
        errorTokens_inj, (errorTokens_ne_warningTokens _ _).symm,
        Diagnostic.new, Diagnostic.isError,
        DiagnosticKind.severity]

/- A warning follows it if a warning with its note is reported. -/
theorem verdictTokens_eq_warningTokens_iff
    {note : String} :
    record.verdictTokens m.objection? = warningTokens note ↔
      ∃ d, m.outcome.diagnostic? = some d ∧
        d.isWarning = true ∧ d.message = note := by
  rw [diagnostic?_outcome]
  unfold report?
  cases m.objection? with
  | none =>
      simp [StructItem.verdictTokens, tokensFor_ne_warningTokens]
  | some kind =>
      cases kind <;> simp [StructItem.verdictTokens,
        warningTokens_inj, errorTokens_ne_warningTokens,
        Diagnostic.new, Diagnostic.isWarning,
        DiagnosticKind.severity]

end MarkedItem

------------------------------------------------------------
-- Agreement
------------------------------------------------------------

namespace Expansion

/-
  For a marked record whose name one body of the file
  declares, the marker is followed by a constructor, by an
  error or by a warning as the expansion counts the record or
  reports it, with the same message.  The expansion of the
  text holds what is said of each marked item exactly if the
  removals fit.
-/
theorem expandMarker_agrees
    (names : List String)
    {text : List Char}
    {file : SourceFile}
    (hParse :
      SourceFile.parse? (dropByteOrderMark text) = some file)
    {m : MarkedItem}
    (hMem : m ∈ file.markedItems names)
    {record : StructItem}
    (hItem : m.item = .struct record)
    (hUnique :
      ((Item.bodies file.items).filter
        (·.any (Item.declaresStruct record.name))).length = 1) :
    ∃ siblings,
      Item.siblingMembers? file.items record.name =
          some siblings ∧
      (m.item.expandMarker [] siblings =
          record.tokens ++
            Fragment.publicInitializer.tokensFor record ↔
        m.isExpanded = true) ∧
      (∀ message,
        m.item.expandMarker [] siblings =
            record.tokens ++ errorTokens message ↔
          ∃ d, m.outcome.diagnostic? = some d ∧
            d.isError = true ∧ d.message = message) ∧
      (∀ note,
        m.item.expandMarker [] siblings =
            record.tokens ++ warningTokens note ↔
          ∃ d, m.outcome.diagnostic? = some d ∧
            d.isWarning = true ∧ d.message = note) ∧
      ((∃ e, ofText names text = .ok e ∧
          e.expanded =
            (file.markedItems names).countP (·.isExpanded) ∧
          e.diagnostics =
            (file.markedItems names).filterMap
              (·.outcome.diagnostic?)) ↔
        file.RemovalsFit names (dropByteOrderMark text)) := by
  have hPlace := (SourceFile.mem_markedItems_iff.mp hMem).1
  rw [hItem] at hPlace
  have hOutput :
      m.item.expandMarker []
          (Item.inherentMembers m.body record.name) =
        record.tokens ++ record.verdictTokens m.objection? := by
    unfold MarkedItem.objection?
    rw [hItem]
    exact Item.expandMarker_eq record m.body
  refine ⟨Item.inherentMembers m.body record.name,
    Item.siblingMembers?_eq hPlace hUnique, ?_, ?_, ?_, ?_⟩
  · rw [hOutput, List.append_right_inj]
    exact MarkedItem.verdictTokens_eq_tokensFor_iff
  · intro message
    rw [hOutput, List.append_right_inj]
    exact MarkedItem.verdictTokens_eq_errorTokens_iff
  · intro note
    rw [hOutput, List.append_right_inj]
    exact MarkedItem.verdictTokens_eq_warningTokens_iff
  · rw [← exists_ofText_eq_ok_iff names hParse]
    constructor
    · rintro ⟨⟨source, diagnostics, expanded⟩, hOk, rfl, rfl⟩
      exact ⟨source, hOk⟩
    · rintro ⟨source, hOk⟩
      exact ⟨_, hOk, rfl, rfl⟩

/-
  A record that is alone with its name is given a
  constructor by both.
-/
theorem expandMarker_agrees_unit_record :
    ∃ file m record,
      SourceFile.parse? (dropByteOrderMark
        "#[a] pub struct B;".toList) = some file ∧
      m ∈ file.markedItems ["a"] ∧
      m.item = .struct record ∧
      ((Item.bodies file.items).filter
        (·.any (Item.declaresStruct record.name))).length = 1 ∧
      m.isExpanded = true ∧
      ∃ siblings,
        Item.siblingMembers? file.items record.name =
            some siblings ∧
          m.item.expandMarker [] siblings =
            record.tokens ++
              Fragment.publicInitializer.tokensFor record := by
  have hAny :
      (SourceFile.parse? (dropByteOrderMark
        "#[a] pub struct B;".toList)).any
          (fun file =>
            (file.markedItems ["a"]).any fun m =>
              m.grantee?.any fun record =>
                ((Item.bodies file.items).filter
                  (·.any (Item.declaresStruct
                    record.name))).length == 1) = true := by
    decide +kernel
  rcases (Option.any_eq_true _ _).mp hAny with
    ⟨file, hParse, hFile⟩
  rcases List.any_eq_true.mp hFile with ⟨m, hMem, hMarked⟩
  rcases (Option.any_eq_true _ _).mp hMarked with
    ⟨record, hGrantee, hUnique⟩
  rcases MarkedItem.grantee?_eq_some_iff.mp hGrantee with
    ⟨hItem, hNone⟩
  have hExpanded : m.isExpanded = true := by
    rw [MarkedItem.isExpanded_eq, hNone]
    rfl
  rw [beq_iff_eq] at hUnique
  rcases expandMarker_agrees ["a"] hParse hMem hItem hUnique with
    ⟨siblings, hSiblings, hTokens, _⟩
  exact ⟨file, m, record, hParse, hMem, hItem, hUnique,
    hExpanded, siblings, hSiblings, hTokens.mpr hExpanded⟩

end Expansion

end Nullary
