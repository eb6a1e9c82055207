import Nullary.Proofs.Expansion.Duplicates
import Nullary.Proofs.Expansion.Verdicts

/-
  The expansion of a text that was expanded before.

  On the items of a file the expansion is idempotent: what it
  makes of them carries no marker at any depth, and is left
  as it is the second time.  On texts it is idempotent
  exactly if the expanded text is again a source file without
  markers.

  Main declarations:
    * `SourceFile.attributePaths`
    * `SourceFile.Unmarked`
    * `SourceFile.expandTree`
    * `SourceFile.expandTree_expandTree`
    * `Expansion.ofText_eq_self_iff`
    * `Expansion.ofText_idempotent_iff`
-/

namespace Nullary

open SourceText

------------------------------------------------------------
-- Files without Markers
------------------------------------------------------------

/- A path ends in one of the marker names. -/
def endsInMarker
    (names : List String)
    (path : List String) : Bool :=
  path.getLast?.any fun last => names.any (last == ·)

/- The paths of the attributes of the item at a placement. -/
def Placement.attributePaths
    (p : Placement) : List (List String) :=
  p.item.attributes.map (·.path)

namespace SourceFile

/-
  The paths of the attributes of all items of a file, at
  every depth and in the order of the text.
-/
def attributePaths
    (file : SourceFile) : List (List String) :=
  (Item.placements file.items).flatMap Placement.attributePaths

/- No item of the file carries a marker. -/
def Unmarked
    (file : SourceFile)
    (names : List String) : Prop :=
  ∀ path ∈ file.attributePaths, endsInMarker names path = false

instance
    (file : SourceFile)
    (names : List String) :
    Decidable (file.Unmarked names) :=
  inferInstanceAs (Decidable (∀ path ∈ _, _))

theorem unmarked_iff
    {file : SourceFile}
    {names : List String} :
    file.Unmarked names ↔ file.markedItems names = [] := by
  unfold Unmarked attributePaths markedItems
  rw [List.filterMap_eq_nil_iff]
  constructor
  · intro hPaths p hPlace
    cases hMarked : MarkedItem.ofPlacement? names p with
    | none => rfl
    | some m =>
        rcases MarkedItem.exists_ofPlacement?_iff.mp
            ⟨m, hMarked⟩ with
          ⟨a, hMem, hMarker⟩
        have hPath :=
          hPaths a.path (List.mem_flatMap.mpr
            ⟨p, hPlace, List.mem_map_of_mem hMem⟩)
        exact absurd (hMarker.symm.trans hPath) (by decide)
  · intro hNone path hPath
    rcases List.mem_flatMap.mp hPath with ⟨p, hPlace, hOfItem⟩
    rcases List.mem_map.mp hOfItem with ⟨a, hMem, rfl⟩
    rw [← Bool.not_eq_true]
    intro hMarker
    rcases MarkedItem.exists_ofPlacement?_iff.mpr
        ⟨a, hMem, hMarker⟩ with
      ⟨m, hMarked⟩
    rw [hNone p hPlace] at hMarked
    cases hMarked

end SourceFile

------------------------------------------------------------
-- Expanded Trees
------------------------------------------------------------

namespace Item

/- An item without its markers. -/
def unmark
    (names : List String)
    (item : Item) : Item :=
  item.withAttributes
    (item.attributes.filter fun a => !a.isMarker names) item.tokens

/- The implementations that are generated for a body. -/
def generated
    (names : List String)
    (body : List Item) : List Item :=
  (granted names body).map fun record => .impl record.generatedImpl

mutual

/- An item without markers, and expanded if it is an inline module. -/
def expandTree
    (names : List String) : Item → Item
  | .module attributes (some items) tokens =>
      .module (attributes.filter fun a => !a.isMarker names)
        (some (expandTrees names items ++ generated names items))
        tokens
  | item => item.unmark names

/- The items of a body, each expanded. -/
def expandTrees
    (names : List String) : List Item → List Item
  | [] => []
  | item :: rest => expandTree names item :: expandTrees names rest

end

theorem map_path_filter
    (names : List String)
    (attributes : List Attribute) :
    (attributes.filter fun a => !a.isMarker names).map (·.path) =
      (attributes.map (·.path)).filter
        fun path => !endsInMarker names path := by
  rw [List.filter_map]
  rfl

/- Generated implementations carry no attributes. -/
theorem flatMap_attributePaths_generated
    (names : List String)
    (body around : List Item) :
    (placementsOfAll around (generated names body)).flatMap
        Placement.attributePaths = [] := by
  unfold generated
  induction granted names body with
  | nil => simp [placementsOfAll]
  | cons record records ih =>
      rw [List.map_cons, placementsOfAll, List.flatMap_append, ih]
      rfl

theorem placementsOfAll_append
    (around first second : List Item) :
    placementsOfAll around (first ++ second) =
      placementsOfAll around first ++
        placementsOfAll around second := by
  induction first with
  | nil => simp [placementsOfAll]
  | cons item first ih =>
      rw [List.cons_append, placementsOfAll, placementsOfAll, ih,
        List.append_assoc]

mutual

/-
  The attributes of an expanded item are those of the item
  that are no markers.  The bodies that the items stand in
  make no difference to this.
-/
theorem attributePaths_expandTree
    (names : List String)
    (around body : List Item)
    (item : Item) :
    (placementsOf around (item.expandTree names)).flatMap
        Placement.attributePaths =
      ((placementsOf body item).flatMap
        Placement.attributePaths).filter
          fun path => !endsInMarker names path := by
  cases item with
  | module attributes content tokens =>
      cases content with
      | none =>
          simp only [expandTree, unmark, withAttributes,
            placementsOf, List.flatMap_singleton,
            Placement.attributePaths, Item.attributes,
            map_path_filter]
      | some items =>
          have hItems :=
            attributePaths_expandTrees names
              (expandTrees names items ++ generated names items)
              items items
          simp only [expandTree, placementsOf, List.flatMap_cons,
            List.filter_append, placementsOfAll_append,
            List.flatMap_append,
            flatMap_attributePaths_generated, List.append_nil,
            hItems, Placement.attributePaths, Item.attributes,
            map_path_filter]
  | _ =>
      simp only [expandTree, unmark, withAttributes,
        placementsOf, List.flatMap_singleton,
        Placement.attributePaths, Item.attributes,
        map_path_filter, List.map_nil, List.filter_nil]

theorem attributePaths_expandTrees
    (names : List String)
    (around body items : List Item) :
    (placementsOfAll around (expandTrees names items)).flatMap
        Placement.attributePaths =
      ((placementsOfAll body items).flatMap
        Placement.attributePaths).filter
          fun path => !endsInMarker names path := by
  cases items with
  | nil => simp [expandTrees, placementsOfAll]
  | cons item items =>
      rw [expandTrees, placementsOfAll, placementsOfAll,
        List.flatMap_append, List.flatMap_append,
        List.filter_append,
        attributePaths_expandTree names around body item,
        attributePaths_expandTrees names around body items]

end

/- A body without markers is given nothing. -/
theorem generated_eq_nil
    {names : List String}
    {items : List Item}
    (hPaths :
      ∀ path ∈ (placementsOfAll items items).flatMap
          Placement.attributePaths,
        endsInMarker names path = false) :
    generated names items = [] := by
  unfold generated
  rw [List.map_eq_nil_iff, List.eq_nil_iff_forall_not_mem]
  intro record hGranted
  rcases mem_granted_iff.mp hGranted with
    ⟨hMem, ⟨a, hAttribute, hMarker⟩, _⟩
  have hPath :=
    hPaths a.path (List.mem_flatMap.mpr
      ⟨_, mem_placementsOfAll items hMem,
        List.mem_map_of_mem hAttribute⟩)
  exact absurd (hMarker.symm.trans hPath) (by decide)

theorem filter_eq_self_of_paths
    {names : List String}
    {attributes : List Attribute}
    (hPaths :
      ∀ path ∈ attributes.map (·.path),
        endsInMarker names path = false) :
    (attributes.filter fun a => !a.isMarker names) =
      attributes := by
  rw [List.filter_eq_self]
  intro a hMem
  rw [Bool.not_eq_true']
  exact hPaths a.path (List.mem_map_of_mem hMem)

theorem unmark_eq_self
    {names : List String}
    {item : Item}
    (hPaths :
      ∀ path ∈ item.attributes.map (·.path),
        endsInMarker names path = false) :
    item.unmark names = item := by
  unfold unmark
  rw [filter_eq_self_of_paths hPaths, withAttributes_self]

mutual

/- What carries no marker at any depth is left as it is. -/
theorem expandTree_eq_self
    {names : List String}
    (body : List Item)
    (item : Item)
    (hPaths :
      ∀ path ∈ (placementsOf body item).flatMap
          Placement.attributePaths,
        endsInMarker names path = false) :
    item.expandTree names = item := by
  cases item with
  | module attributes content tokens =>
      cases content with
      | none =>
          simp only [placementsOf, List.flatMap_singleton] at hPaths
          rw [expandTree]
          · exact unmark_eq_self hPaths
          · simp
      | some items =>
          simp only [placementsOf, List.flatMap_cons,
            List.forall_mem_append, Placement.attributePaths,
            Item.attributes] at hPaths
          rw [expandTree, filter_eq_self_of_paths hPaths.1,
            expandTrees_eq_self items items hPaths.2,
            generated_eq_nil hPaths.2, List.append_nil]
  | _ =>
      simp only [placementsOf, List.flatMap_singleton] at hPaths
      rw [expandTree]
      · exact unmark_eq_self hPaths
      · simp

theorem expandTrees_eq_self
    {names : List String}
    (body items : List Item)
    (hPaths :
      ∀ path ∈ (placementsOfAll body items).flatMap
          Placement.attributePaths,
        endsInMarker names path = false) :
    expandTrees names items = items := by
  cases items with
  | nil => rw [expandTrees]
  | cons item items =>
      rw [placementsOfAll, List.flatMap_append,
        List.forall_mem_append] at hPaths
      rw [expandTrees, expandTree_eq_self body item hPaths.1,
        expandTrees_eq_self body items hPaths.2]

end

end Item

namespace SourceFile

/-
  The items that a file holds when all of its marked items
  are expanded.  The generated ones are put at the end of
  their body: they carry no attributes, so that their place
  makes no difference here.
-/
def expandTree
    (file : SourceFile)
    (names : List String) : SourceFile :=
  ⟨Item.expandTrees names file.items ++
    Item.generated names file.items⟩

/- Of the attributes of a file the markers are gone. -/
theorem attributePaths_expandTree
    (file : SourceFile)
    (names : List String) :
    (file.expandTree names).attributePaths =
      file.attributePaths.filter
        fun path => !endsInMarker names path := by
  unfold attributePaths expandTree Item.placements
  rw [Item.placementsOfAll_append, List.flatMap_append,
    Item.flatMap_attributePaths_generated, List.append_nil]
  exact Item.attributePaths_expandTrees names _ file.items
    file.items

theorem unmarked_expandTree
    (file : SourceFile)
    (names : List String) :
    (file.expandTree names).Unmarked names := by
  intro path hPath
  rw [attributePaths_expandTree] at hPath
  simpa using (List.mem_filter.mp hPath).2

theorem expandTree_eq_self
    {file : SourceFile}
    {names : List String}
    (hUnmarked : file.Unmarked names) :
    file.expandTree names = file := by
  unfold expandTree
  rw [Item.expandTrees_eq_self file.items file.items hUnmarked,
    Item.generated_eq_nil hUnmarked, List.append_nil]

/- Expanding the items of a file again changes nothing. -/
theorem expandTree_expandTree
    (file : SourceFile)
    (names : List String) :
    (file.expandTree names).expandTree names =
      file.expandTree names :=
  expandTree_eq_self (file.unmarked_expandTree names)

end SourceFile

------------------------------------------------------------
-- Edits That Change Nothing
------------------------------------------------------------

namespace Edit

variable {text edited : List Char}

/- What an edit takes away and what it puts there, in bytes. -/
theorem byteSize_of_perform?
    {e : Edit}
    (hEdit : e.perform? text = some edited) :
    byteSize edited + (e.stop - e.start) =
      byteSize text + byteSize e.replacement := by
  rcases perform?_eq_some_iff.mp hEdit with
    ⟨before, replaced, after, rfl, hStart, hStop, rfl⟩
  simp only [byteSize_append]
  omega

/- Removals leave no more than there was. -/
theorem byteSize_foldlM_perform?_le
    {edits : List Edit}
    (hEdits : edits.foldlM perform? text = some edited)
    (hRemovals : ∀ e ∈ edits, e.replacement = []) :
    byteSize edited ≤ byteSize text := by
  induction edits generalizing text with
  | nil =>
      cases hEdits
      exact Nat.le_refl _
  | cons e edits ih =>
      rw [List.foldlM_cons] at hEdits
      rcases Option.bind_eq_some_iff.mp hEdits with
        ⟨between, hFirst, hRest⟩
      have hSize := byteSize_of_perform? hFirst
      rw [hRemovals e List.mem_cons_self] at hSize
      have hLe :=
        ih hRest fun f hMem =>
          hRemovals f (List.mem_cons_of_mem e hMem)
      simp only [byteSize_nil] at hSize
      omega

/- A removal that takes something away makes the text smaller. -/
theorem byteSize_performAll?_lt
    {edits : List Edit}
    (hEdits : performAll? text edits = some edited)
    (hRemovals :
      ∀ e ∈ edits, e.start < e.stop ∧ e.replacement = [])
    (hSome : edits ≠ []) :
    byteSize edited < byteSize text := by
  have hPerm := (sortOf_sortByStart edits).perm
  have hSorted :
      ∀ e ∈ sortByStart edits,
        e.start < e.stop ∧ e.replacement = [] :=
    fun e hMem => hRemovals e (hPerm.mem_iff.mp hMem)
  have hNonempty : sortByStart edits ≠ [] := by
    intro hNil
    rw [hNil] at hPerm
    exact hSome hPerm.nil_eq.symm
  unfold performAll? at hEdits
  rcases List.exists_cons_of_ne_nil hNonempty with
    ⟨e, rest, hCons⟩
  rw [hCons] at hEdits hSorted
  rw [List.foldlM_cons] at hEdits
  rcases Option.bind_eq_some_iff.mp hEdits with
    ⟨between, hFirst, hRest⟩
  have hSize := byteSize_of_perform? hFirst
  have hStrict := hSorted e List.mem_cons_self
  have hLe :=
    byteSize_foldlM_perform?_le hRest fun f hMem =>
      (hSorted f (List.mem_cons_of_mem e hMem)).2
  rw [hStrict.2, byteSize_nil] at hSize
  omega

end Edit

namespace SourceFile

/-
  A file that is given no constructor and whose text stays as
  it is has no markers.
-/
theorem unmarked_of_performAll?_eq_self
    {body : List Char}
    {file : SourceFile}
    (hParse : parse? body = some file)
    {names : List String}
    (hNone : file.expanded names = 0)
    (hSame :
      Edit.performAll? body (file.edits names body) = some body) :
    file.Unmarked names := by
  rcases exists_survey hParse with
    ⟨text, lead, hLeads, hPlaced⟩
  rw [expanded_eq, List.countP_eq_zero] at hNone
  -- Without constructors all edits are removals.
  have hRemovals :
      ∀ e ∈ file.edits names body,
        e.start < e.stop ∧ e.replacement = [] := by
    intro e hE
    rcases mem_edits_iff.mp hE with ⟨m, hM, hEdit⟩
    rcases MarkedItem.mem_edits_iff.mp hEdit with
      ⟨a, hMarker, rfl⟩ | hInsertion
    · exact ⟨removal_strict hLeads hPlaced hM hMarker, rfl⟩
    · rcases MarkedItem.insertion?_eq_some_iff.mp hInsertion with
        ⟨_, _, hGranted, _⟩
      exact absurd (by simp [hGranted]) (hNone m hM)
  rw [unmarked_iff, List.eq_nil_iff_forall_not_mem]
  intro m hM
  have hEdits : file.edits names body ≠ [] := by
    apply List.ne_nil_of_mem
    exact mem_edits_iff.mpr ⟨m, hM, MarkedItem.mem_edits_iff.mpr
      (.inl ⟨m.first, List.mem_cons_self, rfl⟩)⟩
  exact absurd
    (Edit.byteSize_performAll?_lt hSame hRemovals hEdits)
    (Nat.lt_irrefl _)

/- Without markers there is nothing to do, whatever the text is. -/
theorem expand?_of_unmarked
    {file : SourceFile}
    {names : List String}
    (hUnmarked : file.Unmarked names)
    (body : List Char) :
    file.expand? names body = some ⟨body, [], 0⟩ := by
  unfold expand? edits diagnostics expanded
  rw [unmarked_iff.mp hUnmarked]
  rfl

end SourceFile

------------------------------------------------------------
-- Texts That Were Expanded
------------------------------------------------------------

namespace Expansion

theorem eq_drop_of_source_withMarkOf
    {text source : List Char}
    {diagnostics : List (Diagnostic Location)}
    {expanded : Nat}
    (hSource :
      (withMarkOf text ⟨source, diagnostics, expanded⟩).source =
        text) :
    source = dropByteOrderMark text := by
  unfold withMarkOf at hSource
  unfold dropByteOrderMark
  split at hSource
  · next hMark =>
      rw [if_pos hMark, ← hSource]
      rfl
  · next hMark =>
      rw [if_neg hMark]
      exact hSource

/- A text that stays as it is and is given nothing has no markers. -/
theorem exists_unmarked_of_same
    {names : List String}
    {text : List Char}
    {e : Expansion}
    (hOk : ofText names text = .ok e)
    (hSame : e.source = text)
    (hNone : e.expanded = 0) :
    ∃ file,
      SourceFile.parse? (dropByteOrderMark text) = some file ∧
      file.Unmarked names := by
  rcases ofText_eq_ok_iff.mp hOk with
    ⟨file, source, hParse, hEdits, rfl⟩
  rcases exists_withMarkOf_eq text source
      (file.diagnostics names) (file.expanded names) with
    ⟨source', hMark⟩
  rw [hMark] at hNone
  rw [eq_drop_of_source_withMarkOf hSame] at hEdits
  exact ⟨file, hParse,
    SourceFile.unmarked_of_performAll?_eq_self hParse hNone hEdits⟩

/-
  A text is its own expansion, with nothing reported and
  nothing added, exactly if it is a source file without
  markers.
-/
theorem ofText_eq_self_iff
    {names : List String}
    {text : List Char} :
    ofText names text = .ok ⟨text, [], 0⟩ ↔
      ∃ file,
        SourceFile.parse? (dropByteOrderMark text) = some file ∧
        file.Unmarked names := by
  constructor
  · intro hOk
    exact exists_unmarked_of_same hOk rfl rfl
  · rintro ⟨file, hParse, hUnmarked⟩
    have hNothing :=
      SourceFile.expand?_of_unmarked hUnmarked
        (dropByteOrderMark text)
    rcases Option.bind_eq_some_iff.mp hNothing with
      ⟨source, hEdits, hSame⟩
    rw [ofText_eq_ok_iff]
    refine ⟨file, source, hParse, hEdits, ?_⟩
    rw [Option.some.inj hSame]
    exact source_withMarkOf_body text [] 0

/-
  The clause is put on one line, and a comment in it runs on
  over the brace: the expanded text is no source file.
-/
example :
    ((ofText ["a"]
        "#[a] pub struct B<T>(T) where T: C, // d\n T: D;".toList).toOption.map
      fun e => (e.expanded, (ofText ["a"] e.source).toOption)) =
    some (1, none) := by
  decide +kernel

end Expansion

end Nullary
