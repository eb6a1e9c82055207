import Mathlib.Data.List.Forall2
import Nullary.Expansion.Basic
import Nullary.Proofs.Expansion.Placements
import Nullary.Proofs.Item.Decision

/-
  The marked items of a file: which they are, what comes of
  them, and what edits they call for.

  They are listed by their paths, each once and an item
  before what stands inside it.  Each of them either is given
  a constructor or is reported with the first objection to
  it.

  Main declarations:
    * `SourceFile.ListsMarked`
    * `SourceFile.listsMarked_markedItems`
    * `MarkedItem.objection?`
    * `MarkedItem.report?`
    * `MarkedItem.insertion?_eq_some_iff`
    * `SourceFile.diagnostics_eq`
    * `SourceFile.expanded_eq`
-/

namespace Nullary

------------------------------------------------------------
-- Marked Items
------------------------------------------------------------

namespace MarkedItem

theorem ofPlacement?_eq_some_iff
    {names : List String}
    {p : Placement}
    {m : MarkedItem} :
    ofPlacement? names p = some m ↔
      m.item = p.item ∧ m.body = p.body ∧
        m.first :: m.others = p.item.markers names := by
  unfold ofPlacement?
  constructor
  · intro hSome
    split at hSome
    · cases hSome
    · next first others hMarkers =>
        cases hSome
        exact ⟨rfl, rfl, hMarkers.symm⟩
  · rintro ⟨hItem, hBody, hMarkers⟩
    rw [← hMarkers]
    rcases m with ⟨item, body, first, others⟩
    simp_all

/- An item with a marker is a marked item. -/
theorem exists_ofPlacement?_iff
    {names : List String}
    {p : Placement} :
    (∃ m, ofPlacement? names p = some m) ↔
      ∃ a ∈ p.item.attributes, a.isMarker names = true := by
  constructor
  · rintro ⟨m, hSome⟩
    have hMem : m.first ∈ p.item.markers names := by
      rw [← (ofPlacement?_eq_some_iff.mp hSome).2.2]
      exact List.mem_cons_self
    exact ⟨m.first, List.mem_filter.mp hMem⟩
  · rintro ⟨a, hMem, hMarker⟩
    have hFound : a ∈ p.item.markers names :=
      List.mem_filter.mpr ⟨hMem, hMarker⟩
    rcases List.exists_cons_of_ne_nil
        (List.ne_nil_of_mem hFound) with
      ⟨first, others, hMarkers⟩
    exact ⟨⟨p.item, p.body, first, others⟩,
      ofPlacement?_eq_some_iff.mpr ⟨rfl, rfl, hMarkers.symm⟩⟩

end MarkedItem

namespace SourceFile

/- What is known of a marked item of a file. -/
theorem mem_markedItems_iff
    {file : SourceFile}
    {names : List String}
    {m : MarkedItem} :
    m ∈ file.markedItems names ↔
      ⟨m.item, m.body⟩ ∈ Item.placements file.items ∧
        m.first :: m.others = m.item.markers names := by
  unfold markedItems
  rw [List.mem_filterMap]
  constructor
  · rintro ⟨p, hMem, hSome⟩
    rcases MarkedItem.ofPlacement?_eq_some_iff.mp hSome with
      ⟨hItem, hBody, hMarkers⟩
    rw [hItem, hBody]
    exact ⟨hMem, hMarkers⟩
  · rintro ⟨hMem, hMarkers⟩
    exact ⟨_, hMem, MarkedItem.ofPlacement?_eq_some_iff.mpr
      ⟨rfl, rfl, hMarkers⟩⟩

/- A marked item of a file is the one at its own placement. -/
theorem ofPlacement?_of_mem
    {file : SourceFile}
    {names : List String}
    {m : MarkedItem}
    (hMem : m ∈ file.markedItems names) :
    MarkedItem.ofPlacement? names ⟨m.item, m.body⟩ = some m :=
  MarkedItem.ofPlacement?_eq_some_iff.mpr
    ⟨rfl, rfl, (mem_markedItems_iff.mp hMem).2⟩

end SourceFile

------------------------------------------------------------
-- Marked Items by Their Paths
------------------------------------------------------------

namespace SourceFile

/- A marked item stands at a path, with all its markers. -/
structure MarkedAt
    (file : SourceFile)
    (names : List String)
    (path : List Nat)
    (m : MarkedItem) : Prop where
  placement :
    Item.placementAt? file.items path = some ⟨m.item, m.body⟩
  markers :
    m.first :: m.others =
      m.item.attributes.filter (Attribute.isMarker names)

/- The items of a file that have a marker, by ascending paths. -/
def ListsMarked
    (file : SourceFile)
    (names : List String)
    (marked : List MarkedItem) : Prop :=
  ∃ paths : List (List Nat),
    paths.Pairwise (· < ·) ∧
    (∀ path, path ∈ paths ↔
      ∃ p, Item.placementAt? file.items path = some p ∧
        ∃ a ∈ p.item.attributes, a.isMarker names = true) ∧
    List.Forall₂ (file.MarkedAt names) paths marked

/- A path leads to an item with a marker. -/
def marksPath
    (file : SourceFile)
    (names : List String)
    (path : List Nat) : Bool :=
  (Item.placementAt? file.items path).any fun p =>
    p.item.attributes.any (Attribute.isMarker names)

theorem marksPath_eq_true_iff
    {file : SourceFile}
    {names : List String}
    {path : List Nat} :
    file.marksPath names path = true ↔
      ∃ p, Item.placementAt? file.items path = some p ∧
        ∃ a ∈ p.item.attributes, a.isMarker names = true := by
  simp only [marksPath, Option.any_eq_true, List.any_eq_true]

/- Items without markers are left out with their paths. -/
theorem forall₂_markedAt
    {file : SourceFile}
    (names : List String)
    {paths : List (List Nat)}
    {placements : List Placement}
    (hPaths :
      List.Forall₂
        (fun path p =>
          Item.placementAt? file.items path = some p)
        paths placements) :
    List.Forall₂ (file.MarkedAt names)
      (paths.filter (file.marksPath names))
      (placements.filterMap (MarkedItem.ofPlacement? names)) := by
  induction hPaths with
  | nil => exact List.Forall₂.nil
  | @cons path p paths placements hPath _ ih =>
      have hMarks :
          file.marksPath names path = true ↔
            ∃ m, MarkedItem.ofPlacement? names p = some m := by
        rw [MarkedItem.exists_ofPlacement?_iff, marksPath, hPath,
          Option.any_some, List.any_eq_true]
      cases hMarked : MarkedItem.ofPlacement? names p with
      | none =>
          have hTest : ¬ file.marksPath names path = true := by
            rw [hMarks, hMarked]
            rintro ⟨m, hSome⟩
            cases hSome
          rw [List.filter_cons_of_neg hTest,
            List.filterMap_cons_none hMarked]
          exact ih
      | some m =>
          rcases MarkedItem.ofPlacement?_eq_some_iff.mp
              hMarked with
            ⟨hItem, hBody, hMarkers⟩
          rw [List.filter_cons_of_pos (hMarks.mpr ⟨m, hMarked⟩),
            List.filterMap_cons_some hMarked]
          refine .cons ⟨?_, ?_⟩ ih
          · rw [hPath, hItem, hBody]
          · rw [hMarkers, hItem]
            rfl

/- The marked items of a file are all the items with a marker. -/
theorem listsMarked_markedItems
    (file : SourceFile)
    (names : List String) :
    file.ListsMarked names (file.markedItems names) := by
  have hMap := Item.map_placementAt?_paths file.items
  have hPaths :
      List.Forall₂
        (fun path p =>
          Item.placementAt? file.items path = some p)
        (Item.paths file.items) (Item.placements file.items) := by
    have hEqual :
        List.Forall₂ (· = ·)
          ((Item.paths file.items).map
            (Item.placementAt? file.items))
          ((Item.placements file.items).map some) := by
      rw [hMap]
      exact List.forall₂_refl _
    rw [List.forall₂_map_left_iff,
      List.forall₂_map_right_iff] at hEqual
    exact hEqual
  refine ⟨(Item.paths file.items).filter (file.marksPath names),
    (Item.pairwise_paths file.items).filter _, ?_,
    forall₂_markedAt names hPaths⟩
  intro path
  rw [List.mem_filter, marksPath_eq_true_iff]
  constructor
  · rintro ⟨_, hMarked⟩
    exact hMarked
  · rintro ⟨p, hPath, hMarked⟩
    exact ⟨Item.mem_paths hPath, p, hPath, hMarked⟩

end SourceFile

------------------------------------------------------------
-- Verdicts
------------------------------------------------------------

namespace MarkedItem

variable {m : MarkedItem}

/- What can be said against a constructor for a marked item. -/
def objection?
    (m : MarkedItem) : Option DiagnosticKind :=
  m.item.objection? m.body

/- The report of an objection, at the first marker. -/
def report?
    (m : MarkedItem) : Option (Diagnostic Location) :=
  m.objection?.map fun kind =>
    .new kind defaultMarker m.location

theorem objection?_of_ofPlacement?
    {names : List String}
    {p : Placement}
    (hMarked : ofPlacement? names p = some m) :
    m.objection? = p.item.objection? p.body := by
  rcases ofPlacement?_eq_some_iff.mp hMarked with
    ⟨hItem, hBody, _⟩
  unfold objection?
  rw [hItem, hBody]

theorem outcome_eq_synthesized_iff
    {fragments : List Fragment} :
    m.outcome = .synthesized fragments ↔
      m.objection? = none ∧
        fragments = [.publicInitializer] := by
  unfold outcome
  rw [Item.outcome_eq, Outcome.ofObjection_eq_synthesized_iff]
  rfl

theorem diagnostic?_outcome
    (m : MarkedItem) :
    m.outcome.diagnostic? = m.report? := by
  unfold outcome report? objection?
  rw [Item.outcome_eq]
  cases m.item.objection? m.body with
  | none => rfl
  | some kind => cases kind <;> rfl

/- Only a record is without an objection. -/
theorem isExpanded_eq
    (m : MarkedItem) :
    m.isExpanded = m.objection?.isNone := by
  unfold isExpanded outcome objection?
  rw [Item.outcome_eq]
  cases hItem : m.item with
  | struct record =>
      cases (Item.struct record).objection? m.body with
      | none => rfl
      | some kind => cases kind <;> rfl
  | _ => rfl

/- The record of a marked item that is given a constructor. -/
def grantee?
    (m : MarkedItem) : Option StructItem :=
  match m.item with
  | .struct record => if m.isExpanded then some record else none
  | _ => none

theorem grantee?_eq_some_iff
    {record : StructItem} :
    m.grantee? = some record ↔
      m.item = .struct record ∧ m.objection? = none := by
  unfold grantee?
  rw [isExpanded_eq]
  cases m.item with
  | struct found => cases m.objection? <;> simp
  | _ => simp

/- Every item of a list is counted or reported. -/
theorem countP_add_length_reports
    (marked : List MarkedItem) :
    marked.countP (·.objection?.isNone) +
        (marked.filterMap report?).length =
      marked.length := by
  induction marked with
  | nil => rfl
  | cons m marked ih =>
      cases hObjection : m.objection? with
      | none =>
          have hReport : m.report? = none := by
            unfold report?
            rw [hObjection]
            rfl
          rw [List.countP_cons_of_pos (by simp [hObjection]),
            List.filterMap_cons_none hReport, List.length_cons]
          omega
      | some kind =>
          have hReport :
              m.report? =
                some (.new kind defaultMarker m.location) := by
            unfold report?
            rw [hObjection]
            rfl
          rw [List.countP_cons_of_neg (by simp [hObjection]),
            List.filterMap_cons_some hReport, List.length_cons,
            List.length_cons]
          omega

end MarkedItem

namespace SourceFile

/-
  What a file reports and counts is what its marked items
  call for.
-/
theorem diagnostics_eq
    (file : SourceFile)
    (names : List String) :
    file.diagnostics names =
      (file.markedItems names).filterMap MarkedItem.report? := by
  unfold diagnostics
  simp only [MarkedItem.diagnostic?_outcome]

theorem expanded_eq
    (file : SourceFile)
    (names : List String) :
    file.expanded names =
      (file.markedItems names).countP
        (·.objection?.isNone) := by
  unfold expanded
  simp only [MarkedItem.isExpanded_eq]

end SourceFile

------------------------------------------------------------
-- Edits
------------------------------------------------------------

namespace MarkedItem

variable {body : List Char}
variable {e : Edit}

/- A constructor is put in for a record without an objection. -/
theorem insertion?_eq_some_iff
    {m : MarkedItem} :
    m.insertion? body = some e ↔
      ∃ record, m.item = .struct record ∧
        m.objection? = none ∧
        e = record.insertion m.body body
          [.publicInitializer] := by
  unfold insertion?
  constructor
  · intro hSome
    split at hSome
    · next record fragments hItem hOutcome =>
        rcases outcome_eq_synthesized_iff.mp hOutcome with
          ⟨hNone, rfl⟩
        cases hSome
        exact ⟨record, hItem, hNone, rfl⟩
    · cases hSome
  · rintro ⟨record, hItem, hNone, rfl⟩
    rw [hItem, outcome_eq_synthesized_iff.mpr ⟨hNone, rfl⟩]

theorem insertion_start_eq_stop
    {m : MarkedItem}
    (hInsertion : m.insertion? body = some e) :
    e.start = e.stop := by
  rcases insertion?_eq_some_iff.mp hInsertion with
    ⟨record, _, _, rfl⟩
  rfl

/- The edits of a marked item are removals and one insertion. -/
theorem mem_edits_iff
    {m : MarkedItem} :
    e ∈ m.edits body ↔
      (∃ a ∈ m.first :: m.others, a.removal body = e) ∨
        m.insertion? body = some e := by
  unfold edits removals
  rw [List.mem_append, List.mem_map, Option.mem_toList]

end MarkedItem

namespace SourceFile

/- Every edit of a file is one of a marked item of it. -/
theorem mem_edits_iff
    {file : SourceFile}
    {names : List String}
    {body : List Char}
    {e : Edit} :
    e ∈ file.edits names body ↔
      ∃ m ∈ file.markedItems names, e ∈ m.edits body :=
  List.mem_flatMap

end SourceFile

end Nullary
