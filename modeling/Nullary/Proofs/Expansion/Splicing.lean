import Mathlib.Data.List.Pairwise
import Nullary.Proofs.Expansion.Marked
import Nullary.Proofs.Expansion.Removal
import Nullary.Proofs.Source.Splice

/-
  The expansion of a file makes all of its edits at once,
  save where a constructor is put at the start of a range
  that is removed.

  Every edit belongs to a landmark of the file: a removal to
  an attribute, an insertion to the end of a record or of an
  implementation.  The landmarks stand in order, and so do
  the edits.

  Main declarations:
    * `Landmark.EditAt`
    * `Landmark.edit_le_edit`
    * `ClosesBlock.append_ne`
    * `SourceFile.arranged_edits`
    * `SourceFile.InsertionsClear`
    * `Expansion.ofText_eq_spliced_iff`
-/

namespace Nullary

open SourceText

------------------------------------------------------------
-- The Edits of Landmarks
------------------------------------------------------------

/- A text that has a line feed in it and ends with a brace. -/
def ClosesBlock
    (text : List Char) : Prop :=
  '\n' ∈ text ∧ text.getLast? = some '\x7d'

/- The edits that belong to a landmark. -/
inductive Landmark.EditAt
    (body : List Char) : Landmark → Edit → Prop where
  | removal
      {span : Span}
      (a : Attribute)
      (hSpan : a.span = span) :
      EditAt body (.tag span) (a.removal body)
  | insertion
      {position : Position}
      {e : Edit}
      (hStart : e.start = byteOffset body position)
      (hStop : e.stop = byteOffset body position) :
      EditAt body (.close position) e

namespace Landmark

variable {body text : List Char}
variable {lead : Nat}
variable {start stop : Nat}

theorem solid_close
    {close : Nat}
    (hChar :
      text[close]? = some ';' ∨ text[close]? = some '\x7d') :
    Solid text close := by
  rcases hChar with hSemicolon | hBrace
  · exact ⟨';', hSemicolon, by decide⟩
  · exact ⟨'\x7d', hBrace, by decide⟩

theorem at_tag_iff
    {span : Span} :
    (Landmark.tag span).At text start stop ↔
      span = spanAt text start stop ∧
        Attribute.IsAt text start stop := by
  constructor
  · intro hAt
    cases hAt with
    | tag hTag => exact ⟨rfl, hTag⟩
  · rintro ⟨rfl, hTag⟩
    exact .tag hTag

/- The end of a landmark is in the text. -/
theorem At.stop_le_length
    {mark : Landmark}
    (hAt : mark.At text start stop) :
    stop ≤ text.length := by
  cases hAt with
  | tag hAt => exact hAt.stop_le_length
  | close hChar =>
      rcases solid_close hChar with ⟨c, hChar', _⟩
      exact (List.getElem?_eq_some_iff.mp hChar').1

variable (hLeads : Leads body text lead)
include hLeads

/- The edits of landmarks that are in order are in order. -/
theorem edit_le_edit
    {first second : Landmark}
    (hBefore : first.Before text second)
    {e f : Edit}
    (hFirst : first.EditAt body e)
    (hSecond : second.EditAt body f) :
    e.stop ≤ f.start := by
  rcases hBefore with
    ⟨start, stop, start', stop', hAt, hAt', hOrder⟩
  have hLength := hAt.stop_le_length
  have hLength' := hAt'.stop_le_length
  cases hAt with
  | tag hTag =>
      have hStart := hTag.start_lt_stop
      rcases hFirst with ⟨a, hSpan⟩
      have hPlace := hLeads.landing stop hLength
      cases hAt' with
      | tag hTag' =>
          have hStart' := hTag'.start_lt_stop
          rcases hSecond with ⟨a', hSpan'⟩
          have hPlace' := hLeads.landing start' (by omega)
          apply inBytes_le_inBytes
          unfold Attribute.removalRange
          rw [hSpan, hSpan']
          exact hLeads.removal_le_removal hTag hTag' hOrder
            hPlace hPlace' _ _
      | close hChar' =>
          rcases hSecond with _ | ⟨hEdit, _⟩
          have hPlace' := hLeads.landing (start' + 1) hLength'
          rw [hEdit]
          apply inBytes_le_inBytes
          unfold Attribute.removalRange
          rw [hSpan]
          exact hLeads.removal_le_close (solid_close hChar')
            hOrder hPlace hPlace' _
  | close hChar =>
      rcases hFirst with _ | ⟨_, hEdit⟩
      have hPlace := hLeads.landing (start + 1) hLength
      rw [hEdit]
      cases hAt' with
      | tag hTag' =>
          have hStart' := hTag'.start_lt_stop
          rcases hSecond with ⟨a', hSpan'⟩
          have hPlace' := hLeads.landing start' (by omega)
          apply inBytes_le_inBytes
          unfold Attribute.removalRange
          rw [hSpan']
          exact hLeads.close_le_removal (solid_close hChar)
            (by omega) (by omega) hPlace hPlace' _
      | close hChar' =>
          rcases hSecond with _ | ⟨hEdit', _⟩
          have hPlace' := hLeads.landing (start' + 1) hLength'
          rw [hEdit']
          apply inBytes_le_inBytes
          exact Nat.le_of_lt
            (Leads.landing_lt (by omega) hPlace hPlace')

/- The range of an attribute in characters. -/
theorem removal_range
    {a : Attribute}
    (hSpan : a.span = spanAt text start stop)
    (hAt : Attribute.IsAt text start stop) :
    (a.removalRange body).1 < (a.removalRange body).2 ∧
      (a.removalRange body).2 ≤ body.length ∧
      (OneLine body (a.removalRange body).1
          (a.removalRange body).2 ∨
        body[(a.removalRange body).2 - 1]? ≠
          some '\x7d') := by
  have hOrder := hAt.start_lt_stop
  have hLength := hAt.stop_le_length
  have hPlace := hLeads.landing start (by omega)
  have hPlace' := hLeads.landing stop hLength
  have hPlaces := Leads.landing_lt hOrder hPlace hPlace'
  have hInside := hLeads.landing_le_length hLength hPlace'
  unfold Attribute.removalRange
  rw [hSpan]
  refine ⟨?_, removalRange_stop_le_length _ hInside,
    hLeads.removal_tail hAt hPlace hPlace'⟩
  exact Nat.lt_of_le_of_lt (removalRange_start_le _ _ _)
    (Nat.lt_of_lt_of_le hPlaces
      (le_removalRange_stop _ hInside))

/-
  What the removal of an attribute takes away is not empty,
  and stands on one line or does not end with a brace.
-/
theorem removed_piece
    {a : Attribute}
    (hAt : (Landmark.tag a.span).At text start stop)
    {before removed after : List Char}
    (hText : body = before ++ removed ++ after)
    (hStart : byteSize before = (a.removal body).start)
    (hStop :
      (a.removal body).stop =
        (a.removal body).start + byteSize removed) :
    removed ≠ [] ∧
      ('\n' ∉ removed ∨ removed.getLast? ≠ some '\x7d') := by
  rcases at_tag_iff.mp hAt with ⟨hSpan, hTag⟩
  rcases removal_range hLeads hSpan hTag with
    ⟨hOrder, hLength, hTail⟩
  have hBefore :
      before = body.take (a.removalRange body).1 :=
    eq_take_of_byteSize_eq
      (hText.trans (List.append_assoc _ _ _)) hStart
  have hBoth :
      before ++ removed = body.take (a.removalRange body).2 :=
    eq_take_of_byteSize_eq hText (by
      rw [byteSize_append, hStart, ← hStop]
      rfl)
  have hRemoved :
      removed =
        (body.take (a.removalRange body).2).drop
          (a.removalRange body).1 := by
    rw [← hBoth, List.drop_left']
    rw [hBefore, List.length_take]
    omega
  refine ⟨?_, ?_⟩
  · intro hEmpty
    have hSize := congrArg List.length hRemoved
    rw [hEmpty, List.length_drop, List.length_take,
      List.length_nil] at hSize
    omega
  · rcases hTail with hLine | hLast
    · left
      intro hMem
      rcases List.mem_iff_getElem?.mp hMem with ⟨i, hChar⟩
      rw [hRemoved, List.getElem?_drop,
        List.getElem?_take] at hChar
      split at hChar
      · next hInside =>
          exact hLine _ (Nat.le_add_right _ i) hInside hChar
      · cases hChar
    · right
      rw [hRemoved, List.getLast?_drop, List.getLast?_take,
        List.length_take, if_neg (by omega), if_neg (by omega),
        List.getElem?_eq_getElem (by omega)]
      rw [List.getElem?_eq_getElem (by omega)] at hLast
      exact hLast

/- The edits of landmarks fit the text. -/
theorem edit_fits
    {mark : Landmark}
    (hAt : mark.At text start stop)
    {e : Edit}
    (hEdit : mark.EditAt body e) :
    e.Fits body := by
  have hLength := hAt.stop_le_length
  cases hAt with
  | tag hTag =>
      rcases hEdit with ⟨a, hSpan⟩
      rcases removal_range hLeads hSpan hTag with
        ⟨hOrder, hStop, _⟩
      exact ⟨_, _, Nat.le_of_lt hOrder, hStop, rfl, rfl⟩
  | close hChar =>
      rcases hEdit with _ | ⟨hStart, hStop⟩
      have hPlace := hLeads.landing (start + 1) hLength
      exact ⟨_, _, Nat.le_refl _,
        hLeads.landing_le_length hLength hPlace, hStart, hStop⟩

end Landmark

------------------------------------------------------------
-- What a Removal Takes Instead
------------------------------------------------------------

/-
  A text that closes a block is not the same after its start
  is taken away and a piece is put at its end, if the piece
  has no line feed or does not end with a brace.  A piece that
  ends with the brace would stand on the last line, and make
  it longer.
-/
theorem ClosesBlock.append_ne
    {text : List Char}
    (hText : ClosesBlock text)
    {removed : List Char}
    (hRemoved : removed ≠ [])
    (hTail :
      '\n' ∉ removed ∨ removed.getLast? ≠ some '\x7d')
    (front rotated : List Char) :
    (front ++ text) ++ removed ≠ rotated ++ (front ++ text) := by
  rcases hText with ⟨hLine, hBrace⟩
  intro hSame
  have hLast : removed.getLast? = some '\x7d' := by
    have hEnds := congrArg List.getLast? hSame
    rcases List.eq_nil_or_concat removed with
      hEmpty | ⟨init, last, rfl⟩
    · exact absurd hEmpty hRemoved
    · simp only [List.getLast?_append, hBrace] at hEnds
      simpa using hEnds
  have hNone : '\n' ∉ removed :=
    hTail.resolve_right fun hNot => hNot hLast
  have hMem : '\n' ∈ front ++ text :=
    List.mem_append_right front hLine
  have hTails := congrArg lineTail hSame
  rw [lineTail_append_of_not_mem _ hNone,
    lineTail_append_of_mem _ hMem] at hTails
  exact hRemoved (List.append_right_eq_self.mp hTails)

------------------------------------------------------------
-- The Edits of Marked Items
------------------------------------------------------------

theorem le_foldl_max
    (init : Nat)
    (stops : List Nat) :
    init ≤ stops.foldl max init := by
  induction stops generalizing init with
  | nil => exact Nat.le_refl init
  | cons stop stops ih =>
      exact Nat.le_trans (Nat.le_max_left init stop)
        (ih (max init stop))

theorem foldl_max_mem
    (init : Nat)
    (stops : List Nat) :
    stops.foldl max init ∈ init :: stops := by
  induction stops generalizing init with
  | nil => exact List.mem_singleton_self init
  | cons stop stops ih =>
      have hMem := ih (max init stop)
      rcases Nat.le_total init stop with hLe | hLe
      · rw [Nat.max_eq_right hLe] at hMem
        rw [List.foldl_cons, Nat.max_eq_right hLe]
        exact List.mem_cons_of_mem init hMem
      · rw [Nat.max_eq_left hLe] at hMem
        rw [List.foldl_cons, Nat.max_eq_left hLe]
        rcases List.mem_cons.mp hMem with hInit | hStops
        · rw [hInit]
          exact List.mem_cons_self
        · exact List.mem_cons_of_mem init
            (List.mem_cons_of_mem stop hStops)

namespace StructItem

/-
  A constructor is put at the end of the record, or at the
  end of an implementation next to it that comes later.
-/
theorem insertionOffset_eq_or
    (item : StructItem)
    (siblings : List Item)
    (text : List Char) :
    item.insertionOffset siblings text =
        SourceText.offset text (Tokens.span item.tokens).stop ∨
      ∃ impl, Item.impl impl ∈ siblings ∧
        item.insertionOffset siblings text =
          SourceText.offset text
            (Tokens.span impl.tokens).stop := by
  have hMem :=
    foldl_max_mem
      (SourceText.offset text (Tokens.span item.tokens).stop)
      ((siblings.filterMap (Item.inherentImpl? item.name)).map
        fun i =>
          SourceText.offset text (Tokens.span i.tokens).stop)
  rcases List.mem_cons.mp hMem with hOwn | hOther
  · exact Or.inl hOwn
  · right
    rcases List.mem_map.mp hOther with ⟨impl, hImpl, hStop⟩
    rcases List.mem_filterMap.mp hImpl with
      ⟨sibling, hSibling, hInherent⟩
    rw [Item.inherentImpl?_eq_some_iff] at hInherent
    rw [hInherent.1] at hSibling
    exact ⟨impl, hSibling, hStop.symm⟩

theorem le_insertionOffset
    (item : StructItem)
    (siblings : List Item)
    (text : List Char) :
    SourceText.offset text (Tokens.span item.tokens).stop ≤
      item.insertionOffset siblings text :=
  le_foldl_max _ _

end StructItem

namespace Fragment

/- The text of a constructor ends with the brace that closes it. -/
theorem closesBlock_textFor
    (f : Fragment)
    (item : StructItem)
    (text : List Char) :
    ClosesBlock (f.textFor item text) := by
  unfold textFor
  refine ⟨?_, List.getLast?_concat⟩
  simp only [List.append_assoc]
  exact List.mem_append_left _ (by decide)

end Fragment

namespace MarkedItem

theorem insertion_closesBlock
    {m : MarkedItem}
    {body : List Char}
    {e : Edit}
    (hInsertion : m.insertion? body = some e) :
    ClosesBlock e.replacement := by
  rcases insertion?_eq_some_iff.mp hInsertion with
    ⟨record, _, _, rfl⟩
  unfold StructItem.insertion Edit.insertion
  rw [List.flatMap_singleton]
  exact Fragment.closesBlock_textFor _ record body

/- The markers of an item stand before its end. -/
theorem tag_mem_landmarks
    {names : List String}
    {m : MarkedItem}
    (hMarkers :
      m.first :: m.others = m.item.markers names)
    {a : Attribute}
    (hMem : a ∈ m.first :: m.others) :
    Landmark.tag a.span ∈
      Attribute.landmarks m.item.attributes := by
  rw [hMarkers] at hMem
  exact List.mem_map_of_mem (List.mem_filter.mp hMem).1

end MarkedItem

------------------------------------------------------------
-- The Edits of a File
------------------------------------------------------------

namespace SourceFile

/- The landmarks of a file. -/
def landmarks
    (file : SourceFile) : List Landmark :=
  (Item.placements file.items).flatMap (·.item.landmarks)

section Surveyed

variable {file : SourceFile}
variable {names : List String}
variable {body text : List Char}
variable {lead : Nat}
variable {m n : MarkedItem}
variable {e f : Edit}
variable {a : Attribute}

theorem mem_landmarks
    (hMem : m ∈ file.markedItems names)
    {mark : Landmark}
    (hMark : mark ∈ m.item.landmarks) :
    mark ∈ file.landmarks :=
  List.mem_flatMap.mpr
    ⟨_, (mem_markedItems_iff.mp hMem).1, hMark⟩

theorem marker_mem_landmarks
    (hMem : m ∈ file.markedItems names)
    (hMarker : a ∈ m.first :: m.others) :
    Landmark.tag a.span ∈ m.item.landmarks :=
  List.mem_append_left m.item.closing
    (MarkedItem.tag_mem_landmarks
      (mem_markedItems_iff.mp hMem).2 hMarker)

/- Two landmarks of a file stand one before the other. -/
theorem before_or_before
    (hPlaced : Placed text text.length file.landmarks)
    {first second : Landmark}
    (hFirst : first ∈ file.landmarks)
    (hSecond : second ∈ file.landmarks)
    (hNe : first ≠ second) :
    first.Before text second ∨ second.Before text first := by
  have hSymm :
      Std.Symm fun a b : Landmark =>
        a.Before text b ∨ b.Before text a :=
    ⟨fun _ _ hEither => hEither.symm⟩
  have hEither :
      file.landmarks.Pairwise fun a b =>
        a.Before text b ∨ b.Before text a :=
    hPlaced.ordered.imp Or.inl
  exact hEither.forall hFirst hSecond hNe

/- The landmarks of one marked item stand in order. -/
theorem landmarks_ordered
    (hPlaced : Placed text text.length file.landmarks)
    (hMem : m ∈ file.markedItems names) :
    m.item.landmarks.Pairwise (Landmark.Before text) :=
  (List.pairwise_flatMap.mp hPlaced.ordered).1 _
    (mem_markedItems_iff.mp hMem).1

/- Those of two marked items do so as the items are listed. -/
theorem markedItems_ordered
    (hPlaced : Placed text text.length file.landmarks)
    (names : List String) :
    (file.markedItems names).Pairwise fun m n =>
      ∀ first ∈ m.item.landmarks,
        ∀ second ∈ n.item.landmarks,
          first.Before text second := by
  unfold markedItems
  rw [List.pairwise_filterMap]
  refine (List.pairwise_flatMap.mp hPlaced.ordered).2.imp ?_
  intro p q hBefore m hM n hN
  rw [(MarkedItem.ofPlacement?_eq_some_iff.mp hM).1,
    (MarkedItem.ofPlacement?_eq_some_iff.mp hN).1]
  exact hBefore

/- An insertion belongs to the end of an item of the file. -/
theorem insertion_editAt
    (hMem : m ∈ file.markedItems names)
    (hInsertion : m.insertion? body = some e) :
    ∃ position,
      Landmark.close position ∈ file.landmarks ∧
        (Landmark.close position).EditAt body e := by
  rcases MarkedItem.insertion?_eq_some_iff.mp hInsertion with
    ⟨record, hItem, _, rfl⟩
  have hPlacement := (mem_markedItems_iff.mp hMem).1
  rcases record.insertionOffset_eq_or m.body body with
    hOwn | ⟨implementation, hSibling, hOther⟩
  · refine ⟨(Tokens.span record.tokens).stop, ?_, ?_⟩
    · apply mem_landmarks hMem
      rw [hItem]
      exact List.mem_append_right _ List.mem_cons_self
    · have hStart := congrArg (inBytes body) hOwn
      exact .insertion hStart hStart
  · refine ⟨(Tokens.span implementation.tokens).stop, ?_, ?_⟩
    · exact List.mem_flatMap.mpr
        ⟨_, Item.sibling_mem_placements hPlacement hSibling,
          List.mem_append_right _ List.mem_cons_self⟩
    · have hStart := congrArg (inBytes body) hOther
      exact .insertion hStart hStart

/- Every edit of a file belongs to a landmark of it. -/
theorem exists_editAt
    (hMem : m ∈ file.markedItems names)
    (hEdit : e ∈ m.edits body) :
    ∃ mark ∈ file.landmarks, mark.EditAt body e := by
  rcases MarkedItem.mem_edits_iff.mp hEdit with
    ⟨a, hMarker, rfl⟩ | hInsertion
  · exact ⟨_, mem_landmarks hMem
      (marker_mem_landmarks hMem hMarker), .removal a rfl⟩
  · rcases insertion_editAt hMem hInsertion with
      ⟨position, hMark, hAt⟩
    exact ⟨_, hMark, hAt⟩

variable (hLeads : Leads body text lead)
include hLeads

/-
  A removal stops before an insertion for an item whose end
  comes after the attribute.
-/
theorem removal_le_insertion
    (hBefore :
      ∀ position, Landmark.close position ∈ n.item.closing →
        (Landmark.tag a.span).Before text (.close position))
    (hInsertion : n.insertion? body = some f) :
    (a.removal body).stop ≤ f.start := by
  rcases MarkedItem.insertion?_eq_some_iff.mp hInsertion with
    ⟨record, hItem, _, rfl⟩
  have hClose :
      (Landmark.tag a.span).Before text
        (.close (Tokens.span record.tokens).stop) := by
    apply hBefore
    rw [hItem]
    exact List.mem_cons_self
  have hOwn :=
    Landmark.edit_le_edit hLeads hClose (.removal a rfl)
      (.insertion (e := .insertion _ []) rfl rfl)
  exact Nat.le_trans hOwn
    (inBytes_le_inBytes (record.le_insertionOffset n.body body))

/- An insertion is in order with every edit of the file. -/
theorem insertion_inOrder
    (hPlaced : Placed text text.length file.landmarks)
    (hM : m ∈ file.markedItems names)
    (hN : n ∈ file.markedItems names)
    (hInsertion : m.insertion? body = some e)
    (hEdit : f ∈ n.edits body) :
    Edit.InOrder e f := by
  rcases insertion_editAt hM hInsertion with
    ⟨position, hMark, hAt⟩
  rcases exists_editAt hN hEdit with ⟨mark, hMark', hAt'⟩
  have hEmpty := MarkedItem.insertion_start_eq_stop hInsertion
  refine ⟨?_, fun hRange => absurd hEmpty (by omega)⟩
  cases hAt' with
  | removal a hSpan =>
      subst hSpan
      have hNe : Landmark.close position ≠ .tag a.span :=
        Landmark.noConfusion
      rcases before_or_before hPlaced hMark hMark' hNe with
        hBefore | hBefore
      · exact Or.inl (Landmark.edit_le_edit hLeads hBefore hAt
          (.removal a rfl))
      · exact Or.inr (Landmark.edit_le_edit hLeads hBefore
          (.removal a rfl) hAt)
  | insertion hStart hStop =>
      unfold Edit.Apart
      rw [← hEmpty, hStart, hStop]
      exact Nat.le_total _ _

/- The edits of one marked item are in order. -/
theorem pairwise_inOrder_edits
    (hPlaced : Placed text text.length file.landmarks)
    (hMem : m ∈ file.markedItems names) :
    (m.edits body).Pairwise Edit.InOrder := by
  have hOrdered := landmarks_ordered hPlaced hMem
  have hMarkers := (mem_markedItems_iff.mp hMem).2
  rcases List.pairwise_append.mp hOrdered with
    ⟨hTags, _, hCloses⟩
  unfold MarkedItem.edits
  refine List.pairwise_append.mpr ⟨?_, ?_, ?_⟩
  · have hSublist :
        (m.first :: m.others).Sublist m.item.attributes := by
      rw [hMarkers]
      exact List.filter_sublist
    refine List.pairwise_map.mpr
      ((List.pairwise_map.mp hTags).sublist hSublist |>.imp ?_)
    intro a b hBefore
    exact Edit.inOrder_of_le (Landmark.edit_le_edit hLeads
      hBefore (.removal a rfl) (.removal b rfl))
  · cases m.insertion? body with
    | none => exact List.Pairwise.nil
    | some e => exact List.pairwise_singleton _ _
  · intro e hRemoval f hInsertion
    rcases List.mem_map.mp hRemoval with ⟨a, hMarker, rfl⟩
    rw [Option.mem_toList] at hInsertion
    apply Edit.inOrder_of_le
    refine removal_le_insertion hLeads ?_ hInsertion
    intro position hClose
    exact hCloses _
      (MarkedItem.tag_mem_landmarks hMarkers hMarker) _ hClose

/-
  The edits of a file are in order: no two of them overlap,
  and no removal reaches past an insertion listed after it.
-/
theorem pairwise_inOrder
    (hPlaced : Placed text text.length file.landmarks)
    (names : List String) :
    (file.edits names body).Pairwise Edit.InOrder := by
  unfold edits
  refine List.pairwise_flatMap.mpr ⟨?_, ?_⟩
  · intro m hMem
    exact pairwise_inOrder_edits hLeads hPlaced hMem
  · refine (markedItems_ordered hPlaced names).imp_of_mem ?_
    intro m n hM hN hBefore e hE f hF
    rcases MarkedItem.mem_edits_iff.mp hE with
      ⟨a, hMarker, rfl⟩ | hInsertion
    · have hTag := marker_mem_landmarks hM hMarker
      apply Edit.inOrder_of_le
      rcases MarkedItem.mem_edits_iff.mp hF with
        ⟨b, hMarker', rfl⟩ | hInsertion'
      · have hTag' := marker_mem_landmarks hN hMarker'
        exact Landmark.edit_le_edit hLeads
          (hBefore _ hTag _ hTag') (.removal a rfl)
          (.removal b rfl)
      · refine removal_le_insertion hLeads ?_ hInsertion'
        intro position hClose
        exact hBefore _ hTag _ (List.mem_append_right _ hClose)
    · exact insertion_inOrder hLeads hPlaced hM hN hInsertion
        hF

/- The edits of a file fit the text. -/
theorem edits_fit
    (hPlaced : Placed text text.length file.landmarks)
    (hEdit : e ∈ file.edits names body) :
    e.Fits body := by
  rcases mem_edits_iff.mp hEdit with ⟨m, hMem, hM⟩
  rcases exists_editAt hMem hM with ⟨mark, hMark, hAt⟩
  rcases hPlaced.at_ mark hMark with ⟨start, stop, hMarkAt, _⟩
  exact Landmark.edit_fits hLeads hMarkAt hAt

/- A marker of a file stands where its span says. -/
omit hLeads in
theorem exists_marker_at
    (hPlaced : Placed text text.length file.landmarks)
    (hMem : m ∈ file.markedItems names)
    (hMarker : a ∈ m.first :: m.others) :
    ∃ start stop,
      (Landmark.tag a.span).At text start stop := by
  have hTag := marker_mem_landmarks hMem hMarker
  rcases hPlaced.at_ _ (mem_landmarks hMem hTag) with
    ⟨start, stop, hAt, _⟩
  exact ⟨start, stop, hAt⟩

/- The removal of a marker takes something away. -/
theorem removal_strict
    (hPlaced : Placed text text.length file.landmarks)
    (hMem : m ∈ file.markedItems names)
    (hMarker : a ∈ m.first :: m.others) :
    (a.removal body).start < (a.removal body).stop := by
  rcases exists_marker_at hPlaced hMem hMarker with
    ⟨start, stop, hAt⟩
  rcases Landmark.at_tag_iff.mp hAt with ⟨hSpan, hTag⟩
  rcases Landmark.removal_range hLeads hSpan hTag with
    ⟨hOrder, hLength, _⟩
  exact inBytes_lt_inBytes hOrder (by omega)

end Surveyed

/-
  No constructor is put where the range of a marker that is
  removed starts.
-/
def InsertionsClear
    (file : SourceFile)
    (names : List String)
    (body : List Char) : Prop :=
  ∀ m ∈ file.markedItems names,
    ∀ n ∈ file.markedItems names,
      ∀ insertion ∈ m.insertion? body,
        ∀ removal ∈ n.removals body,
          insertion.start ≠ removal.start

instance
    (file : SourceFile)
    (names : List String)
    (body : List Char) :
    Decidable (file.InsertionsClear names body) :=
  inferInstanceAs (Decidable (∀ m ∈ _, _))

section Surveyed

variable {file : SourceFile}
variable {names : List String}
variable {body text : List Char}
variable {lead : Nat}

/- Where two edits of a file meet, the second is a removal. -/
theorem exists_removal_of_meets
    {e f : Edit}
    (hF : f ∈ file.edits names body)
    (hMeets : Edit.Meets e f) :
    ∃ m ∈ file.markedItems names,
      ∃ a ∈ m.first :: m.others, a.removal body = f := by
  rcases mem_edits_iff.mp hF with ⟨m, hM, hEdit⟩
  rcases MarkedItem.mem_edits_iff.mp hEdit with
    hRemoval | hInsertion
  · exact ⟨m, hM, hRemoval⟩
  · have hEmpty := MarkedItem.insertion_start_eq_stop hInsertion
    exact absurd hMeets.2.1 (by omega)

variable (hLeads : Leads body text lead)
variable (hPlaced : Placed text text.length file.landmarks)
include hLeads hPlaced

/- The first of them is an insertion. -/
theorem exists_insertion_of_meets
    {e f : Edit}
    (hE : e ∈ file.edits names body)
    (hMeets : Edit.Meets e f) :
    ∃ m ∈ file.markedItems names,
      m.insertion? body = some e := by
  rcases mem_edits_iff.mp hE with ⟨m, hM, hEdit⟩
  rcases MarkedItem.mem_edits_iff.mp hEdit with
    ⟨a, hMarker, rfl⟩ | hInsertion
  · have hStrict := removal_strict hLeads hPlaced hM hMarker
    exact absurd hMeets.1 (by omega)
  · exact ⟨m, hM, hInsertion⟩

/- Insertions meet removals where they are put at their start. -/
theorem insertionsClear_iff :
    file.InsertionsClear names body ↔
      ∀ e ∈ file.edits names body,
        ∀ f ∈ file.edits names body, ¬ Edit.Meets e f := by
  constructor
  · intro hClear e hE f hF hMeets
    rcases exists_insertion_of_meets hLeads hPlaced hE hMeets with
      ⟨m, hM, hInsertion⟩
    rcases exists_removal_of_meets hF hMeets with
      ⟨n, hN, a, hMarker, rfl⟩
    exact hClear m hM n hN e hInsertion _
      (List.mem_map_of_mem hMarker) hMeets.2.2
  · intro hMeets m hM n hN insertion hInsertion removal
      hRemoval hStart
    rcases List.mem_map.mp hRemoval with ⟨a, hMarker, rfl⟩
    refine hMeets insertion ?_ _ ?_
      ⟨MarkedItem.insertion_start_eq_stop hInsertion,
        removal_strict hLeads hPlaced hN hMarker, hStart⟩
    · exact mem_edits_iff.mpr ⟨m, hM,
        MarkedItem.mem_edits_iff.mpr (Or.inr hInsertion)⟩
    · exact mem_edits_iff.mpr ⟨n, hN,
        MarkedItem.mem_edits_iff.mpr
          (Or.inl ⟨a, hMarker, rfl⟩)⟩

/-
  An edit of a file that takes something away puts nothing
  there.
-/
omit hLeads hPlaced in
theorem replacement_eq_nil
    {e : Edit}
    (hE : e ∈ file.edits names body)
    (hRange : e.start < e.stop) :
    e.replacement = [] := by
  rcases mem_edits_iff.mp hE with ⟨m, hM, hEdit⟩
  rcases MarkedItem.mem_edits_iff.mp hEdit with
    ⟨a, _, rfl⟩ | hInsertion
  · rfl
  · have hEmpty := MarkedItem.insertion_start_eq_stop hInsertion
    exact absurd hRange (by omega)

/- The edits of a file are arranged in its text. -/
theorem arranged_edits
    (names : List String) :
    Edit.Arranged body (file.edits names body) where
  fits _ hE := edits_fit hLeads hPlaced hE
  inOrder := pairwise_inOrder hLeads hPlaced names
  removals _ hE hRange := replacement_eq_nil hE hRange

/-
  The edits of a file, applied in turn, give the text with
  all of them made exactly if the insertions are clear.
-/
theorem performAll?_edits_eq_splice_iff :
    Edit.performAll? body (file.edits names body) =
        some (Edit.splice body (file.edits names body)) ↔
      file.InsertionsClear names body := by
  rw [insertionsClear_iff hLeads hPlaced]
  apply Edit.performAll?_eq_splice_iff
    (arranged_edits hLeads hPlaced names)
  intro f hF e hE hMeets before removed after front rotated
    hText hStart hStop
  rcases exists_insertion_of_meets hLeads hPlaced hF hMeets with
    ⟨n, _, hInsertion⟩
  rcases exists_removal_of_meets hE hMeets with
    ⟨m, hM, a, hMarker, rfl⟩
  rcases exists_marker_at hPlaced hM hMarker with
    ⟨start, stop, hAt⟩
  rcases Landmark.removed_piece hLeads hAt hText hStart
      hStop with
    ⟨hRemoved, hTail⟩
  have hBlock := MarkedItem.insertion_closesBlock hInsertion
  exact hBlock.append_ne hRemoved hTail front rotated

end Surveyed

/- What is known of a file that a text was parsed into. -/
theorem exists_survey
    {body : List Char}
    {file : SourceFile}
    (hParse : parse? body = some file) :
    ∃ text lead, Leads body text lead ∧
      Placed text text.length file.landmarks := by
  rcases exists_leads body with ⟨lead, hLeads⟩
  exact ⟨dropByteOrderMark body, lead, hLeads,
    placed_landmarks hParse⟩

end SourceFile

------------------------------------------------------------
-- The Expansion of a Text
------------------------------------------------------------

namespace Expansion

variable {text : List Char}

/-
  An expansion with the byte order mark of a text, if it has
  one.
-/
def withMarkOf
    (text : List Char)
    (e : Expansion) : Expansion :=
  if text.head? = some byteOrderMark then e.withMark else e

theorem withMarkOf_inj
    {e f : Expansion} :
    e.withMarkOf text = f.withMarkOf text ↔ e = f := by
  rcases e with ⟨source, diagnostics, expanded⟩
  rcases f with ⟨source', diagnostics', expanded'⟩
  unfold withMarkOf withMark
  split <;> simp

/- The expansion of a text that is a source file. -/
theorem ofText_eq
    (names : List String)
    {file : SourceFile}
    (hParse :
      SourceFile.parse? (dropByteOrderMark text) = some file) :
    ofText names text =
      match Edit.performAll? (dropByteOrderMark text)
          (file.edits names (dropByteOrderMark text)) with
      | none => .error .misfit
      | some source =>
          .ok (withMarkOf text
            ⟨source, file.diagnostics names,
              file.expanded names⟩) := by
  unfold ofText withMarkOf withMark markOf
  simp only [hParse, Edit.performAllAfter?_eq]
  cases Edit.performAll? (dropByteOrderMark text)
      (file.edits names (dropByteOrderMark text)) with
  | none => rfl
  | some source =>
      by_cases hMark : text.head? = some byteOrderMark
      · simp [hMark]
      · simp [hMark]

theorem eq_ok_of_toOption
    {result : Except ExpansionError Expansion}
    {e : Expansion}
    (hResult : result.toOption = some e) :
    result = .ok e := by
  cases result with
  | error failure => cases hResult
  | ok found =>
      cases hResult
      rfl

/-
  A text has an expansion if it is a source file whose edits
  can be applied in turn.
-/
theorem ofText_eq_ok_iff
    {names : List String}
    {e : Expansion} :
    ofText names text = .ok e ↔
      ∃ file source,
        SourceFile.parse? (dropByteOrderMark text) = some file ∧
        Edit.performAll? (dropByteOrderMark text)
            (file.edits names (dropByteOrderMark text)) =
          some source ∧
        withMarkOf text
            ⟨source, file.diagnostics names,
              file.expanded names⟩ = e := by
  constructor
  · intro hOk
    cases hParse : SourceFile.parse? (dropByteOrderMark text) with
    | none =>
        simp only [ofText, hParse] at hOk
        cases hOk
    | some file =>
        rw [ofText_eq names hParse] at hOk
        cases hEdits : Edit.performAll? (dropByteOrderMark text)
            (file.edits names (dropByteOrderMark text)) with
        | none =>
            rw [hEdits] at hOk
            cases hOk
        | some source =>
            rw [hEdits] at hOk
            exact ⟨file, source, rfl, hEdits, Except.ok.inj hOk⟩
  · rintro ⟨file, source, hParse, hEdits, hMark⟩
    rw [ofText_eq names hParse, hEdits, ← hMark]

end Expansion

/- The expansion of a file with all of its edits made at once. -/
def SourceFile.spliced
    (file : SourceFile)
    (names : List String)
    (text : List Char) : Expansion :=
  let body := dropByteOrderMark text
  Expansion.withMarkOf text
    ⟨Edit.splice body (file.edits names body),
      file.diagnostics names, file.expanded names⟩

namespace Expansion

/-
  The expansion of a source file makes all of its edits at
  once exactly if no constructor is put where the range of a
  marker starts.  A constructor that is put there goes first,
  and the removal takes the start of it in place of the
  marker.
-/
theorem ofText_eq_spliced_iff
    (names : List String)
    {text : List Char}
    {file : SourceFile}
    (hParse :
      SourceFile.parse? (dropByteOrderMark text) = some file) :
    ofText names text = .ok (file.spliced names text) ↔
      file.InsertionsClear names (dropByteOrderMark text) := by
  rcases SourceFile.exists_survey hParse with
    ⟨tokens, lead, hLeads, hPlaced⟩
  rw [← SourceFile.performAll?_edits_eq_splice_iff hLeads
    hPlaced, ofText_eq names hParse]
  unfold SourceFile.spliced
  cases Edit.performAll? (dropByteOrderMark text)
      (file.edits names (dropByteOrderMark text)) with
  | none => simp
  | some source =>
      simp only [Except.ok.injEq, withMarkOf_inj,
        Expansion.mk.injEq, and_true, Option.some.injEq]

/- A space keeps the first constructor off the second marker. -/
theorem ofText_eq_spliced_spaced_records :
    ∃ file,
      SourceFile.parse? (dropByteOrderMark
          "#[a] pub struct B; #[a] pub struct C;".toList) =
        some file ∧
      file.InsertionsClear ["a"] (dropByteOrderMark
        "#[a] pub struct B; #[a] pub struct C;".toList) ∧
      ofText ["a"]
          "#[a] pub struct B; #[a] pub struct C;".toList =
        .ok (file.spliced ["a"]
          "#[a] pub struct B; #[a] pub struct C;".toList) := by
  have hAny :
      (SourceFile.parse? (dropByteOrderMark
        "#[a] pub struct B; #[a] pub struct C;".toList)).any
          (fun file => decide (file.InsertionsClear ["a"]
            (dropByteOrderMark
              "#[a] pub struct B; #[a] pub struct C;".toList))) =
        true := by
    decide +kernel
  rcases (Option.any_eq_true _ _).mp hAny with
    ⟨file, hParse, hClear⟩
  rw [decide_eq_true_eq] at hClear
  exact ⟨file, hParse, hClear,
    (ofText_eq_spliced_iff ["a"] hParse).mpr hClear⟩

/- Without it, the second marker stays and a constructor is cut. -/
example :
    (ofText ["a"]
        "#[a]pub struct B;#[a]pub struct C;".toList).toOption.map
      (·.source.take 36) =
    some "pub struct B;pl B \x7b\n    pub fn new()".toList := by
  decide +kernel

end Expansion

end Nullary
