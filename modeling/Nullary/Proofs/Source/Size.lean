import Mathlib.Data.List.Induction
import Nullary.Source.Edit

/-
  Sizes of texts in bytes, and the cutting of a text at an
  offset in bytes.

  Main declarations:
    * `SourceText.cut?_eq_some_iff`
    * `SourceText.append_inj_of_byteSize_eq`
    * `SourceText.inBytes_le_inBytes_iff`
    * `Edit.perform?_eq_some_iff`
    * `Edit.Fits`
    * `Edit.performAllAfter?_eq`
-/

namespace Nullary

namespace SourceText

variable {text : List Char}
variable {start stop : Nat}

------------------------------------------------------------
-- Sizes
------------------------------------------------------------

@[simp] theorem byteSize_nil :
    byteSize [] = 0 := rfl

@[simp] theorem byteSize_cons
    (c : Char)
    (text : List Char) :
    byteSize (c :: text) = c.utf8Size + byteSize text := rfl

@[simp] theorem byteSize_append
    (first second : List Char) :
    byteSize (first ++ second) =
      byteSize first + byteSize second := by
  induction first with
  | nil => simp
  | cons c first ih => simp [ih, Nat.add_assoc]

/- Only the empty text has no bytes. -/
theorem byteSize_eq_zero_iff :
    byteSize text = 0 ↔ text = [] := by
  cases text with
  | nil => simp
  | cons c text =>
      have hSize : 0 < c.utf8Size := c.utf8Size_pos
      simp only [byteSize_cons, List.cons_ne_nil, iff_false]
      omega

/-
  Two pieces at the start of one text are the same if they
  have the same size.
-/
theorem append_inj_of_byteSize_eq
    {first second rest rest' : List Char}
    (hText : first ++ rest = second ++ rest')
    (hSize : byteSize first = byteSize second) :
    first = second ∧ rest = rest' := by
  induction first generalizing second with
  | nil =>
      have hSecond : second = [] :=
        byteSize_eq_zero_iff.mp hSize.symm
      subst hSecond
      exact ⟨rfl, hText⟩
  | cons c first ih =>
      cases second with
      | nil =>
          have hEmpty := byteSize_eq_zero_iff.mp hSize
          cases hEmpty
      | cons d second =>
          simp only [List.cons_append, List.cons.injEq] at hText
          rcases hText with ⟨rfl, hText⟩
          have hRest := ih hText (by
            simp only [byteSize_cons] at hSize
            omega)
          exact ⟨by rw [hRest.1], hRest.2⟩

/-
  Two pieces at the end of one text are the same if they have
  the same size.
-/
theorem append_inj_of_byteSize_eq_right
    {first second rest rest' : List Char}
    (hText : first ++ rest = second ++ rest')
    (hSize : byteSize rest = byteSize rest') :
    first = second ∧ rest = rest' := by
  apply append_inj_of_byteSize_eq hText
  have hTotal := congrArg byteSize hText
  simp only [byteSize_append] at hTotal
  omega

------------------------------------------------------------
-- Cuts
------------------------------------------------------------

@[simp] theorem cut?_append
    (first second : List Char) :
    cut? (byteSize first) (first ++ second) =
      some (first, second) := by
  induction first with
  | nil => simp [cut?]
  | cons c first ih =>
      have hPos : 0 < c.utf8Size := c.utf8Size_pos
      obtain ⟨size, hSize⟩ :
          ∃ size, byteSize (c :: first) = size + 1 :=
        ⟨byteSize (c :: first) - 1, by
          simp only [byteSize_cons]
          omega⟩
      have hRest :
          size + 1 - c.utf8Size = byteSize first := by
        simp only [byteSize_cons] at hSize
        omega
      have hLe : c.utf8Size ≤ size + 1 := by
        simp only [byteSize_cons] at hSize
        omega
      rw [hSize, List.cons_append, cut?, if_pos hLe, hRest, ih]
      rfl

/-
  The pieces of a cut are the text, and the first has the
  size asked for.
-/
theorem cut?_eq_some_iff
    {size : Nat}
    {text first second : List Char} :
    cut? size text = some (first, second) ↔
      text = first ++ second ∧ byteSize first = size := by
  constructor
  · intro hCut
    induction text generalizing size first with
    | nil =>
        cases size with
        | zero =>
            simp only [cut?, Option.some.injEq, Prod.mk.injEq] at hCut
            rcases hCut with ⟨rfl, rfl⟩
            exact ⟨rfl, rfl⟩
        | succ size => simp [cut?] at hCut
    | cons c text ih =>
        cases size with
        | zero =>
            simp only [cut?, Option.some.injEq, Prod.mk.injEq] at hCut
            rcases hCut with ⟨rfl, rfl⟩
            exact ⟨rfl, rfl⟩
        | succ size =>
            rw [cut?] at hCut
            split at hCut
            · rcases Option.map_eq_some_iff.mp hCut with
                ⟨⟨first', second'⟩, hRest, hPair⟩
              cases hPair
              rcases ih hRest with ⟨rfl, hSize⟩
              refine ⟨rfl, ?_⟩
              simp only [byteSize_cons]
              omega
            · cases hCut
  · rintro ⟨rfl, rfl⟩
    exact cut?_append first second

/- Behind a lead, the first piece has the lead before it. -/
theorem cut?_lead_append
    (lead text : List Char)
    (size : Nat) :
    cut? (size + byteSize lead) (lead ++ text) =
      (cut? size text).map (Prod.map (lead ++ ·) id) := by
  induction lead with
  | nil => exact Option.map_id'.symm
  | cons c lead ih =>
      have hPos : 0 < c.utf8Size := c.utf8Size_pos
      obtain ⟨whole, hWhole⟩ :
          ∃ whole, size + byteSize (c :: lead) = whole + 1 :=
        ⟨size + byteSize (c :: lead) - 1, by
          simp only [byteSize_cons]
          omega⟩
      simp only [byteSize_cons] at hWhole
      have hRest :
          whole + 1 - c.utf8Size = size + byteSize lead := by
        omega
      rw [byteSize_cons, hWhole, List.cons_append, cut?,
        if_pos (by omega), hRest, ih, Option.map_map]
      rfl

------------------------------------------------------------
-- Offsets in Bytes
------------------------------------------------------------

/-
  A later offset is the size of the piece before it and of
  the piece between.
-/
theorem inBytes_add
    (text : List Char)
    (start count : Nat) :
    inBytes text (start + count) =
      inBytes text start +
        byteSize ((text.drop start).take count) := by
  rw [inBytes, inBytes, List.take_add, byteSize_append]

/-
  Inside a text, the order of offsets is that of their sizes
  in bytes.
-/
theorem inBytes_lt_inBytes
    (hOrder : start < stop)
    (hStart : start < text.length) :
    inBytes text start < inBytes text stop := by
  obtain ⟨count, rfl⟩ := Nat.exists_eq_add_of_lt hOrder
  rw [Nat.add_assoc, inBytes_add]
  have hPiece : (text.drop start).take (count + 1) ≠ [] := by
    intro hEmpty
    have hLength := congrArg List.length hEmpty
    simp only [List.length_take, List.length_drop,
      List.length_nil] at hLength
    omega
  have hSize := mt byteSize_eq_zero_iff.mp hPiece
  omega

theorem inBytes_le_inBytes
    (hOrder : start ≤ stop) :
    inBytes text start ≤ inBytes text stop := by
  obtain ⟨count, rfl⟩ := Nat.exists_eq_add_of_le hOrder
  rw [inBytes_add]
  omega

theorem inBytes_le_inBytes_iff
    (hStart : start ≤ text.length)
    (hStop : stop ≤ text.length) :
    inBytes text start ≤ inBytes text stop ↔
      start ≤ stop := by
  constructor
  · intro hBytes
    by_contra hNot
    have hLt : inBytes text stop < inBytes text start :=
      inBytes_lt_inBytes (by omega) (by omega)
    omega
  · exact inBytes_le_inBytes

/- A piece at the start of a text is known by its size. -/
theorem eq_take_of_byteSize_eq
    {text first rest : List Char}
    {offset : Nat}
    (hText : text = first ++ rest)
    (hSize : byteSize first = inBytes text offset) :
    first = text.take offset := by
  have hSplit :
      first ++ rest =
        text.take offset ++ text.drop offset := by
    rw [← hText, List.take_append_drop]
  exact (append_inj_of_byteSize_eq hSplit hSize).1

end SourceText

------------------------------------------------------------
-- Single Edits
------------------------------------------------------------

namespace Edit

open SourceText

variable {text : List Char}
variable {e : Edit}

/-
  An edit fits a text if it starts and stops between two
  characters of it.
-/
def Fits
    (text : List Char)
    (e : Edit) : Prop :=
  ∃ start stop,
    start ≤ stop ∧ stop ≤ text.length ∧
      e.start = inBytes text start ∧
      e.stop = inBytes text stop

/-
  The pieces of a text before, in and after the range of an
  edit.
-/
theorem Fits.pieces
    (hFits : e.Fits text) :
    ∃ before replaced after,
      text = before ++ replaced ++ after ∧
        byteSize before = e.start ∧
        e.stop = e.start + byteSize replaced := by
  rcases hFits with ⟨start, stop, hOrder, _, hStart, hStop⟩
  obtain ⟨count, rfl⟩ := Nat.exists_eq_add_of_le hOrder
  refine ⟨text.take start, (text.drop start).take count,
    text.drop (start + count), ?_, hStart.symm, ?_⟩
  · rw [← List.take_add, List.take_append_drop]
  · rw [hStart, hStop, inBytes_add]

/- An edit that stops in the first part of a text fits that part. -/
theorem Fits.of_append
    {text tail : List Char}
    (hFits : e.Fits (text ++ tail))
    (hInside : e.stop ≤ byteSize text) :
    e.Fits text := by
  rcases hFits with ⟨start, stop, hOrder, hLength, hStart, hStop⟩
  have hPiece :
      inBytes (text ++ tail) text.length = byteSize text := by
    simp [inBytes]
  have hStopLe : stop ≤ text.length := by
    apply (inBytes_le_inBytes_iff hLength (by simp)).mp
    rw [hPiece, ← hStop]
    exact hInside
  have hTake :
      ∀ offset, offset ≤ text.length →
        inBytes (text ++ tail) offset = inBytes text offset := by
    intro offset hOffset
    rw [inBytes, inBytes, List.take_append_of_le_length hOffset]
  refine ⟨start, stop, hOrder, hStopLe, ?_, ?_⟩
  · rw [hStart, hTake start (by omega)]
  · rw [hStop, hTake stop hStopLe]

theorem Fits.start_le_stop
    (hFits : e.Fits text) :
    e.start ≤ e.stop := by
  rcases hFits with ⟨start, stop, hOrder, _, hStart, hStop⟩
  rw [hStart, hStop]
  exact inBytes_le_inBytes hOrder

theorem Fits.stop_le_byteSize
    (hFits : e.Fits text) :
    e.stop ≤ byteSize text := by
  rcases hFits.pieces with
    ⟨before, replaced, after, rfl, hStart, hStop⟩
  simp only [byteSize_append]
  omega

/-
  An edit replaces the piece at its range and leaves what
  stands around it.
-/
theorem perform?_eq_some_iff
    {text edited : List Char} :
    e.perform? text = some edited ↔
      ∃ before replaced after,
        text = before ++ replaced ++ after ∧
          byteSize before = e.start ∧
          e.stop = e.start + byteSize replaced ∧
          edited = before ++ e.replacement ++ after := by
  rw [perform?]
  constructor
  · intro hEdit
    split at hEdit
    · next hOrder =>
        rcases Option.bind_eq_some_iff.mp hEdit with
          ⟨⟨before, rest⟩, hBefore, hRest⟩
        rcases Option.bind_eq_some_iff.mp hRest with
          ⟨⟨replaced, after⟩, hAfter, hLast⟩
        rcases cut?_eq_some_iff.mp hBefore with ⟨rfl, hStart⟩
        rcases cut?_eq_some_iff.mp hAfter with ⟨rfl, hStop⟩
        refine ⟨before, replaced, after, by simp, hStart, ?_, ?_⟩
        · omega
        · exact (Option.some.inj hLast).symm
    · cases hEdit
  · rintro ⟨before, replaced, after, rfl, hStart, hStop, rfl⟩
    have hSize : e.stop - e.start = byteSize replaced := by
      omega
    rw [if_pos (by omega), ← hStart, List.append_assoc,
      cut?_append, Option.bind_eq_bind, Option.bind_some]
    simp only [hStart, hSize, cut?_append, Option.bind_some,
      Option.pure_def]

------------------------------------------------------------
-- Edits behind a Lead
------------------------------------------------------------

/- A moved edit does behind a lead what the edit does without it. -/
theorem perform?_moved
    (lead text : List Char)
    (e : Edit) :
    perform? (lead ++ text) (e.moved (byteSize lead)) =
      (perform? text e).map (lead ++ ·) := by
  have hSize :
      e.stop + byteSize lead - (e.start + byteSize lead) =
        e.stop - e.start := by
    omega
  unfold perform? moved
  simp only [Nat.add_le_add_iff_right, hSize, cut?_lead_append]
  by_cases hOrder : e.start ≤ e.stop
  · rw [if_pos hOrder, if_pos hOrder]
    cases cut? e.start text with
    | none => rfl
    | some pieces =>
        cases hRest : cut? (e.stop - e.start) pieces.2 with
        | none => simp [hRest]
        | some others => simp [hRest]
  · rw [if_neg hOrder, if_neg hOrder]
    rfl

theorem foldlM_perform?_moved
    (lead : List Char)
    (edits : List Edit)
    (text : List Char) :
    edits.foldlM
        (fun found e => perform? found (e.moved (byteSize lead)))
        (lead ++ text) =
      (edits.foldlM perform? text).map (lead ++ ·) := by
  induction edits generalizing text with
  | nil => rfl
  | cons e edits ih =>
      rw [List.foldlM_cons, List.foldlM_cons, perform?_moved]
      cases perform? text e with
      | none => rfl
      | some edited => exact ih edited

/-
  Edits that are made behind a lead leave it where it is, and
  fit if they fit the text without it.
-/
theorem performAllAfter?_eq
    (lead text : List Char)
    (edits : List Edit) :
    performAllAfter? lead text edits =
      (performAll? text edits).map (lead ++ ·) :=
  foldlM_perform?_moved lead (sortByStart edits) text

end Edit

end Nullary
