import Nullary.Proofs.Source.Size

/-
  Edits that are applied one after the other, and the same
  edits made all at once.

  `Edit.splice` reads the original text once: what an edit
  replaces is left out, and what it puts there stands where
  the edit starts.  Edits that stand apart give the same text
  when they are applied in turn, unless an insertion starts
  where a removal does.  The insertion is then applied first,
  and the removal takes a part of what was inserted.

  Main declarations:
    * `Edit.splice`
    * `Edit.Apart`
    * `Edit.Meets`
    * `Edit.performAll?_eq_splice`
    * `Edit.performAll?_eq_splice_iff`
-/

namespace Nullary

namespace Edit

open SourceText

variable {e : Edit}
variable {edits sorted : List Edit}
variable {offset : Nat}
variable {text : List Char}
variable {tail : List Char}

------------------------------------------------------------
-- All Edits at Once
------------------------------------------------------------

/-
  What edits put at an offset.  Of two edits that start there
  the text of the one given last comes first.
-/
def inserted
    (edits : List Edit)
    (offset : Nat) : List Char :=
  (edits.filter (·.start == offset)).reverse.flatMap (·.replacement)

/- An offset is in the range of an edit. -/
def covers
    (edits : List Edit)
    (offset : Nat) : Bool :=
  edits.any fun e => e.start ≤ offset && offset < e.stop

/-
  The characters of a text from an offset on, with edits
  made between them.
-/
def spliceChars
    (edits : List Edit) : Nat → List Char → List Char
  | _, [] => []
  | offset, c :: rest =>
      inserted edits offset ++
        (if covers edits offset then [] else [c]) ++
        spliceChars edits (offset + c.utf8Size) rest

/- A text with all edits made at once. -/
def splice
    (text : List Char)
    (edits : List Edit) : List Char :=
  spliceChars edits 0 text ++ inserted edits (byteSize text)

/- Two edits of which one stops before the other starts. -/
def Apart
    (e f : Edit) : Prop :=
  e.stop ≤ f.start ∨ f.stop ≤ e.start

theorem Apart.symm
    {f : Edit}
    (hApart : Apart e f) :
    Apart f e :=
  Or.symm hApart

------------------------------------------------------------
-- What Stands at an Offset
------------------------------------------------------------

/- Nothing is inserted where no edit starts. -/
theorem inserted_eq_nil
    (hStarts : ∀ e ∈ edits, e.start ≠ offset) :
    inserted edits offset = [] := by
  have hNone : edits.filter (·.start == offset) = [] := by
    rw [List.filter_eq_nil_iff]
    intro e hMem
    simpa using hStarts e hMem
  simp [inserted, hNone]

/- Later edits insert before earlier ones. -/
theorem inserted_append
    (first second : List Edit)
    (offset : Nat) :
    inserted (first ++ second) offset =
      inserted second offset ++ inserted first offset := by
  simp [inserted]

theorem inserted_cons
    (e : Edit)
    (edits : List Edit)
    (offset : Nat) :
    inserted (e :: edits) offset =
      inserted edits offset ++
        if e.start = offset then e.replacement else [] := by
  by_cases hStart : e.start = offset
  · simp [inserted, hStart]
  · simp [inserted, hStart]

theorem covers_eq_true_iff :
    covers edits offset = true ↔
      ∃ e ∈ edits, e.start ≤ offset ∧ offset < e.stop := by
  simp [covers]

theorem covers_eq_false
    (hOutside :
      ∀ e ∈ edits, offset < e.start ∨ e.stop ≤ offset) :
    covers edits offset = false := by
  rw [Bool.eq_false_iff]
  intro hCovers
  rcases covers_eq_true_iff.mp hCovers with
    ⟨e, hMem, hStart, hStop⟩
  rcases hOutside e hMem with hBefore | hAfter
  · omega
  · omega

theorem covers_append
    (first second : List Edit)
    (offset : Nat) :
    covers (first ++ second) offset =
      (covers first offset || covers second offset) := by
  simp [covers]

theorem covers_cons
    (e : Edit)
    (edits : List Edit)
    (offset : Nat) :
    covers (e :: edits) offset =
      (decide (e.start ≤ offset ∧ offset < e.stop) ||
        covers edits offset) := by
  simp [covers]

------------------------------------------------------------
-- Pieces of a Text
------------------------------------------------------------

theorem spliceChars_append
    (edits : List Edit)
    (offset : Nat)
    (first second : List Char) :
    spliceChars edits offset (first ++ second) =
      spliceChars edits offset first ++
        spliceChars edits (offset + byteSize first) second := by
  induction first generalizing offset with
  | nil => simp [spliceChars]
  | cons c first ih =>
      simp [spliceChars, ih, Nat.add_assoc]

/- A piece on which two lists of edits do the same. -/
theorem spliceChars_congr
    {edits' : List Edit}
    (hInserted :
      ∀ at_, offset ≤ at_ → at_ < offset + byteSize text →
        inserted edits at_ = inserted edits' at_)
    (hCovers :
      ∀ at_, offset ≤ at_ → at_ < offset + byteSize text →
        covers edits at_ = covers edits' at_) :
    spliceChars edits offset text =
      spliceChars edits' offset text := by
  induction text generalizing offset with
  | nil => rfl
  | cons c text ih =>
      have hPos : 0 < c.utf8Size := c.utf8Size_pos
      simp only [byteSize_cons] at hInserted hCovers
      have hRest :
          spliceChars edits (offset + c.utf8Size) text =
            spliceChars edits' (offset + c.utf8Size) text := by
        apply ih
        · intro at_ hLow hHigh
          exact hInserted at_ (by omega) (by omega)
        · intro at_ hLow hHigh
          exact hCovers at_ (by omega) (by omega)
      rw [spliceChars, spliceChars, hRest,
        hInserted offset (by omega) (by omega),
        hCovers offset (by omega) (by omega)]

theorem spliceChars_nil
    (offset : Nat)
    (text : List Char) :
    spliceChars [] offset text = text := by
  induction text generalizing offset with
  | nil => rfl
  | cons c text ih => simp [spliceChars, ih, inserted, covers]

/- Edits that start after a piece do nothing to it. -/
theorem spliceChars_append_of_after
    (others : List Edit)
    (hAfter :
      ∀ e ∈ edits, offset + byteSize text ≤ e.start) :
    spliceChars (edits ++ others) offset text =
      spliceChars others offset text := by
  apply spliceChars_congr
  · intro at_ _ hHigh
    have hNone : inserted edits at_ = [] := by
      apply inserted_eq_nil
      intro e hMem
      have hStart := hAfter e hMem
      omega
    rw [inserted_append, hNone, List.append_nil]
  · intro at_ _ hHigh
    have hNone : covers edits at_ = false := by
      apply covers_eq_false
      intro e hMem
      have hStart := hAfter e hMem
      exact Or.inl (by omega)
    rw [covers_append, hNone, Bool.false_or]

/- Neither do edits that are over before it starts. -/
theorem spliceChars_append_of_before
    (edits : List Edit)
    {others : List Edit}
    (hBefore :
      ∀ e ∈ others, e.start < offset ∧ e.stop ≤ offset) :
    spliceChars (edits ++ others) offset text =
      spliceChars edits offset text := by
  apply spliceChars_congr
  · intro at_ hLow _
    have hNone : inserted others at_ = [] := by
      apply inserted_eq_nil
      intro e hMem
      have hBounds := hBefore e hMem
      omega
    rw [inserted_append, hNone, List.nil_append]
  · intro at_ hLow _
    have hNone : covers others at_ = false := by
      apply covers_eq_false
      intro e hMem
      have hBounds := hBefore e hMem
      exact Or.inr (by omega)
    rw [covers_append, hNone, Bool.or_false]

/- A piece in which nothing is inserted is kept or is gone. -/
theorem spliceChars_eq_ite
    (gone : Bool)
    (hInserted :
      ∀ at_, offset ≤ at_ → at_ < offset + byteSize text →
        inserted edits at_ = [])
    (hCovers :
      ∀ at_, offset ≤ at_ → at_ < offset + byteSize text →
        covers edits at_ = gone) :
    spliceChars edits offset text = if gone then [] else text := by
  induction text generalizing offset with
  | nil => simp [spliceChars]
  | cons c text ih =>
      have hPos : 0 < c.utf8Size := c.utf8Size_pos
      simp only [byteSize_cons] at hInserted hCovers
      rw [spliceChars, hInserted offset (by omega) (by omega),
        hCovers offset (by omega) (by omega), ih]
      · cases gone <;> rfl
      · intro at_ hLow hHigh
        exact hInserted at_ (by omega) (by omega)
      · intro at_ hLow hHigh
        exact hCovers at_ (by omega) (by omega)

/- Such a piece follows what is inserted at its start. -/
theorem spliceChars_eq_inserted_append
    (gone : Bool)
    (hText : text ≠ [])
    (hInserted :
      ∀ at_, offset < at_ → at_ < offset + byteSize text →
        inserted edits at_ = [])
    (hCovers :
      ∀ at_, offset ≤ at_ → at_ < offset + byteSize text →
        covers edits at_ = gone) :
    spliceChars edits offset text =
      inserted edits offset ++ if gone then [] else text := by
  cases text with
  | nil => exact absurd rfl hText
  | cons c text =>
      have hPos : 0 < c.utf8Size := c.utf8Size_pos
      simp only [byteSize_cons] at hInserted hCovers
      rw [spliceChars, hCovers offset (by omega) (by omega),
        List.append_assoc, spliceChars_eq_ite gone]
      · cases gone <;> rfl
      · intro at_ hLow hHigh
        exact hInserted at_ (by omega) (by omega)
      · intro at_ hLow hHigh
        exact hCovers at_ (by omega) (by omega)

------------------------------------------------------------
-- Edits in Turn
------------------------------------------------------------

/-
  A cut in the first part of a text leaves the second part
  alone.
-/
theorem cut?_append_of_le
    {size : Nat}
    (hSize : size ≤ byteSize text) :
    cut? size (text ++ tail) =
      (cut? size text).map fun (first, second) =>
        (first, second ++ tail) := by
  induction text generalizing size with
  | nil =>
      have hZero : size = 0 := by simpa using hSize
      subst hZero
      simp [cut?]
  | cons c text ih =>
      cases size with
      | zero => simp [cut?]
      | succ size =>
          rw [List.cons_append, cut?, cut?]
          by_cases hFirst : c.utf8Size ≤ size + 1
          · simp only [byteSize_cons] at hSize
            rw [if_pos hFirst, if_pos hFirst, ih (by omega)]
            simp [Option.map_map, Function.comp_def]
          · rw [if_neg hFirst, if_neg hFirst]
            rfl

/-
  An edit in the first part of a text leaves the second part
  alone.
-/
theorem perform?_append
    (hStop : e.stop ≤ byteSize text) :
    e.perform? (text ++ tail) =
      (e.perform? text).map (· ++ tail) := by
  rw [perform?, perform?]
  by_cases hOrder : e.start ≤ e.stop
  · rw [if_pos hOrder, if_pos hOrder,
      cut?_append_of_le (by omega)]
    cases hCut : cut? e.start text with
    | none => simp
    | some pieces =>
        rcases pieces with ⟨before, rest⟩
        rcases cut?_eq_some_iff.mp hCut with ⟨rfl, hBefore⟩
        simp only [byteSize_append] at hStop
        have hSize : e.stop - e.start ≤ byteSize rest := by
          omega
        cases hRest : cut? (e.stop - e.start) rest with
        | none =>
            simp [cut?_append_of_le hSize, hRest]
        | some pieces =>
            simp [cut?_append_of_le hSize, hRest]
  · rw [if_neg hOrder, if_neg hOrder]
    rfl

/-
  Edits from the last one back, each apart from all others,
  do not reach past the part of the text that they stand in.
  After a removal the others stop before its start; after an
  insertion the part has only grown.
-/
theorem foldlM_perform?_append
    (hOrder :
      edits.Pairwise fun e f => f.start ≤ e.start ∧ Apart e f)
    (hStops : ∀ e ∈ edits, e.stop ≤ byteSize text) :
    edits.foldlM perform? (text ++ tail) =
      (edits.foldlM perform? text).map (· ++ tail) := by
  induction edits generalizing text with
  | nil => rfl
  | cons e edits ih =>
      rcases List.pairwise_cons.mp hOrder with ⟨hFirst, hRest⟩
      rw [List.foldlM_cons, List.foldlM_cons,
        perform?_append (hStops e (by simp))]
      cases hEdit : e.perform? text with
      | none => rfl
      | some edited =>
          rcases perform?_eq_some_iff.mp hEdit with
            ⟨before, replaced, after, rfl, hStart, hStop, rfl⟩
          apply ih hRest
          intro f hMem
          have hBound := hStops f (List.mem_cons_of_mem e hMem)
          rcases hFirst f hMem with ⟨hLater, hApart⟩
          simp only [byteSize_append] at hBound ⊢
          rcases hApart with hEmpty | hBefore
          · omega
          · omega

------------------------------------------------------------
-- Edits from the Last One Back
------------------------------------------------------------

/- Edits each of which stops before all earlier ones start. -/
def Descending
    (edits : List Edit) : Prop :=
  edits.Pairwise fun e f => f.stop ≤ e.start

/-
  From the start of the last edit on, what is inserted there
  stands before what follows the edit, whether or not it also
  takes something away.
-/
theorem splice_from_last
    {replaced after : List Char}
    (hStop : e.stop = e.start + byteSize replaced)
    (hOrder : ∀ f ∈ edits, f.start ≤ f.stop ∧ f.stop ≤ e.start) :
    spliceChars (e :: edits) e.start replaced ++
        spliceChars (e :: edits) e.stop after ++
        inserted (e :: edits) (e.stop + byteSize after) =
      inserted (e :: edits) e.start ++ after := by
  have hInserted :
      ∀ at_, e.start < at_ → inserted (e :: edits) at_ = [] := by
    intro at_ hAt
    apply inserted_eq_nil
    intro f hMem
    rcases List.mem_cons.mp hMem with rfl | hMem
    · omega
    · have hBounds := hOrder f hMem
      omega
  have hOutside :
      ∀ at_, e.stop ≤ at_ → covers (e :: edits) at_ = false := by
    intro at_ hAt
    apply covers_eq_false
    intro f hMem
    rcases List.mem_cons.mp hMem with rfl | hMem
    · exact Or.inr hAt
    · have hBounds := hOrder f hMem
      exact Or.inr (by omega)
  by_cases hReplaced : replaced = []
  · subst hReplaced
    have hEmpty : e.stop = e.start := by simpa using hStop
    rw [hEmpty] at hOutside ⊢
    by_cases hEnd : after = []
    · subst hEnd
      simp [spliceChars]
    · have hKept :
          spliceChars (e :: edits) e.start after =
            inserted (e :: edits) e.start ++ after := by
        apply spliceChars_eq_inserted_append false hEnd
        · intro at_ hLow _
          exact hInserted at_ hLow
        · intro at_ hLow _
          exact hOutside at_ hLow
      have hSize := mt byteSize_eq_zero_iff.mp hEnd
      rw [hKept, hInserted (e.start + byteSize after) (by omega)]
      simp [spliceChars]
  · have hSize := mt byteSize_eq_zero_iff.mp hReplaced
    have hGone :
        spliceChars (e :: edits) e.start replaced =
          inserted (e :: edits) e.start := by
      rw [spliceChars_eq_inserted_append true hReplaced, if_pos rfl,
        List.append_nil]
      · intro at_ hLow _
        exact hInserted at_ hLow
      · intro at_ hLow hHigh
        rw [covers_cons, decide_eq_true (by omega)]
        rfl
    have hKept :
        spliceChars (e :: edits) e.stop after = after := by
      apply spliceChars_eq_ite false
      · intro at_ hLow _
        exact hInserted at_ (by omega)
      · intro at_ hLow _
        exact hOutside at_ hLow
    rw [hGone, hKept,
      hInserted (e.stop + byteSize after) (by omega)]
    simp

/-
  The last edit of a text splits it: the others are made in
  the part before it, and what follows it is kept.
-/
theorem splice_cons
    {before replaced after : List Char}
    (hStart : byteSize before = e.start)
    (hStop : e.stop = e.start + byteSize replaced)
    (hOrder : ∀ f ∈ edits, f.start ≤ f.stop ∧ f.stop ≤ e.start) :
    splice (before ++ replaced ++ after) (e :: edits) =
      splice before edits ++ e.replacement ++ after := by
  have hBefore :
      spliceChars (e :: edits) 0 before =
        spliceChars edits 0 before := by
    rw [← List.singleton_append]
    apply spliceChars_append_of_after
    intro f hMem
    cases List.mem_singleton.mp hMem
    omega
  have hAfter : _ = inserted (e :: edits) e.start ++ after :=
    splice_from_last hStop hOrder
  rw [inserted_cons e edits e.start, if_pos rfl] at hAfter
  have hPrefix : byteSize (before ++ replaced) = e.stop := by
    rw [byteSize_append, hStart, hStop]
  have hTotal :
      byteSize (before ++ replaced ++ after) =
        e.stop + byteSize after := by
    rw [byteSize_append, hPrefix]
  rw [splice, hTotal, spliceChars_append, spliceChars_append,
    hBefore, hPrefix, hStart, splice, hStart]
  simp only [Nat.zero_add, List.append_assoc] at hAfter ⊢
  rw [hAfter]

/-
  The last of the edits that fit a text cuts it in three: the
  others fit the part before it, and stay there when all are
  made.
-/
theorem Descending.pieces
    (hFits : ∀ f ∈ e :: edits, f.Fits text)
    (hOrder : Descending (e :: edits)) :
    ∃ before replaced after,
      text = before ++ replaced ++ after ∧
        byteSize before = e.start ∧
        e.stop = e.start + byteSize replaced ∧
        (∀ f ∈ edits, f.Fits before) ∧
        splice text (e :: edits) =
          splice before edits ++ e.replacement ++ after := by
  rcases List.pairwise_cons.mp hOrder with ⟨hFirst, _⟩
  rcases (hFits e (by simp)).pieces with
    ⟨before, replaced, after, rfl, hStart, hStop⟩
  have hInside : ∀ f ∈ edits, f.Fits before := by
    intro f hMem
    have hFit := hFits f (List.mem_cons_of_mem e hMem)
    rw [List.append_assoc] at hFit
    exact hFit.of_append (by rw [hStart]; exact hFirst f hMem)
  refine ⟨before, replaced, after, rfl, hStart, hStop, hInside,
    splice_cons hStart hStop ?_⟩
  intro f hMem
  exact ⟨(hInside f hMem).start_le_stop, hFirst f hMem⟩

/-
  Edits from the last one back that fit a text give the text
  with all of them made.
-/
theorem foldlM_perform?_eq_splice
    (hFits : ∀ e ∈ edits, e.Fits text)
    (hOrder : Descending edits) :
    edits.foldlM perform? text = some (splice text edits) := by
  induction edits generalizing text with
  | nil =>
      rw [splice, spliceChars_nil]
      simp [inserted]
  | cons e edits ih =>
      rcases hOrder.pieces hFits with
        ⟨before, replaced, after, rfl, hStart, hStop, hInside,
          hSplice⟩
      rcases List.pairwise_cons.mp hOrder with ⟨hFirst, hRest⟩
      have hEdit :
          e.perform? (before ++ replaced ++ after) =
            some (before ++ (e.replacement ++ after)) :=
        perform?_eq_some_iff.mpr
          ⟨before, replaced, after, rfl, hStart, hStop, by simp⟩
      have hApart :
          edits.Pairwise
            fun f g => g.start ≤ f.start ∧ Apart f g := by
        refine hRest.imp_of_mem ?_
        intro f g _ hMem hStops
        have hBounds := (hInside g hMem).start_le_stop
        exact ⟨by omega, Or.inr hStops⟩
      rw [List.foldlM_cons, hEdit, Option.bind_eq_bind,
        Option.bind_some, foldlM_perform?_append hApart,
        ih hInside hRest, hSplice]
      · simp
      · intro f hMem
        rw [hStart]
        exact hFirst f hMem

------------------------------------------------------------
-- Sorting
------------------------------------------------------------

theorem insertByStart_perm
    (e : Edit)
    (edits : List Edit) :
    (insertByStart e edits).Perm (e :: edits) := by
  induction edits with
  | nil => exact List.Perm.refl _
  | cons f edits ih =>
      rw [insertByStart]
      split
      · exact List.Perm.refl _
      · exact (ih.cons f).trans (List.Perm.swap e f edits)

/- An edit is put where the starts stay in order. -/
theorem insertByStart_sorted
    (hSorted : edits.Pairwise fun f g => g.start ≤ f.start) :
    (insertByStart e edits).Pairwise
      fun f g => g.start ≤ f.start := by
  induction edits with
  | nil => exact List.pairwise_singleton _ _
  | cons f edits ih =>
      rcases List.pairwise_cons.mp hSorted with ⟨hFirst, hRest⟩
      rw [insertByStart]
      split
      · next hLater =>
          refine List.pairwise_cons.mpr ⟨?_, hSorted⟩
          intro g hMem
          rcases List.mem_cons.mp hMem with rfl | hMem
          · omega
          · have hBound := hFirst g hMem
            omega
      · next hEarlier =>
          refine List.pairwise_cons.mpr ⟨?_, ih hRest⟩
          intro g hMem
          have hEither :=
            List.mem_cons.mp
              ((insertByStart_perm e edits).mem_iff.mp hMem)
          rcases hEither with rfl | hMem
          · omega
          · exact hFirst g hMem

/- An edit is put after the edits that start where it does. -/
theorem insertByStart_filter
    (hSorted : edits.Pairwise fun f g => g.start ≤ f.start)
    (offset : Nat) :
    (insertByStart e edits).filter (·.start == offset) =
      (edits ++ [e]).filter (·.start == offset) := by
  induction edits with
  | nil => rfl
  | cons f edits ih =>
      rcases List.pairwise_cons.mp hSorted with ⟨hFirst, hRest⟩
      rw [insertByStart]
      split
      · next hLater =>
          by_cases hStart : e.start = offset
          · have hNone :
                (f :: edits).filter (·.start == offset) = [] := by
              rw [List.filter_eq_nil_iff]
              intro g hMem
              have hBound : g.start ≤ f.start := by
                rcases List.mem_cons.mp hMem with rfl | hMem
                · exact Nat.le_refl _
                · exact hFirst g hMem
              simp only [beq_iff_eq]
              omega
            rw [List.filter_append, hNone]
            simp [hStart, hNone]
          · simp [List.filter_cons, hStart]
      · rw [List.cons_append, List.filter_cons, List.filter_cons,
          ih hRest]

/-
  What is known of the edits sorted so far: they are those
  given, in the order of their starts, and in the given order
  where they start together.
-/
structure SortOf
    (edits sorted : List Edit) : Prop where
  perm : sorted.Perm edits
  starts : sorted.Pairwise fun f g => g.start ≤ f.start
  stable :
    ∀ offset,
      sorted.filter (·.start == offset) =
        edits.filter (·.start == offset)

theorem SortOf.insert
    (hSort : SortOf edits sorted)
    (e : Edit) :
    SortOf (edits ++ [e]) (insertByStart e sorted) where
  perm :=
    ((insertByStart_perm e sorted).trans (hSort.perm.cons e)).trans
      (List.perm_append_singleton e edits).symm
  starts := insertByStart_sorted hSort.starts
  stable offset := by
    rw [insertByStart_filter hSort.starts, List.filter_append,
      List.filter_append, hSort.stable]

/- Edits that stand apart do so in any order. -/
theorem SortOf.apart
    (hSort : SortOf edits sorted)
    (hApart : edits.Pairwise Apart) :
    sorted.Pairwise Apart :=
  (hSort.perm.pairwise_iff (fun h => Apart.symm h)).mpr hApart

theorem sortOf_foldl
    (hSort : SortOf edits sorted)
    (more : List Edit) :
    SortOf (edits ++ more)
      (more.foldl (fun sorted e => insertByStart e sorted) sorted) := by
  induction more generalizing edits sorted with
  | nil => simpa using hSort
  | cons e more ih =>
      have hNext := ih (hSort.insert e)
      simpa using hNext

theorem sortOf_sortByStart
    (edits : List Edit) :
    SortOf edits (sortByStart edits) := by
  have hEmpty : SortOf [] [] :=
    ⟨List.Perm.refl _, List.Pairwise.nil, fun _ => rfl⟩
  exact sortOf_foldl hEmpty edits

/- Sorting does not change what stands at an offset. -/
theorem SortOf.inserted_eq
    (hSort : SortOf edits sorted)
    (offset : Nat) :
    inserted sorted offset = inserted edits offset := by
  rw [inserted, inserted, hSort.stable]

/-
  Sorted edits, made all at once, give what the edits as
  given do.
-/
theorem SortOf.splice_eq
    (hSort : SortOf edits sorted)
    (text : List Char) :
    splice text sorted = splice text edits := by
  have hCovers :
      ∀ offset, covers sorted offset = covers edits offset := by
    intro offset
    rw [Bool.eq_iff_iff, covers_eq_true_iff, covers_eq_true_iff]
    simp only [hSort.perm.mem_iff]
  rw [splice, splice, hSort.inserted_eq,
    spliceChars_congr (fun at_ _ _ => hSort.inserted_eq at_)
      (fun at_ _ _ => hCovers at_)]

------------------------------------------------------------
-- Edits That Stand Apart
------------------------------------------------------------

/-
  Two edits that meet: the first inserts where the second
  starts to remove.
-/
def Meets
    (e f : Edit) : Prop :=
  e.start = e.stop ∧ f.start < f.stop ∧ e.start = f.start

/-
  Two edits that stand apart, and of which the first does not
  reach past the second if it removes and the second inserts.
-/
structure InOrder
    (e f : Edit) : Prop where
  apart : Apart e f
  removal_le_insertion :
    e.start < e.stop → f.start = f.stop → e.stop ≤ f.start

theorem inOrder_of_le
    {f : Edit}
    (hOrder : e.stop ≤ f.start) :
    InOrder e f :=
  ⟨Or.inl hOrder, fun _ _ => hOrder⟩

/-
  Edits of a text that are in order, and of which none both
  takes something away and puts something there.
-/
structure Arranged
    (text : List Char)
    (edits : List Edit) : Prop where
  fits : ∀ e ∈ edits, e.Fits text
  inOrder : edits.Pairwise InOrder
  removals :
    ∀ e ∈ edits, e.start < e.stop → e.replacement = []

theorem Arranged.apart
    (hArranged : Arranged text edits) :
    edits.Pairwise Apart :=
  hArranged.inOrder.imp InOrder.apart

/-
  Edits that fit a text, stand apart and do not meet are
  sorted from the last one back.
-/
theorem descending_sortByStart
    (hFits : ∀ e ∈ edits, e.Fits text)
    (hApart : edits.Pairwise Apart)
    (hMeets : ∀ e ∈ edits, ∀ f ∈ edits, ¬ Meets e f) :
    Descending (sortByStart edits) := by
  have hSort := sortOf_sortByStart edits
  have hBoth := hSort.starts.and (hSort.apart hApart)
  refine hBoth.imp_of_mem ?_
  intro e f hE hF hOrder
  have hE := hSort.perm.mem_iff.mp hE
  rcases hOrder with ⟨hStarts, hStop | hStop⟩
  · have hMeet := hMeets e hE f (hSort.perm.mem_iff.mp hF)
    have hBounds := (hFits e hE).start_le_stop
    by_contra hNot
    exact hMeet ⟨by omega, by omega, by omega⟩
  · exact hStop

/- They can be applied in turn, and give the text with all of them made. -/
theorem performAll?_eq_splice
    (hFits : ∀ e ∈ edits, e.Fits text)
    (hApart : edits.Pairwise Apart)
    (hMeets : ∀ e ∈ edits, ∀ f ∈ edits, ¬ Meets e f) :
    performAll? text edits = some (splice text edits) := by
  have hSort := sortOf_sortByStart edits
  have hFits' : ∀ e ∈ sortByStart edits, e.Fits text := by
    intro e hMem
    exact hFits e (hSort.perm.mem_iff.mp hMem)
  rw [performAll?, foldlM_perform?_eq_splice hFits'
    (descending_sortByStart hFits hApart hMeets), hSort.splice_eq]

------------------------------------------------------------
-- Edits That Meet
------------------------------------------------------------

/-
  The first edit that does not stop before an earlier one
  starts.
-/
theorem exists_first_not_descending
    (hNot : ¬ Descending edits) :
    ∃ before e after,
      edits = before ++ e :: after ∧ Descending before ∧
        ∃ f ∈ before, f.start < e.stop := by
  induction edits using List.reverseRecOn with
  | nil => exact absurd List.Pairwise.nil hNot
  | append_singleton edits e ih =>
      by_cases hBefore : Descending edits
      · refine ⟨edits, e, [], rfl, hBefore, ?_⟩
        by_contra hNone
        apply hNot
        rw [Descending, List.pairwise_append]
        refine ⟨hBefore, List.pairwise_singleton _ _, ?_⟩
        intro f hMem g hLast
        cases List.mem_singleton.mp hLast
        exact Nat.le_of_not_lt fun hLt => hNone ⟨f, hMem, hLt⟩
      · rcases ih hBefore with
          ⟨before, f, after, rfl, hFirst, hMeet⟩
        exact ⟨before, f, after ++ [e], by simp, hFirst, hMeet⟩

section Meeting

variable {edits others : List Edit}
variable {e : Edit}
variable {before removed after : List Char}

/-
  Edits of which some insert where a piece starts and the
  others stand after the piece.
-/
def AtOrAfter
    (edits : List Edit)
    (start stop : Nat) : Prop :=
  ∀ f ∈ edits,
    (f.start = start ∧ f.stop = start) ∨
      (stop ≤ f.start ∧ f.start ≤ f.stop)

/- What edits make of the text after a piece. -/
def spliceAfter
    (edits : List Edit)
    (offset : Nat)
    (after : List Char) : List Char :=
  spliceChars edits offset after ++
    inserted edits (offset + byteSize after)

/- The piece is kept, with the insertions before it. -/
theorem splice_atOrAfter
    (hEdits :
      AtOrAfter edits (byteSize before)
        (byteSize before + byteSize removed))
    (hRemoved : removed ≠ []) :
    splice (before ++ removed ++ after) edits =
      before ++ (inserted edits (byteSize before) ++ removed ++
        spliceAfter edits (byteSize before + byteSize removed)
          after) := by
  have hSize := mt byteSize_eq_zero_iff.mp hRemoved
  have hBefore : spliceChars edits 0 before = before := by
    rw [← List.append_nil edits, spliceChars_append_of_after,
      spliceChars_nil]
    intro f hMem
    rcases hEdits f hMem with hAt | hAfter
    · omega
    · omega
  have hPiece :
      spliceChars edits (byteSize before) removed =
        inserted edits (byteSize before) ++ removed := by
    apply spliceChars_eq_inserted_append false hRemoved
    · intro at_ hLow hHigh
      apply inserted_eq_nil
      intro f hMem
      rcases hEdits f hMem with hAt | hAfter
      · omega
      · omega
    · intro at_ hLow hHigh
      apply covers_eq_false
      intro f hMem
      rcases hEdits f hMem with hAt | hAfter
      · exact Or.inr (by omega)
      · exact Or.inl (by omega)
  rw [splice, spliceChars_append, spliceChars_append, Nat.zero_add,
    Nat.zero_add, byteSize_append, byteSize_append, hBefore,
    hPiece]
  simp [spliceAfter]

/- The piece is gone if another edit removes it. -/
theorem splice_removed
    (hEdits :
      AtOrAfter edits (byteSize before)
        (byteSize before + byteSize removed))
    (hRemoved : removed ≠ [])
    (hStart : e.start = byteSize before)
    (hStop : e.stop = byteSize before + byteSize removed)
    (hEmpty : e.replacement = [])
    (hOthers :
      ∀ f ∈ others,
        f.start ≤ f.stop ∧ f.stop ≤ byteSize before) :
    splice (before ++ removed ++ after) (edits ++ e :: others) =
      splice before others ++
        (inserted edits (byteSize before) ++
          spliceAfter edits (byteSize before + byteSize removed)
            after) := by
  have hSize := mt byteSize_eq_zero_iff.mp hRemoved
  have hInserted :
      ∀ at_, byteSize before < at_ →
        inserted (edits ++ e :: others) at_ =
          inserted edits at_ := by
    intro at_ hAt
    have hNone : inserted (e :: others) at_ = [] := by
      apply inserted_eq_nil
      intro f hMem
      rcases List.mem_cons.mp hMem with rfl | hMem
      · omega
      · have hBounds := hOthers f hMem
        omega
    rw [inserted_append, hNone, List.nil_append]
  have hBefore :
      spliceChars (edits ++ e :: others) 0 before =
        spliceChars others 0 before := by
    rw [List.append_cons]
    apply spliceChars_append_of_after
    intro f hMem
    rcases List.mem_append.mp hMem with hMem | hMem
    · rcases hEdits f hMem with hAt | hAfter
      · omega
      · omega
    · cases List.mem_singleton.mp hMem
      omega
  have hPiece :
      spliceChars (edits ++ e :: others) (byteSize before)
          removed =
        inserted others (byteSize before) ++
          inserted edits (byteSize before) := by
    rw [spliceChars_eq_inserted_append true hRemoved, if_pos rfl,
      List.append_nil, inserted_append, inserted_cons, hEmpty,
      ite_self, List.append_nil]
    · intro at_ hLow hHigh
      rw [hInserted at_ hLow]
      apply inserted_eq_nil
      intro f hMem
      rcases hEdits f hMem with hAt | hAfter
      · omega
      · omega
    · intro at_ hLow hHigh
      exact covers_eq_true_iff.mpr
        ⟨e, by simp, by omega, by omega⟩
  have hAfter :
      spliceChars (edits ++ e :: others)
          (byteSize before + byteSize removed) after =
        spliceChars edits (byteSize before + byteSize removed)
          after := by
    apply spliceChars_append_of_before
    intro f hMem
    rcases List.mem_cons.mp hMem with rfl | hMem
    · exact ⟨by omega, by omega⟩
    · have hBounds := hOthers f hMem
      exact ⟨by omega, by omega⟩
  have hTotal :
      byteSize (before ++ removed ++ after) =
        byteSize before + byteSize removed + byteSize after := by
    rw [byteSize_append, byteSize_append]
  rw [splice, hTotal, spliceChars_append, spliceChars_append,
    Nat.zero_add, Nat.zero_add, byteSize_append, hBefore, hPiece,
    hAfter, hInserted _ (by omega)]
  simp [splice, spliceAfter]

/-
  What is inserted at an offset ends with the text of an
  edit that starts there.
-/
theorem exists_inserted_eq_append
    (hMem : e ∈ edits)
    (hStart : e.start = offset) :
    ∃ f ∈ edits, f.start = offset ∧
      ∃ front, inserted edits offset = front ++ f.replacement := by
  have hFound : e ∈ edits.filter (·.start == offset) :=
    List.mem_filter.mpr ⟨hMem, by simpa using hStart⟩
  cases hFilter : edits.filter (·.start == offset) with
  | nil =>
      rw [hFilter] at hFound
      cases hFound
  | cons f more =>
      have hF : f ∈ edits.filter (·.start == offset) := by
        rw [hFilter]
        exact List.mem_cons_self
      rcases List.mem_filter.mp hF with ⟨hEdit, hAt⟩
      refine ⟨f, hEdit, by simpa using hAt,
        more.reverse.flatMap (·.replacement), ?_⟩
      simp [inserted, hFilter]

/-
  A removal that is applied after insertions at its start
  takes as many bytes as it should, but from what was
  inserted.  If that does not show, the inserted text is the
  same after its start is taken away and the removed text is
  put at its end.
-/
theorem rotation_of_foldlM_eq_splice
    (hEarlier : Descending edits)
    (hFits : ∀ f ∈ edits, f.Fits (before ++ removed ++ after))
    (hEdits :
      AtOrAfter edits (byteSize before)
        (byteSize before + byteSize removed))
    (hRemoved : removed ≠ [])
    (hStart : e.start = byteSize before)
    (hStop : e.stop = byteSize before + byteSize removed)
    (hEmpty : e.replacement = [])
    (hOthers :
      ∀ f ∈ others,
        f.start ≤ f.stop ∧ f.stop ≤ byteSize before)
    (hOrder :
      others.Pairwise fun f g => g.start ≤ f.start ∧ Apart f g)
    (hSplice :
      (edits ++ e :: others).foldlM perform?
          (before ++ removed ++ after) =
        some (splice (before ++ removed ++ after)
          (edits ++ e :: others))) :
    ∃ rotated,
      inserted edits (byteSize before) ++ removed =
        rotated ++ inserted edits (byteSize before) := by
  rw [List.foldlM_append,
    foldlM_perform?_eq_splice hFits hEarlier, Option.bind_eq_bind,
    Option.bind_some, List.foldlM_cons,
    splice_atOrAfter hEdits hRemoved] at hSplice
  rcases Option.bind_eq_some_iff.mp hSplice with
    ⟨edited, hEdit, hRest⟩
  rcases perform?_eq_some_iff.mp hEdit with
    ⟨before', rotated, after', hText, hStart', hStop', rfl⟩
  rw [List.append_assoc before'] at hText
  rcases append_inj_of_byteSize_eq hText (by omega) with
    ⟨rfl, hPiece⟩
  -- The later edits stand in `before` and leave the rest alone.
  rw [hEmpty, List.append_nil, foldlM_perform?_append hOrder
    (fun f hMem => (hOthers f hMem).2)] at hRest
  rcases Option.map_eq_some_iff.mp hRest with
    ⟨front, _, hEnd⟩
  rw [splice_removed hEdits hRemoved hStart hStop hEmpty
    hOthers] at hEnd
  have hSizes := congrArg byteSize hPiece
  simp only [byteSize_append] at hSizes
  rcases append_inj_of_byteSize_eq_right hEnd (by
    simp only [byteSize_append]
    omega) with ⟨_, rfl⟩
  refine ⟨rotated, ?_⟩
  rw [← List.append_assoc] at hPiece
  exact List.append_cancel_right hPiece

/-
  If edits of which two meet still give the text with all of
  them made, the text inserted is the same after its start is
  taken away and the removed text is put at its end.
-/
theorem exists_rotation_of_performAll?_eq_splice
    (hArranged : Arranged text edits)
    (hMeets : ¬ Descending (sortByStart edits))
    (hSplice : performAll? text edits = some (splice text edits)) :
    ∃ f ∈ edits, ∃ e ∈ edits, Meets f e ∧
      ∃ before removed after front rotated,
        text = before ++ removed ++ after ∧
          byteSize before = e.start ∧
          e.stop = e.start + byteSize removed ∧
          (front ++ f.replacement) ++ removed =
            rotated ++ (front ++ f.replacement) := by
  have hSort := sortOf_sortByStart edits
  have hMem : ∀ f, f ∈ sortByStart edits → f ∈ edits :=
    fun f => hSort.perm.mem_iff.mp
  have hPairs :
      (sortByStart edits).Pairwise
        fun f g => g.start ≤ f.start ∧ Apart f g :=
    hSort.starts.and (hSort.apart hArranged.apart)
  rcases exists_first_not_descending hMeets with
    ⟨earlier, e, later, hEdits, hEarlier, f, hF, hLate⟩
  rw [hEdits] at hPairs hMem
  rcases List.pairwise_append.mp hPairs with
    ⟨_, hLater, hCross⟩
  rcases List.pairwise_cons.mp hLater with ⟨hAfter, hOrder⟩
  have hE : e ∈ edits := hMem e (by simp)
  have hBounds : ∀ g, g ∈ edits → g.start ≤ g.stop :=
    fun g hG => (hArranged.fits g hG).start_le_stop
  have hRange : e.start < e.stop := by
    rcases hCross f hF e (by simp) with ⟨hStarts, _⟩
    omega
  rcases (hArranged.fits e hE).pieces with
    ⟨before, removed, after, rfl, hStart, hStop⟩
  have hRemoved : removed ≠ [] := by
    rintro rfl
    simp only [byteSize_nil] at hStop
    omega
  have hAtOrAfter :
      AtOrAfter earlier (byteSize before)
        (byteSize before + byteSize removed) := by
    intro g hG
    have hBound := hBounds g (hMem g (by simp [hG]))
    rcases hCross g hG e (by simp) with ⟨hStarts, hStop' | hStop'⟩
    · exact Or.inl ⟨by omega, by omega⟩
    · exact Or.inr ⟨by omega, hBound⟩
  have hOthers :
      ∀ g ∈ later, g.start ≤ g.stop ∧ g.stop ≤ byteSize before := by
    intro g hG
    have hBound := hBounds g (hMem g (by simp [hG]))
    rcases hAfter g hG with ⟨hStarts, hStop' | hStop'⟩
    · omega
    · exact ⟨hBound, by omega⟩
  rw [performAll?, ← hSort.splice_eq, hEdits] at hSplice
  rcases rotation_of_foldlM_eq_splice hEarlier
      (fun g hG => hArranged.fits g (hMem g (by simp [hG])))
      hAtOrAfter hRemoved hStart.symm (by omega)
      (hArranged.removals e hE hRange) hOthers hOrder
      hSplice with
    ⟨rotated, hRotated⟩
  have hFStart : f.start = byteSize before := by
    rcases hAtOrAfter f hF with hAt | hPast
    · exact hAt.1
    · omega
  rcases exists_inserted_eq_append hF hFStart with
    ⟨g, hG, hGStart, front, hFront⟩
  have hMeet : Meets g e := by
    rcases hAtOrAfter g hG with hAt | hPast
    · exact ⟨by omega, hRange, by omega⟩
    · have hSize := mt byteSize_eq_zero_iff.mp hRemoved
      omega
  rw [hFront] at hRotated
  exact ⟨g, hMem g (by simp [hG]), e, hE, hMeet, before, removed,
    after, front, rotated, rfl, hStart, hStop, hRotated⟩

/-
  An insertion given before the removal that it meets is
  applied before it.
-/
theorem not_descending_of_meets
    {f : Edit}
    (hGiven : [f, e].Sublist edits)
    (hMeets : Meets f e) :
    ¬ Descending (sortByStart edits) := by
  rcases hMeets with ⟨_, hRange, hStart⟩
  intro hDescending
  have hFilter :=
    hGiven.filter (fun g => g.start == e.start)
  rw [← (sortOf_sortByStart edits).stable] at hFilter
  have hBoth : [f, e].Sublist (sortByStart edits) := by
    apply List.Sublist.trans _ List.filter_sublist
    · exact fun g => g.start == e.start
    · simpa [List.filter_cons, hStart] using hFilter
  have hPair : Descending [f, e] :=
    List.Pairwise.sublist hBoth hDescending
  have hStop : e.stop ≤ f.start := by
    simpa [Descending] using hPair
  omega

/-
  Of two edits that meet, the insertion was given first if
  removals stop before later insertions.
-/
theorem sublist_of_meets
    {f : Edit}
    (hInOrder : edits.Pairwise InOrder)
    (hF : f ∈ edits)
    (hE : e ∈ edits)
    (hMeets : Meets f e) :
    [f, e].Sublist edits := by
  rcases hMeets with ⟨hEmpty, hRange, hStart⟩
  induction edits with
  | nil => cases hF
  | cons g edits ih =>
      rcases List.pairwise_cons.mp hInOrder with
        ⟨hFirst, hRest⟩
      rcases List.mem_cons.mp hE with rfl | hLaterE
      · rcases List.mem_cons.mp hF with rfl | hLaterF
        · omega
        · have hStop :=
            (hFirst f hLaterF).removal_le_insertion hRange hEmpty
          omega
      · rcases List.mem_cons.mp hF with rfl | hLaterF
        · exact List.Sublist.cons_cons _
            (List.singleton_sublist.mpr hLaterE)
        · exact (ih hRest hLaterF hLaterE).cons _

/-
  Edits that stand apart, applied in turn, give the text with
  all of them made exactly if no insertion meets a removal.
-/
theorem performAll?_eq_splice_iff
    (hArranged : Arranged text edits)
    (hRotation :
      ∀ f ∈ edits, ∀ e ∈ edits, Meets f e →
        ∀ before removed after front rotated,
          text = before ++ removed ++ after →
          byteSize before = e.start →
          e.stop = e.start + byteSize removed →
          (front ++ f.replacement) ++ removed ≠
            rotated ++ (front ++ f.replacement)) :
    performAll? text edits = some (splice text edits) ↔
      ∀ f ∈ edits, ∀ e ∈ edits, ¬ Meets f e := by
  constructor
  · intro hSplice f hF e hE hMeets
    have hGiven :=
      sublist_of_meets hArranged.inOrder hF hE hMeets
    rcases exists_rotation_of_performAll?_eq_splice hArranged
        (not_descending_of_meets hGiven hMeets) hSplice with
      ⟨f', hF', e', hE', hMeets', before, removed, after, front,
        rotated, hText, hStart, hStop, hRotated⟩
    exact hRotation f' hF' e' hE' hMeets' before removed after
      front rotated hText hStart hStop hRotated
  · intro hMeets
    exact performAll?_eq_splice hArranged.fits hArranged.apart hMeets

end Meeting

end Edit

end Nullary
