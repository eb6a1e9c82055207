import Nullary.Proofs.Source.Splice

/-
  When edits that are applied one after the other all fit.

  Edits that stand apart fit the text that they were made
  for.  Only a removal that starts where something was
  inserted finds another text there: what was inserted and
  then its own piece.  It fits if these can be cut after as
  many bytes as the piece has.

  Main declarations:
    * `Edit.taken`
    * `Edit.Cuts`
    * `Edit.Stacked`
    * `Edit.Stacked.isSome_iff`
    * `Edit.performAll?_isSome_iff`
-/

namespace Nullary

namespace Edit

open SourceText

variable {text : List Char}
variable {edits : List Edit}
variable {e : Edit}

------------------------------------------------------------
-- What an Edit Takes
------------------------------------------------------------

/- The piece of a text in the range of an edit. -/
def taken
    (text : List Char)
    (e : Edit) : List Char :=
  ((cut? e.start text).bind fun pieces =>
    (cut? (e.stop - e.start) pieces.2).map (·.1)).getD []

theorem taken_eq
    {before replaced : List Char}
    (hStart : byteSize before = e.start)
    (hStop : e.stop = e.start + byteSize replaced)
    (after : List Char) :
    taken (before ++ replaced ++ after) e = replaced := by
  have hSize : e.stop - e.start = byteSize replaced := by
    omega
  rw [taken, hSize, ← hStart, List.append_assoc, cut?_append,
    Option.bind_some, cut?_append]
  rfl

/-
  What follows the range of an edit does not change what it
  takes.
-/
theorem Fits.taken_append
    (hFits : e.Fits text)
    (tail : List Char) :
    taken (text ++ tail) e = taken text e := by
  rcases hFits.pieces with
    ⟨before, replaced, after, rfl, hStart, hStop⟩
  rw [taken_eq hStart hStop, List.append_assoc _ after tail,
    taken_eq hStart hStop]

/- An insertion takes nothing. -/
theorem Fits.taken_eq_nil
    (hFits : e.Fits text)
    (hEmpty : e.start = e.stop) :
    taken text e = [] := by
  rcases hFits.pieces with
    ⟨before, replaced, after, rfl, hStart, hStop⟩
  rw [taken_eq hStart hStop]
  apply byteSize_eq_zero_iff.mp
  omega

/-
  What was inserted and the piece behind it can be cut after
  as many bytes as the piece has.
-/
def Cuts
    (inserted : List Char)
    (piece : List Char) : Prop :=
  (cut? (byteSize piece) (inserted ++ piece)).isSome = true

instance
    (inserted piece : List Char) :
    Decidable (Cuts inserted piece) :=
  inferInstanceAs (Decidable (_ = true))

/- Of nothing there is nothing to cut. -/
theorem cuts_nil_right
    (inserted : List Char) :
    Cuts inserted [] := by
  have hCut : cut? 0 inserted = some ([], inserted) :=
    cut?_append [] inserted
  simp [Cuts, hCut]

------------------------------------------------------------
-- Edits on a Stack
------------------------------------------------------------

/-
  Edits from the last one back, of which those that insert
  come before the one that removes from the same offset on.
-/
structure Stacked
    (text : List Char)
    (edits : List Edit) : Prop where
  fits : ∀ e ∈ edits, e.Fits text
  order :
    edits.Pairwise fun e f =>
      f.start ≤ e.start ∧ Apart e f ∧
        (e.start < e.stop → f.start < e.start)
  removals :
    ∀ e ∈ edits, e.start < e.stop → e.replacement = []

namespace Stacked

variable {e : Edit}
variable {edits : List Edit}
variable {text front back inserted : List Char}

theorem tail
    (hStacked : Stacked text (e :: edits)) :
    Stacked text edits where
  fits f hMem := hStacked.fits f (List.mem_cons_of_mem e hMem)
  order := (List.pairwise_cons.mp hStacked.order).2
  removals f hMem :=
    hStacked.removals f (List.mem_cons_of_mem e hMem)

/- The edits that stop in the first part of a text stand on it. -/
theorem of_append
    (hStacked : Stacked (front ++ back) edits)
    (hStops : ∀ f ∈ edits, f.stop ≤ byteSize front) :
    Stacked front edits where
  fits f hMem :=
    (hStacked.fits f hMem).of_append (hStops f hMem)
  order := hStacked.order
  removals := hStacked.removals

/- They fit the whole text if they fit its first part. -/
theorem isSome_append
    (hStacked : Stacked (front ++ back) edits)
    (hStops : ∀ f ∈ edits, f.stop ≤ byteSize front)
    (rest : List Char) :
    (edits.foldlM perform? (front ++ rest)).isSome =
      (edits.foldlM perform? front).isSome := by
  have hOrder :
      edits.Pairwise
        fun e f => f.start ≤ e.start ∧ Apart e f :=
    hStacked.order.imp fun hPair => ⟨hPair.1, hPair.2.1⟩
  rw [foldlM_perform?_append hOrder hStops, Option.isSome_map]

/-
  After the first edit removes, the others stop before its
  start.
-/
theorem stop_le_of_removal
    (hStacked : Stacked text (e :: edits))
    (hRange : e.start < e.stop)
    {f : Edit}
    (hMem : f ∈ edits) :
    f.stop ≤ e.start := by
  rcases (List.pairwise_cons.mp hStacked.order).1 f hMem with
    ⟨_, hApart, hBelow⟩
  have hStart := hBelow hRange
  rcases hApart with hStop | hStop
  · omega
  · exact hStop

/-
  The edits `edits` fit a text in which `inserted` was put at
  the end of `front`.  Those that start there take what is
  behind it.
-/
def Fit
    (edits : List Edit)
    (front inserted back : List Char) : Prop :=
  ∀ f ∈ edits,
    Cuts
      (Edit.inserted edits f.start ++
        if f.start = byteSize front then inserted else [])
      (taken (front ++ back) f)

/- What is known of edits on a text, whatever was inserted. -/
def Decided
    (edits : List Edit) : Prop :=
  ∀ front inserted back : List Char,
    Stacked (front ++ back) edits →
    (∀ f ∈ edits,
      f.start = byteSize front ∨ f.stop ≤ byteSize front) →
    ((edits.foldlM perform?
        (front ++ (inserted ++ back))).isSome = true ↔
      Fit edits front inserted back)

/- An insertion at the end of `front` adds to what stands there. -/
theorem Decided.insertion
    (hRest : Decided edits)
    (hStacked : Stacked (front ++ back) (e :: edits))
    (hTop :
      ∀ f ∈ edits,
        f.start = byteSize front ∨ f.stop ≤ byteSize front)
    (hStart : e.start = byteSize front)
    (hStop : e.stop = e.start) :
    ((e :: edits).foldlM perform?
        (front ++ (inserted ++ back))).isSome = true ↔
      Fit (e :: edits) front inserted back := by
  have hEdit :
      e.perform? (front ++ (inserted ++ back)) =
        some (front ++ ((e.replacement ++ inserted) ++ back)) :=
    perform?_eq_some_iff.mpr
      ⟨front, [], inserted ++ back, by simp, hStart.symm,
        by simpa using hStop, by simp⟩
  have hTaken : taken (front ++ back) e = [] := by
    have hPiece : taken (front ++ [] ++ back) e = [] :=
      taken_eq hStart.symm (by simpa using hStop) back
    rwa [List.append_nil] at hPiece
  rw [List.foldlM_cons, hEdit, Option.bind_eq_bind,
    Option.bind_some, hRest _ _ _ hStacked.tail hTop]
  unfold Fit
  rw [List.forall_mem_cons, hTaken]
  have hSame :
      ∀ f : Edit,
        (Edit.inserted (e :: edits) f.start ++
          if f.start = byteSize front then inserted else []) =
        Edit.inserted edits f.start ++
          if f.start = byteSize front
            then e.replacement ++ inserted else [] := by
    intro f
    by_cases hAt : f.start = byteSize front
    · rw [inserted_cons, if_pos hAt, if_pos hAt,
        if_pos (hStart.trans hAt.symm), List.append_assoc]
    · rw [inserted_cons, if_neg hAt, if_neg hAt,
        if_neg (fun hEq => hAt (hEq.symm.trans hStart)),
        List.append_nil]
  simp only [hSame, cuts_nil_right, true_and]

/-
  A removal at the end of `front` takes its bytes from what
  was inserted there and then from its own piece.
-/
theorem perform?_removal
    {piece after : List Char}
    (hStart : byteSize front = e.start)
    (hStop : e.stop = e.start + byteSize piece)
    (hEmpty : e.replacement = []) :
    e.perform? (front ++ (inserted ++ (piece ++ after))) =
      (cut? (byteSize piece) (inserted ++ piece)).map
        fun pieces => front ++ (pieces.2 ++ after) := by
  have hOrder : e.start ≤ e.stop := by
    omega
  have hSize : e.stop - e.start = byteSize piece := by
    omega
  have hBound : byteSize piece ≤ byteSize (inserted ++ piece) := by
    rw [byteSize_append]
    omega
  rw [perform?, if_pos hOrder, hSize, ← hStart, cut?_append,
    hEmpty]
  simp only [Option.bind_eq_bind, Option.bind_some,
    List.append_nil]
  rw [← List.append_assoc, cut?_append_of_le hBound]
  cases cut? (byteSize piece) (inserted ++ piece) with
  | none => rfl
  | some pieces => rfl

/-
  The removal fits if what was inserted can be cut.  The other
  edits stop before it, and see neither.
-/
theorem fit_removal
    {piece after : List Char}
    (hStacked : Stacked (front ++ (piece ++ after)) (e :: edits))
    (hStart : byteSize front = e.start)
    (hStop : e.stop = e.start + byteSize piece)
    (hRange : e.start < e.stop) :
    Fit (e :: edits) front inserted (piece ++ after) ↔
      Cuts inserted piece ∧ Fit edits front [] [] := by
  have hBelow : ∀ f ∈ edits, f.start ≠ byteSize front := by
    intro f hMem
    have hPair := (List.pairwise_cons.mp hStacked.order).1 f hMem
    have hLess := hPair.2.2 hRange
    omega
  have hHere :
      Edit.inserted (e :: edits) e.start = [] := by
    rw [inserted_cons, if_pos rfl,
      hStacked.removals e List.mem_cons_self hRange,
      List.append_nil]
    apply inserted_eq_nil
    intro f hMem
    rw [← hStart]
    exact hBelow f hMem
  have hTaken : taken (front ++ (piece ++ after)) e = piece := by
    rw [← List.append_assoc]
    exact taken_eq hStart hStop after
  have hOthers :
      ∀ f ∈ edits,
        (Cuts
            (Edit.inserted (e :: edits) f.start ++
              if f.start = byteSize front
                then inserted else [])
            (taken (front ++ (piece ++ after)) f) ↔
          Cuts
            (Edit.inserted edits f.start ++
              if f.start = byteSize front then [] else [])
            (taken (front ++ []) f)) := by
    intro f hMem
    have hBefore : f.stop ≤ byteSize front := by
      rw [hStart]
      exact hStacked.stop_le_of_removal hRange hMem
    have hFits :=
      (hStacked.tail.fits f hMem).of_append hBefore
    rw [inserted_cons, if_neg (hBelow f hMem),
      if_neg (hBelow f hMem), if_neg (fun hEq =>
        hBelow f hMem (hEq.symm.trans hStart.symm)),
      hFits.taken_append, hFits.taken_append,
      List.append_nil]
  unfold Fit
  rw [List.forall_mem_cons, hHere, hTaken, if_pos hStart.symm,
    List.nil_append]
  exact and_congr_right fun _ => forall₂_congr hOthers

theorem Decided.removal
    (hRest : Decided edits)
    (hStacked : Stacked (front ++ back) (e :: edits))
    (hStart : e.start = byteSize front)
    (hRange : e.start < e.stop) :
    ((e :: edits).foldlM perform?
        (front ++ (inserted ++ back))).isSome = true ↔
      Fit (e :: edits) front inserted back := by
  have hStops : ∀ f ∈ edits, f.stop ≤ byteSize front := by
    intro f hMem
    rw [← hStart]
    exact hStacked.stop_le_of_removal hRange hMem
  rcases (hStacked.fits e List.mem_cons_self).pieces with
    ⟨before, piece, after, hText, hBefore, hStop⟩
  rw [List.append_assoc] at hText
  rcases append_inj_of_byteSize_eq hText
      (hStart.symm.trans hBefore.symm) with ⟨rfl, rfl⟩
  have hBottom : Stacked (front ++ []) edits := by
    rw [List.append_nil]
    exact hStacked.tail.of_append hStops
  rw [fit_removal hStacked hBefore hStop hRange,
    ← hRest front [] [] hBottom
      (fun f hMem => Or.inr (hStops f hMem)),
    List.foldlM_cons, perform?_removal hBefore hStop
      (hStacked.removals e List.mem_cons_self hRange)]
  cases hCut : cut? (byteSize piece) (inserted ++ piece) with
  | none => simp [Cuts, hCut]
  | some pieces =>
      rw [Option.map_some, Option.bind_eq_bind,
        Option.bind_some, hStacked.tail.isSome_append hStops]
      simp [Cuts, hCut]

/- The first edit starts at the end of `front`. -/
theorem Decided.first
    (hRest : Decided edits)
    (hStacked : Stacked (front ++ back) (e :: edits))
    (hStart : e.start = byteSize front) :
    ((e :: edits).foldlM perform?
        (front ++ (inserted ++ back))).isSome = true ↔
      Fit (e :: edits) front inserted back := by
  have hBounds :=
    (hStacked.fits e List.mem_cons_self).start_le_stop
  rcases Nat.eq_or_lt_of_le hBounds with hEmpty | hRange
  · refine hRest.insertion hStacked ?_ hStart hEmpty.symm
    intro f hMem
    rcases (List.pairwise_cons.mp hStacked.order).1 f hMem with
      ⟨hBelow, hStop | hStop, _⟩
    · exact Or.inl (by omega)
    · exact Or.inr (by omega)
  · exact hRest.removal hStacked hStart hRange

theorem decided
    (edits : List Edit) :
    Decided edits := by
  induction edits with
  | nil =>
      intro front inserted back _ _
      simp [Fit]
  | cons e edits ih =>
      intro front inserted back hStacked hTop
      by_cases hStart : e.start = byteSize front
      · exact ih.first hStacked hStart
      · -- All edits stop in `front`, which the first one splits.
        have hBelow :
            ∀ f ∈ e :: edits, f.start ≠ byteSize front := by
          intro f hMem
          rcases List.mem_cons.mp hMem with rfl | hLater
          · exact hStart
          · have hPair :=
              (List.pairwise_cons.mp hStacked.order).1 f hLater
            have hStop :=
              (hTop e List.mem_cons_self).resolve_left hStart
            have hBounds :=
              (hStacked.fits e List.mem_cons_self).start_le_stop
            omega
        have hStops :
            ∀ f ∈ e :: edits, f.stop ≤ byteSize front :=
          fun f hMem =>
            (hTop f hMem).resolve_left (hBelow f hMem)
        have hInside := hStacked.of_append hStops
        rcases (hInside.fits e List.mem_cons_self).pieces with
          ⟨before, piece, after, rfl, hBefore, _⟩
        rw [hStacked.isSome_append hStops]
        rw [List.append_assoc] at hInside
        have hFirst :
            ((e :: edits).foldlM perform?
                (before ++ ([] ++ (piece ++ after)))).isSome =
                  true ↔
              Fit (e :: edits) before [] (piece ++ after) :=
          ih.first hInside hBefore.symm
        rw [List.nil_append, ← List.append_assoc] at hFirst
        rw [hFirst]
        unfold Fit
        refine forall₂_congr fun f hMem => ?_
        rw [if_neg (hBelow f hMem), ite_self,
          ← List.append_assoc,
          ((hStacked.fits f hMem).of_append
            (hStops f hMem)).taken_append]

/- Edits on a stack all fit if each can be cut off. -/
theorem isSome_iff
    (hStacked : Stacked text edits) :
    (edits.foldlM perform? text).isSome = true ↔
      ∀ f ∈ edits,
        Cuts (Edit.inserted edits f.start) (taken text f) := by
  have hEmpty : Stacked (text ++ []) edits := by
    rwa [List.append_nil]
  have hAll :=
    decided edits text [] [] hEmpty fun f hMem =>
      Or.inr (hStacked.fits f hMem).stop_le_byteSize
  unfold Fit at hAll
  simpa only [List.append_nil, ite_self] using hAll

end Stacked

------------------------------------------------------------
-- All Edits
------------------------------------------------------------

/- What holds among edits with one start holds in a whole list. -/
theorem pairwise_of_filter_start
    {R : Edit → Edit → Prop}
    (hStarts :
      ∀ offset,
        (edits.filter (·.start == offset)).Pairwise R) :
    edits.Pairwise fun e f => f.start = e.start → R e f := by
  induction edits with
  | nil => exact List.Pairwise.nil
  | cons e edits ih =>
      refine List.pairwise_cons.mpr ⟨?_, ih ?_⟩
      · intro f hMem hStart
        have hHere := hStarts e.start
        rw [List.filter_cons_of_pos (by simp),
          List.pairwise_cons] at hHere
        exact hHere.1 f
          (List.mem_filter.mpr ⟨hMem, by simpa using hStart⟩)
      · intro offset
        exact (hStarts offset).sublist
          ((List.sublist_cons_self e edits).filter _)

/- Edits in order, sorted, stand on a stack. -/
theorem stacked_sortByStart
    (hArranged : Arranged text edits) :
    Stacked text (sortByStart edits) := by
  have hSort := sortOf_sortByStart edits
  have hMem : ∀ e, e ∈ sortByStart edits ↔ e ∈ edits :=
    fun e => hSort.perm.mem_iff
  -- Among edits with one start, no removal comes before another edit.
  have hLast :
      (sortByStart edits).Pairwise fun e f =>
        f.start = e.start → ¬ e.start < e.stop := by
    apply pairwise_of_filter_start
    intro offset
    rw [hSort.stable]
    refine (hArranged.inOrder.filter _).imp_of_mem ?_
    intro e f hE hF hPair hRange
    rcases List.mem_filter.mp hE with ⟨hE, hAt⟩
    rcases List.mem_filter.mp hF with ⟨hF, hAt'⟩
    have hStart : e.start = f.start := by
      rw [beq_iff_eq.mp hAt, beq_iff_eq.mp hAt']
    have hBounds := (hArranged.fits f hF).start_le_stop
    rcases Nat.eq_or_lt_of_le hBounds with hEmpty | hRange'
    · have hStop := hPair.removal_le_insertion hRange hEmpty
      omega
    · rcases hPair.apart with hStop | hStop
      · omega
      · omega
  refine ⟨?_, ?_, ?_⟩
  · intro e hE
    exact hArranged.fits e ((hMem e).mp hE)
  · have hBoth :=
      (hSort.starts.and (hSort.apart hArranged.apart)).and hLast
    refine hBoth.imp ?_
    rintro e f ⟨⟨hStart, hPair⟩, hRange⟩
    refine ⟨hStart, hPair, ?_⟩
    intro hRemoves
    by_contra hNot
    exact hRange (by omega) hRemoves
  · intro e hE
    exact hArranged.removals e ((hMem e).mp hE)

/-
  Edits in order can be applied in turn exactly if every
  piece that is taken can be cut off behind what is inserted
  at its start.
-/
theorem performAll?_isSome_iff
    (hArranged : Arranged text edits) :
    (performAll? text edits).isSome = true ↔
      ∀ e ∈ edits,
        Cuts (inserted edits e.start) (taken text e) := by
  have hSort := sortOf_sortByStart edits
  have hStacked := stacked_sortByStart hArranged
  rw [performAll?, hStacked.isSome_iff]
  simp only [hSort.inserted_eq, hSort.perm.mem_iff]

end Edit

end Nullary
