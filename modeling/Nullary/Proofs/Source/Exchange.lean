import Mathlib.Data.List.Nodup
import Nullary.Proofs.Source.Splice

/-
  Edits that stand apart and start at different offsets.

  `Edit.Exchanged` follows the text from one edit to the next:
  what stands between edits is kept, and the piece in the
  range of an edit is exchanged for its replacement.  Edits
  that are applied in turn come to the same, in whatever order
  they are given.

  Main declarations:
    * `Edit.Exchanged`
    * `Edit.exchanged_splice`
    * `Edit.sortByStart_eq_of_perm`
    * `Edit.performAllAfter?_exchanges`
-/

namespace Nullary

namespace Edit

open SourceText

variable {e : Edit}
variable {edits others : List Edit}
variable {offset : Nat}
variable {text : List Char}

------------------------------------------------------------
-- Exchanged Pieces
------------------------------------------------------------

/-
  A text that starts at an offset, edits in the order in which
  they stand in it, and the text with every piece in the range
  of an edit exchanged for the replacement.
-/
inductive Exchanged :
    Nat → List Char → List Edit → List Char → Prop where
  | rest
      (offset : Nat)
      (text : List Char) :
      Exchanged offset text [] text
  | edit
      {offset : Nat}
      {e : Edit}
      {edits : List Edit}
      {kept replaced rest edited : List Char}
      (hStart : e.start = offset + byteSize kept)
      (hStop : e.stop = e.start + byteSize replaced)
      (hRest : Exchanged e.stop rest edits edited) :
      Exchanged offset (kept ++ replaced ++ rest) (e :: edits)
        (kept ++ e.replacement ++ edited)

/- One more edit, after all others. -/
theorem Exchanged.snoc
    {before replaced edited : List Char}
    (hExchanged : Exchanged offset before edits edited)
    (after : List Char)
    (hStart : e.start = offset + byteSize before)
    (hStop : e.stop = e.start + byteSize replaced) :
    Exchanged offset (before ++ replaced ++ after) (edits ++ [e])
      (edited ++ e.replacement ++ after) := by
  induction hExchanged with
  | rest offset before => exact .edit hStart hStop (.rest _ after)
  | edit hStart' hStop' _ ih =>
      simp only [byteSize_append] at hStart
      have hLast := Exchanged.edit hStart' hStop' (ih (by omega))
      simpa only [List.append_assoc, List.cons_append] using hLast

/-
  Edits from the last one back, made all at once, exchange the
  pieces in their ranges.
-/
theorem exchanged_splice
    (hFits : ∀ e ∈ edits, e.Fits text)
    (hOrder : Descending edits) :
    Exchanged 0 text edits.reverse (splice text edits) := by
  induction edits generalizing text with
  | nil =>
      have hSame : splice text [] = text := by
        simp [splice, spliceChars_nil, inserted]
      rw [hSame]
      exact .rest 0 text
  | cons e edits ih =>
      rcases hOrder.pieces hFits with
        ⟨before, replaced, after, rfl, hStart, hStop, hInside,
          hSplice⟩
      rw [hSplice, List.reverse_cons]
      exact (ih hInside hOrder.of_cons).snoc after (by omega) hStop

------------------------------------------------------------
-- Edits in Any Order
------------------------------------------------------------

/- Edits that start at different offsets do not meet. -/
theorem not_meets_of_nodup
    (hStarts : (edits.map (·.start)).Nodup) :
    ∀ e ∈ edits, ∀ f ∈ edits, ¬ Meets e f := by
  rintro e hE f hF ⟨hEmpty, hRange, hStart⟩
  cases List.inj_on_of_nodup_map hStarts hE hF hStart
  omega

/- Nor does it matter to their sorting how they are given. -/
theorem sortByStart_eq_of_perm
    (hStarts : (edits.map (·.start)).Nodup)
    (hPerm : others.Perm edits) :
    sortByStart others = sortByStart edits := by
  have hSort := sortOf_sortByStart edits
  have hOther := sortOf_sortByStart others
  refine List.Perm.eq_of_pairwise ?_ hOther.starts hSort.starts
    ((hOther.perm.trans hPerm).trans hSort.perm.symm)
  intro e f hE hF hLe hGe
  have hE := (hOther.perm.trans hPerm).mem_iff.mp hE
  have hF := hSort.perm.mem_iff.mp hF
  exact List.inj_on_of_nodup_map hStarts hE hF
    (Nat.le_antisymm hGe hLe)

/-
  Edits that fit a text, stand apart and start at different
  offsets can be applied in turn, behind any lead and in any
  order.  They exchange the pieces in their ranges and keep
  what stands between.
-/
theorem performAllAfter?_exchanges
    (hFits : ∀ e ∈ edits, e.Fits text)
    (hApart : edits.Pairwise Apart)
    (hStarts : (edits.map (·.start)).Nodup) :
    (∃ ordered,
      ordered.Perm edits ∧
        Exchanged 0 text ordered (splice text edits)) ∧
      ∀ lead others, others.Perm edits →
        performAllAfter? lead text others =
          some (lead ++ splice text edits) := by
  have hSort := sortOf_sortByStart edits
  have hMeets := not_meets_of_nodup hStarts
  constructor
  · refine ⟨(sortByStart edits).reverse,
      (List.reverse_perm _).trans hSort.perm, ?_⟩
    rw [← hSort.splice_eq]
    refine exchanged_splice ?_
      (descending_sortByStart hFits hApart hMeets)
    intro e hMem
    exact hFits e (hSort.perm.mem_iff.mp hMem)
  · intro lead others hPerm
    have hSame :
        performAll? text others = performAll? text edits := by
      rw [performAll?, performAll?,
        sortByStart_eq_of_perm hStarts hPerm]
    rw [performAllAfter?_eq, hSame,
      performAll?_eq_splice hFits hApart hMeets, Option.map_some]

/-
  A removal that touches a replacement and an insertion, with
  one more insertion at the end of the text.
-/
theorem performAllAfter?_exchanges_touching :
    ∃ edits : List Edit,
      edits =
          [insertion 5 ['!'], removal 1 3, insertion 3 ['x', 'y'],
            ⟨0, 1, ['l', 'o', 'n', 'g']⟩] ∧
        (∀ e ∈ edits, e.Fits ['a', 'é', ' ', 'b']) ∧
        edits.Pairwise Apart ∧
        (edits.map (·.start)).Nodup ∧
        performAllAfter? ['\uFEFF'] ['a', 'é', ' ', 'b']
            edits.reverse =
          some ['\uFEFF', 'l', 'o', 'n', 'g', 'x', 'y', ' ', 'b',
            '!'] := by
  refine ⟨_, rfl, ?_⟩
  generalize hEdits : [insertion 5 ['!'], _, _, _] = edits
  have hFits : ∀ e ∈ edits, e.Fits ['a', 'é', ' ', 'b'] := by
    rw [← hEdits]
    simp only [List.forall_mem_cons, List.not_mem_nil,
      false_implies, implies_true, and_true]
    exact ⟨⟨4, 4, by decide⟩, ⟨1, 2, by decide⟩, ⟨2, 2, by decide⟩,
      ⟨0, 1, by decide⟩⟩
  have hApart : edits.Pairwise Apart := by
    simp [← hEdits, Apart, insertion, removal]
  have hStarts : (edits.map (·.start)).Nodup := by
    rw [← hEdits]
    decide
  refine ⟨hFits, hApart, hStarts, ?_⟩
  rw [(performAllAfter?_exchanges hFits hApart hStarts).2 _ _
    (List.reverse_perm edits), ← hEdits]
  decide

end Edit

end Nullary
