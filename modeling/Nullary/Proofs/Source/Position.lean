import Mathlib.Data.List.Induction
import Mathlib.Data.List.TakeWhile
import Nullary.Source.Text

/-
  Offsets and positions of one text.

  The position that is reached by reading a text up to an
  offset leads back to that offset.  In the same text after
  one more character on its first line, the positions of the
  first line lead one character too far to the left, and all
  others to where they belong.

  Main declarations:
    * `SourceText.positionAt`
    * `SourceText.lineTail`
    * `SourceText.offset_positionAt`
    * `SourceText.offset_cons_positionAt`
    * `SourceText.positionAt_append_newline`
-/

namespace Nullary

------------------------------------------------------------
-- The Position After a Text
------------------------------------------------------------

namespace Position

theorem after_append
    (p : Position)
    (first second : List Char) :
    p.after (first ++ second) = (p.after first).after second :=
  List.foldl_append

theorem after_singleton
    (p : Position)
    (c : Char) :
    p.after [c] = p.next c :=
  rfl

end Position

namespace SourceText

variable {text : List Char}

/- The position of an offset. -/
def positionAt
    (text : List Char)
    (offset : Nat) : Position :=
  Position.first.after (text.take offset)

theorem positionAt_add
    (text : List Char)
    (offset : Nat)
    (count : Nat) :
    positionAt text (offset + count) =
      (positionAt text offset).after
        ((text.drop offset).take count) := by
  unfold positionAt
  rw [List.take_add, Position.after_append]

/- Past its end all offsets of a text have one position. -/
theorem positionAt_min
    (text : List Char)
    (offset : Nat) :
    positionAt text (min offset text.length) =
      positionAt text offset := by
  unfold positionAt
  rw [← List.take_eq_take_min]

------------------------------------------------------------
-- The Longest Start of a Text
------------------------------------------------------------

/- The characters that are taken pass the test. -/
theorem exists_getElem?_of_lt_takeWhile
    {test : Char → Bool}
    {i : Nat}
    (hIndex : i < (text.takeWhile test).length) :
    ∃ c, text[i]? = some c ∧ test c = true := by
  rcases List.takeWhile_prefix (p := test) (l := text) with
    ⟨rest, hRest⟩
  refine ⟨(text.takeWhile test)[i], ?_,
    List.mem_takeWhile_imp (List.getElem_mem hIndex)⟩
  nth_rewrite 1 [← hRest]
  rw [List.getElem?_append_left hIndex,
    List.getElem?_eq_getElem hIndex]

/- The character after them does not. -/
theorem not_of_getElem?_length_takeWhile
    {test : Char → Bool}
    {c : Char}
    (hChar : text[(text.takeWhile test).length]? = some c) :
    test c = false := by
  induction text with
  | nil => simp at hChar
  | cons d text ih =>
      by_cases hTest : test d = true
      · rw [List.takeWhile_cons_of_pos hTest] at hChar
        exact ih (by simpa using hChar)
      · rw [List.takeWhile_cons_of_neg hTest] at hChar
        have hSame : d = c := by simpa using hChar
        subst hSame
        simpa using hTest

------------------------------------------------------------
-- Lines
------------------------------------------------------------

/- What follows the last line feed of a text. -/
def lineTail
    (text : List Char) : List Char :=
  (text.reverse.takeWhile (· != '\n')).reverse

theorem length_lineTail
    (text : List Char) :
    (lineTail text).length =
      (text.reverse.takeWhile (· != '\n')).length := by
  simp [lineTail]

theorem length_lineTail_le
    (text : List Char) :
    (lineTail text).length ≤ text.length := by
  have hPrefix :
      text.reverse.takeWhile (· != '\n') <+: text.reverse :=
    List.takeWhile_prefix _
  simpa [length_lineTail] using hPrefix.length_le

/- A text without line feeds is its own last line. -/
theorem lineTail_eq_self
    (hNone : '\n' ∉ text) :
    lineTail text = text := by
  have hAll :
      text.reverse.takeWhile (· != '\n') = text.reverse := by
    rw [List.takeWhile_eq_self_iff]
    intro c hMem
    have hText : c ∈ text := by simpa using hMem
    have hNe : c ≠ '\n' := fun hEq => hNone (hEq ▸ hText)
    simpa using hNe
  simp [lineTail, hAll]

/- What stands before a line feed is not on the last line. -/
theorem lineTail_append_of_mem
    (before : List Char)
    (hMem : '\n' ∈ text) :
    lineTail (before ++ text) = lineTail text := by
  have hShort :
      text.reverse.takeWhile (· != '\n') ≠ text.reverse := by
    intro hEq
    have hAll := List.takeWhile_eq_self_iff.mp hEq
    have hFalse := hAll '\n' (by simpa using hMem)
    simp at hFalse
  have hLength :
      (text.reverse.takeWhile (· != '\n')).length ≠
        text.reverse.length := by
    intro hEq
    exact hShort
      ((List.takeWhile_prefix _).eq_of_length hEq)
  simp only [lineTail, List.reverse_append, List.takeWhile_append,
    if_neg hLength]

/- What has no line feed lengthens the last line. -/
theorem lineTail_append_of_not_mem
    (before : List Char)
    (hNone : '\n' ∉ text) :
    lineTail (before ++ text) = lineTail before ++ text := by
  have hAll := lineTail_eq_self hNone
  have hLength :
      (text.reverse.takeWhile (· != '\n')).length =
        text.reverse.length := by
    rw [← length_lineTail, hAll, List.length_reverse]
  simp [lineTail, List.takeWhile_append, hLength]

theorem lineTail_newline_cons
    (hNone : '\n' ∉ text) :
    lineTail ('\n' :: text) = text :=
  lineTail_append_of_not_mem ['\n'] hNone

/-
  Lines are counted by their line feeds and columns by the
  characters of the last line.
-/
theorem after_first
    (text : List Char) :
    Position.first.after text =
      ⟨text.count '\n' + 1, (lineTail text).length⟩ := by
  induction text using List.reverseRecOn with
  | nil => rfl
  | append_singleton text c ih =>
      rw [Position.after_append, ih, Position.after_singleton]
      by_cases hNewline : c = '\n'
      · subst hNewline
        simp [Position.next, lineTail]
      · simp [Position.next, hNewline, lineTail]

/-
  Without its first lines a text starts on the line that
  follows them.
-/
theorem dropLines_append
    (text : List Char)
    (rest : List Char) :
    dropLines (text.count '\n') (text ++ rest) =
      some (lineTail text ++ rest) := by
  induction text with
  | nil => simp [dropLines, lineTail]
  | cons c text ih =>
      by_cases hMem : '\n' ∈ text
      · -- The last line starts inside of `text`.
        have hTail : lineTail (c :: text) = lineTail text :=
          lineTail_append_of_mem [c] hMem
        have hPositive : 0 < text.count '\n' :=
          List.count_pos_iff.mpr hMem
        rw [hTail, ← ih]
        by_cases hNewline : c = '\n'
        · subst hNewline
          simp [dropLines]
        · rcases Nat.exists_eq_succ_of_ne_zero
            (Nat.pos_iff_ne_zero.mp hPositive) with
            ⟨count, hCount⟩
          have hSame : (c :: text).count '\n' = count + 1 := by
            rw [List.count_cons_of_ne hNewline, hCount]
          rw [hSame, hCount, List.cons_append]
          simp [dropLines, hNewline]
      · have hZero : text.count '\n' = 0 :=
          List.count_eq_zero.mpr hMem
        by_cases hNewline : c = '\n'
        · subst hNewline
          rw [lineTail_newline_cons hMem]
          simp [dropLines, hZero]
        · have hNone : '\n' ∉ c :: text := by
            simpa [hMem] using fun hEq => hNewline hEq.symm
          rw [lineTail_eq_self hNone,
            List.count_eq_zero.mpr hNone]
          rfl

------------------------------------------------------------
-- Offsets of Positions
------------------------------------------------------------

/- A position leads to the offset that it was reached at. -/
theorem offset_positionAt
    {offset : Nat}
    (hOffset : offset ≤ text.length) :
    SourceText.offset text (positionAt text offset) =
      offset := by
  have hDrop :=
    dropLines_append (text.take offset) (text.drop offset)
  rw [List.take_append_drop] at hDrop
  have hTail : (lineTail (text.take offset)).length ≤ offset :=
    (length_lineTail_le _).trans (List.length_take_le _ _)
  unfold positionAt
  rw [after_first]
  simp only [SourceText.offset, fromLine?, Nat.add_sub_cancel,
    hDrop, List.length_append, List.length_drop]
  omega

/-
  After one more character on the first line, positions of
  that line lead to the character before the one they were
  taken at.
-/
theorem offset_cons_positionAt
    {c : Char}
    (hChar : c ≠ '\n')
    {offset : Nat}
    (hOffset : offset ≤ text.length) :
    SourceText.offset (c :: text) (positionAt text offset) =
      if '\n' ∈ text.take offset then offset + 1 else offset := by
  unfold positionAt
  rw [after_first]
  by_cases hMem : '\n' ∈ text.take offset
  · have hPositive : 0 < (text.take offset).count '\n' :=
      List.count_pos_iff.mpr hMem
    have hCount :
        (c :: text.take offset).count '\n' =
          (text.take offset).count '\n' :=
      List.count_cons_of_ne hChar
    have hDrop :=
      dropLines_append (c :: text.take offset)
        (text.drop offset)
    have hLine :
        lineTail (c :: text.take offset) =
          lineTail (text.take offset) :=
      lineTail_append_of_mem [c] hMem
    rw [List.cons_append, List.take_append_drop, hCount,
      hLine] at hDrop
    have hTail :
        (lineTail (text.take offset)).length ≤ offset :=
      (length_lineTail_le _).trans (List.length_take_le _ _)
    simp only [SourceText.offset, fromLine?,
      Nat.add_sub_cancel, hDrop, if_pos hMem,
      List.length_append, List.length_drop, List.length_cons]
    omega
  · have hZero : (text.take offset).count '\n' = 0 :=
      List.count_eq_zero.mpr hMem
    rw [lineTail_eq_self hMem, hZero]
    simp only [SourceText.offset, fromLine?, dropLines,
      if_neg hMem, List.length_take, List.length_cons,
      Nat.zero_add, Nat.sub_self]
    omega

/-
  After a line feed it makes no difference what the line
  before it held.
-/
theorem positionAt_append_newline
    {line : List Char}
    (hLine : '\n' ∉ line)
    (text : List Char) :
    positionAt (line ++ '\n' :: text) (line.length + 1) =
      Position.first.after ['\n'] := by
  have hTake :
      (line ++ '\n' :: text).take (line.length + 1) =
        line ++ ['\n'] := by
    simp [List.take_append, List.take_of_length_le]
  unfold positionAt
  rw [hTake, after_first]
  have hTail : lineTail (line ++ ['\n']) = [] := by
    rw [lineTail_append_of_mem line (by simp)]
    rfl
  have hCount : (line ++ ['\n']).count '\n' = 1 := by
    simp [List.count_eq_zero.mpr hLine]
  rw [hTail, hCount]
  rfl

end SourceText

end Nullary
