import Mathlib.Data.Set.Function
import Nullary.Proofs.Source.Position
import Nullary.Proofs.Source.Size

/-
  Lines and columns against offsets in bytes.

  On the positions at which a text can be cut, the offset in
  bytes grows with the reading order and misses no boundary.
  `lookUp?` and `indent?` find offsets and indents in a table
  of the bytes at which lines start, and cut pieces out of the
  text that need not be there.  They always are.

  Main declarations:
    * `SourceText.Boundary`
    * `SourceText.InLine`
    * `SourceText.lookUp?_eq`
    * `SourceText.byteOffset_numbering`
-/

namespace Nullary

------------------------------------------------------------
-- Reading Order
------------------------------------------------------------

namespace Position

variable {p q r : Position}

theorem before_iff :
    p.before q = true ↔
      p.line < q.line ∨ p.line = q.line ∧ p.column < q.column := by
  simp [before]

/- A text leads to a later position. -/
theorem before_after
    {text : List Char}
    (hText : text ≠ []) :
    p.before (p.after text) = true := by
  induction text generalizing p with
  | nil => exact absurd rfl hText
  | cons c text ih =>
      have hNext : p.before (p.next c) = true := by
        rw [before_iff]
        unfold next
        split <;> simp
      by_cases hLast : text = []
      · subst hLast
        exact hNext
      · have hRest : (p.next c).before (p.after (c :: text)) = true :=
          ih hLast
        rw [before_iff] at hNext hRest ⊢
        omega

end Position

namespace SourceText

variable {text before first second : List Char}

------------------------------------------------------------
-- Boundaries and Their Positions
------------------------------------------------------------

/- An offset in bytes at which a text can be cut in two. -/
def Boundary
    (text : List Char)
    (offset : Nat) : Prop :=
  ∃ before, before <+: text ∧ offset = byteSize before

/-
  The position of a boundary: its line is counted by the line
  feeds before it, its column by the characters since the last
  of them.
-/
def InLine
    (text : List Char)
    (p : Position) : Prop :=
  ∃ before, before <+: text ∧
    p = ⟨before.count '\n' + 1, (lineTail before).length⟩

theorem byteSize_le_of_start
    (hPrefix : before <+: text) :
    byteSize before ≤ byteSize text := by
  rcases hPrefix with ⟨after, rfl⟩
  simp

theorem byteOffset_of_start
    (hPrefix : before <+: text) :
    byteOffset text
        ⟨before.count '\n' + 1, (lineTail before).length⟩ =
      byteSize before := by
  rcases hPrefix with ⟨after, rfl⟩
  have hOffset :
      offset (before ++ after)
          (positionAt (before ++ after) before.length) =
        before.length :=
    offset_positionAt (by simp)
  rw [positionAt, List.take_left, after_first] at hOffset
  rw [byteOffset, hOffset, inBytes, List.take_left]

/- Pieces at the start of a text are ordered as their positions. -/
theorem before_of_byteSize_lt
    (hFirst : first <+: text)
    (hSecond : second <+: text)
    (hSize : byteSize first < byteSize second) :
    (Position.first.after first).before
      (Position.first.after second) = true := by
  rcases List.prefix_or_prefix_of_prefix hFirst hSecond with
    ⟨between, rfl⟩ | hBack
  · rw [Position.after_append]
    apply Position.before_after
    rintro rfl
    simp at hSize
  · have hLe := byteSize_le_of_start hBack
    omega

theorem eq_of_byteSize_eq
    (hFirst : first <+: text)
    (hSecond : second <+: text)
    (hSize : byteSize first = byteSize second) :
    first = second := by
  rcases hFirst with ⟨rest, rfl⟩
  rcases hSecond with ⟨rest', hText⟩
  exact (append_inj_of_byteSize_eq hText.symm hSize).1

theorem bijOn_byteOffset
    (text : List Char) :
    Set.BijOn (byteOffset text) {p | InLine text p}
      {offset | Boundary text offset} := by
  refine ⟨?_, ?_, ?_⟩
  · rintro _ ⟨before, hPrefix, rfl⟩
    exact ⟨before, hPrefix, byteOffset_of_start hPrefix⟩
  · rintro _ ⟨first, hFirst, rfl⟩ _ ⟨second, hSecond, rfl⟩ hSame
    rw [byteOffset_of_start hFirst,
      byteOffset_of_start hSecond] at hSame
    rw [eq_of_byteSize_eq hFirst hSecond hSame]
  · rintro _ ⟨before, hPrefix, rfl⟩
    exact ⟨_, ⟨before, hPrefix, rfl⟩, byteOffset_of_start hPrefix⟩

theorem byteOffset_lt_iff
    {p q : Position}
    (hP : InLine text p)
    (hQ : InLine text q) :
    byteOffset text p < byteOffset text q ↔ p.before q = true := by
  rcases hP with ⟨first, hFirst, rfl⟩
  rcases hQ with ⟨second, hSecond, rfl⟩
  rw [byteOffset_of_start hFirst, byteOffset_of_start hSecond,
    ← after_first, ← after_first]
  refine ⟨before_of_byteSize_lt hFirst hSecond, fun hBefore => ?_⟩
  rw [Position.before_iff] at hBefore
  rcases Nat.lt_trichotomy (byteSize first) (byteSize second) with
    hLt | hEq | hGt
  · exact hLt
  · cases eq_of_byteSize_eq hFirst hSecond hEq
    omega
  · have hBack := before_of_byteSize_lt hSecond hFirst hGt
    rw [Position.before_iff] at hBack
    omega

------------------------------------------------------------
-- Pieces by Offsets in Bytes
------------------------------------------------------------

/- The piece between two boundaries of a text, if they are in order. -/
def cutOut?
    (text : List Char)
    (start stop : Nat) : Option (List Char) :=
  if start ≤ stop then
    (cut? start text).bind fun pieces =>
      (cut? (stop - start) pieces.2).map Prod.fst
  else
    none

theorem cutOut?_append
    (before piece after : List Char) :
    cutOut? (before ++ (piece ++ after)) (byteSize before)
        (byteSize before + byteSize piece) =
      some piece := by
  simp [cutOut?]

theorem cutOut?_between
    (text : List Char)
    (p q : Position) :
    cutOut? text (byteOffset text p)
        (max (byteOffset text q) (byteOffset text p)) =
      some (between text p q) := by
  have hStop :
      max (byteOffset text q) (byteOffset text p) =
        byteOffset text p + byteSize (between text p q) := by
    unfold byteOffset between
    rw [← inBytes_add]
    rcases Nat.le_total (offset text p) (offset text q) with
      hOrder | hOrder
    · rw [Nat.add_sub_cancel' hOrder,
        Nat.max_eq_left (inBytes_le_inBytes hOrder)]
    · rw [Nat.sub_eq_zero_of_le hOrder, Nat.add_zero,
        Nat.max_eq_right (inBytes_le_inBytes hOrder)]
  rw [hStop]
  have hPiece :=
    cutOut?_append (text.take (offset text p)) (between text p q)
      ((text.drop (offset text p)).drop
        (offset text q - offset text p))
  rwa [between, List.take_append_drop, List.take_append_drop]
    at hPiece

------------------------------------------------------------
-- The Table of Lines
------------------------------------------------------------

/- The offsets in bytes that follow a line feed. -/
def laterLines : Nat → List Char → List Nat
  | _, [] => []
  | offset, c :: rest =>
      if c = '\n' then
        (offset + c.utf8Size) :: laterLines (offset + c.utf8Size) rest
      else
        laterLines (offset + c.utf8Size) rest

/- The offsets in bytes at which the lines of a text start. -/
def lineStarts
    (text : List Char) : List Nat :=
  0 :: laterLines 0 text

theorem getElem?_laterLines
    (text : List Char)
    (offset k : Nat) :
    (laterLines offset text)[k]? =
      (dropLines (k + 1) text).map fun rest =>
        offset + byteSize text - byteSize rest := by
  induction text generalizing offset k with
  | nil => rfl
  | cons c text ih =>
      rw [laterLines, dropLines]
      simp only [byteSize_cons, ← Nat.add_assoc]
      split
      · cases k with
        | zero => simp [dropLines]
        | succ k => rw [List.getElem?_cons_succ, ih]
      · exact ih (offset + c.utf8Size) k

/- A line of the table is a piece at the end of the text. -/
theorem dropLines_pieces
    {k : Nat}
    {rest : List Char}
    (hRest : dropLines k text = some rest) :
    ∃ before, text = before ++ rest := by
  fun_induction dropLines k text with
  | case1 text => exact ⟨[], Option.some.inj hRest⟩
  | case2 => cases hRest
  | case3 k text ih | case4 k c text _ ih =>
      rcases ih hRest with ⟨before, rfl⟩
      exact ⟨_ :: before, rfl⟩

/-
  The table knows the same lines as the text, and what follows
  a line start can be cut out.
-/
theorem lineStarts_cases
    (text : List Char)
    (line : Nat) :
    (lineStarts text)[line - 1]? = none ∧
        fromLine? text line = none ∨
      ∃ before rest,
        text = before ++ rest ∧
          (lineStarts text)[line - 1]? = some (byteSize before) ∧
          fromLine? text line = some rest ∧
          cutOut? text (byteSize before) (byteSize text) =
            some rest := by
  have hTable :
      (lineStarts text)[line - 1]? =
        (fromLine? text line).map fun rest =>
          byteSize text - byteSize rest := by
    unfold fromLine? lineStarts
    cases line - 1 with
    | zero => simp [dropLines]
    | succ k =>
        rw [List.getElem?_cons_succ, getElem?_laterLines,
          Nat.zero_add]
  cases hRest : fromLine? text line with
  | none => exact Or.inl ⟨by rw [hTable, hRest]; rfl, rfl⟩
  | some rest =>
      rcases dropLines_pieces hRest with ⟨before, rfl⟩
      refine Or.inr ⟨before, rest, rfl, ?_, rfl, ?_⟩
      · rw [hTable, hRest]
        simp
      · have hPiece := cutOut?_append before rest []
        rwa [List.append_nil, ← byteSize_append] at hPiece

/- The offset in bytes of a position, by the table. -/
def lookUp?
    (text : List Char)
    (p : Position) : Option Nat :=
  (lineStarts text)[p.line - 1]?.elim (some (byteSize text))
    fun start =>
      (cutOut? text start (byteSize text)).map fun rest =>
        if p.column < rest.length then
          start + byteSize (rest.take p.column)
        else
          byteSize text

/- The blanks at the start of a line, by the table. -/
def indent?
    (text : List Char)
    (line : Nat) : Option (List Char) :=
  (lineStarts text)[line - 1]?.elim (some [])
    fun start =>
      (cutOut? text start (byteSize text)).bind fun rest =>
        cutOut? rest 0
          (byteSize rest - byteSize (rest.dropWhile isIndent))

theorem lookUp?_eq
    (text : List Char)
    (p : Position) :
    lookUp? text p = some (byteOffset text p) := by
  unfold lookUp? byteOffset inBytes offset
  rcases lineStarts_cases text p.line with
    ⟨hStart, hLine⟩ | ⟨before, rest, rfl, hStart, hLine, hRest⟩
  · simp [hStart, hLine]
  · rw [hStart, hLine, Option.elim_some, hRest, Option.map_some]
    have hBefore :
        (before ++ rest).length - rest.length = before.length := by
      simp
    dsimp only
    rw [hBefore, List.take_length_add_append, byteSize_append,
      byteSize_append]
    split
    · next hInside => rw [Nat.min_eq_left (Nat.le_of_lt hInside)]
    · next hPast =>
        rw [Nat.min_eq_right (Nat.le_of_not_lt hPast),
          List.take_length]

theorem indent?_eq
    (text : List Char)
    (line : Nat) :
    indent? text line = some (indent text line) := by
  unfold indent? indent
  rcases lineStarts_cases text line with
    ⟨hStart, hLine⟩ | ⟨before, rest, rfl, hStart, hLine, hRest⟩
  · simp [hStart, hLine]
  · rw [hStart, hLine, Option.elim_some, hRest, Option.bind_some]
    have hPiece :=
      cutOut?_append [] (rest.takeWhile isIndent)
        (rest.dropWhile isIndent)
    have hSize :=
      byteSize_append (rest.takeWhile isIndent)
        (rest.dropWhile isIndent)
    rw [List.takeWhile_append_dropWhile] at hSize
    rw [hSize, Nat.add_sub_cancel]
    simpa using hPiece

/-
  The offset in bytes inverts the numbering of lines and
  columns, and whatever line and column are asked for, it is a
  boundary, and all pieces are there.
-/
theorem byteOffset_numbering
    (text : List Char) :
    (∀ before, before <+: text →
      byteOffset text
          ⟨before.count '\n' + 1, (lineTail before).length⟩ =
        byteSize before) ∧
      Set.BijOn (byteOffset text) {p | InLine text p}
        {offset | Boundary text offset} ∧
      (∀ p q, InLine text p → InLine text q →
        (byteOffset text p < byteOffset text q ↔
          p.before q = true)) ∧
      (∀ p,
        lookUp? text p = some (byteOffset text p) ∧
          Boundary text (byteOffset text p) ∧
          byteOffset text p ≤ byteSize text) ∧
      (∀ p q,
        cutOut? text (byteOffset text p)
            (max (byteOffset text q) (byteOffset text p)) =
          some (between text p q)) ∧
      ∀ line, indent? text line = some (indent text line) := by
  refine ⟨fun before => byteOffset_of_start, bijOn_byteOffset text,
    fun p q => byteOffset_lt_iff, fun p => ?_,
    cutOut?_between text, indent?_eq text⟩
  have hPrefix : text.take (offset text p) <+: text :=
    List.take_prefix _ _
  exact ⟨lookUp?_eq text p, ⟨_, hPrefix, rfl⟩,
    byteSize_le_of_start hPrefix⟩

/- A boundary after a character of two bytes, on an indented line. -/
theorem byteOffset_numbering_indented :
    ∃ text,
      text = ['a', '\n', ' ', 'ç', 'd', '\n'] ∧
        byteOffset text ⟨2, 2⟩ = 5 ∧
        InLine text ⟨1, 1⟩ ∧ InLine text ⟨2, 2⟩ ∧
        byteOffset text ⟨1, 1⟩ < byteOffset text ⟨2, 2⟩ ∧
        indent? text 2 = some [' '] := by
  refine ⟨_, rfl, ?_⟩
  rcases byteOffset_numbering ['a', '\n', ' ', 'ç', 'd', '\n'] with
    ⟨hBoundary, _, hOrder, _, _, hIndent⟩
  have hFirst : InLine ['a', '\n', ' ', 'ç', 'd', '\n'] ⟨1, 1⟩ :=
    ⟨['a'], ⟨_, rfl⟩, rfl⟩
  have hPrefix :
      ['a', '\n', ' ', 'ç'] <+: ['a', '\n', ' ', 'ç', 'd', '\n'] :=
    ⟨_, rfl⟩
  have hSecond : InLine ['a', '\n', ' ', 'ç', 'd', '\n'] ⟨2, 2⟩ :=
    ⟨_, hPrefix, rfl⟩
  exact ⟨hBoundary _ hPrefix, hFirst, hSecond,
    (hOrder _ _ hFirst hSecond).mpr rfl, hIndent 2⟩

end SourceText

end Nullary
