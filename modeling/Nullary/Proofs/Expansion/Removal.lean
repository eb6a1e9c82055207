import Nullary.Expansion.Basic
import Nullary.Proofs.Grammar.Landmarks

/-
  The ranges that go with attributes.

  A range is an attribute with the blanks around it.  It
  stops before whatever else stands in the text, so the
  ranges of different attributes have nothing in common, and
  the end of an item is in none of them.

  All of this also holds in a text with one more byte order
  mark than the one it was parsed without, although the
  ranges of its first line are then one character off.

  Main declarations:
    * `SourceText.Solid`
    * `SourceText.removalRange_stop_le`
    * `SourceText.lt_removalRange_start`
    * `Landing`
    * `Leads`
    * `exists_leads`
    * `Leads.removal_le_removal`
    * `Leads.removal_le_close`
    * `Leads.close_le_removal`
-/

namespace Nullary

namespace SourceText

variable {text : List Char}
variable {offset i stop : Nat}
variable {c : Char}
variable {start : Nat}

------------------------------------------------------------
-- Lines Around an Offset
------------------------------------------------------------

/- A character that is not blank stands at an offset. -/
def Solid
    (text : List Char)
    (offset : Nat) : Prop :=
  ∃ c, text[offset]? = some c ∧ isBlank c = false

theorem Solid.ne_newline
    (hSolid : Solid text offset) :
    text[offset]? ≠ some '\n' := by
  rcases hSolid with ⟨c, hChar, hBlank⟩
  intro hNewline
  rw [hChar] at hNewline
  cases hNewline
  exact absurd hBlank (by decide)

theorem lineStart_le
    (text : List Char)
    (offset : Nat) :
    lineStart text offset ≤ offset :=
  Nat.sub_le _ _

/- A line starts after its last line feed. -/
theorem oneLine_lineStart
    (hOffset : offset ≤ text.length) :
    OneLine text (lineStart text offset) offset := by
  intro i hStart hStop hNewline
  have hIndex :
      offset - 1 - i <
        ((text.take offset).reverse.takeWhile
          (· != '\n')).length := by
    unfold lineStart at hStart
    omega
  rcases exists_getElem?_of_lt_takeWhile hIndex with
    ⟨c, hChar, hTest⟩
  have hTake : (text.take offset).length = offset :=
    List.length_take_of_le hOffset
  rw [List.getElem?_reverse (by omega), hTake,
    List.getElem?_take_of_lt (by omega)] at hChar
  have hSame : offset - 1 - (offset - 1 - i) = i := by omega
  rw [hSame, hNewline] at hChar
  cases hChar
  simp at hTest

/- It starts after a line feed, or with the text. -/
theorem lineStart_eq_zero_or
    (hOffset : offset ≤ text.length) :
    lineStart text offset = 0 ∨
      text[lineStart text offset - 1]? = some '\n' := by
  have hTake : (text.take offset).length = offset :=
    List.length_take_of_le hOffset
  by_cases hAll :
      offset ≤ ((text.take offset).reverse.takeWhile
        (· != '\n')).length
  · left
    unfold lineStart
    omega
  · right
    have hIndex :
        lineStart text offset - 1 =
          offset - 1 - ((text.take offset).reverse.takeWhile
            (· != '\n')).length := by
      unfold lineStart
      omega
    have hInside : lineStart text offset - 1 < text.length := by
      omega
    have hChar :
        (text.take offset).reverse[
            ((text.take offset).reverse.takeWhile
              (· != '\n')).length]? =
          some (text[lineStart text offset - 1]) := by
      rw [List.getElem?_reverse (by omega), hTake, ← hIndex,
        List.getElem?_take_of_lt (by omega),
        List.getElem?_eq_getElem hInside]
    have hTest := not_of_getElem?_length_takeWhile hChar
    rw [List.getElem?_eq_getElem hInside]
    simpa using hTest

/- The start of a line is blank if each of its characters is. -/
theorem isBlank_of_allBlank_startOfLine
    (hBlank : Text.allBlank (startOfLine text offset) = true)
    (hStart : lineStart text offset ≤ i)
    (hStop : i < offset)
    (hChar : text[i]? = some c) :
    isBlank c = true := by
  have hMem : c ∈ startOfLine text offset := by
    unfold startOfLine
    rw [List.mem_iff_getElem?]
    refine ⟨i - lineStart text offset, ?_⟩
    rw [List.getElem?_drop, Nat.add_sub_cancel' hStart,
      List.getElem?_take_of_lt hStop, hChar]
  exact List.all_eq_true.mp hBlank c hMem

/- The rest of a line holds no line feed and ends at one. -/
theorem oneLine_restOfLine
    (text : List Char)
    (offset : Nat) :
    OneLine text offset
        (offset + (restOfLine text offset).length) ∧
      EndsLine text
        (offset + (restOfLine text offset).length) :=
  Comment.oneLine_lineLength text offset

theorem isBlank_of_allBlank_restOfLine
    (hBlank : Text.allBlank (restOfLine text offset) = true)
    (hStart : offset ≤ i)
    (hStop : i < offset + (restOfLine text offset).length)
    (hChar : text[i]? = some c) :
    isBlank c = true := by
  rcases List.takeWhile_prefix (p := (· != '\n'))
    (l := text.drop offset) with ⟨rest, hRest⟩
  have hIndex :
      i - offset < (restOfLine text offset).length := by
    omega
  have hMem : c ∈ restOfLine text offset := by
    rw [List.mem_iff_getElem?]
    refine ⟨i - offset, ?_⟩
    rw [← List.getElem?_append_left hIndex]
    change (List.takeWhile (· != '\n') (text.drop offset) ++
      rest)[i - offset]? = some c
    rw [hRest, List.getElem?_drop,
      Nat.add_sub_cancel' hStart, hChar]
  exact List.all_eq_true.mp hBlank c hMem

------------------------------------------------------------
-- Ranges
------------------------------------------------------------

theorem removalRange_start_le
    (text : List Char)
    (start stop : Nat) :
    (removalRange text start stop).1 ≤ start := by
  unfold removalRange
  dsimp only
  split
  · exact lineStart_le text start
  · exact Nat.le_refl start

theorem le_removalRange_stop
    (start : Nat)
    (hStop : stop ≤ text.length) :
    stop ≤ (removalRange text start stop).2 := by
  unfold removalRange
  dsimp only
  split
  · omega
  · omega

theorem length_restOfLine_le
    (text : List Char)
    (offset : Nat) :
    (restOfLine text offset).length ≤ text.length - offset := by
  rw [← List.length_drop]
  exact (List.takeWhile_prefix _).length_le

theorem removalRange_stop_le_length
    (start : Nat)
    (hStop : stop ≤ text.length) :
    (removalRange text start stop).2 ≤ text.length := by
  have hRest := length_restOfLine_le text stop
  have hIndent :
      ((restOfLine text stop).takeWhile isIndent).length ≤
        (restOfLine text stop).length :=
    (List.takeWhile_prefix _).length_le
  unfold removalRange
  dsimp only
  split
  · exact Nat.min_le_right _ _
  · dsimp only
    omega

/- An indent is blank. -/
theorem isBlank_of_isIndent
    (hIndent : isIndent c = true) :
    isBlank c = true := by
  unfold isIndent at hIndent
  rcases Bool.or_eq_true_iff.mp hIndent with hSpace | hTab
  · rw [eq_of_beq hSpace]
    decide
  · rw [eq_of_beq hTab]
    decide

/- The characters that are taken after a text are indents. -/
theorem isIndent_of_lt_takeWhile
    (hStart : stop ≤ i)
    (hStop :
      i < stop +
        ((restOfLine text stop).takeWhile isIndent).length)
    (hChar : text[i]? = some c) :
    isIndent c = true := by
  have hIndex :
      i - stop <
        ((restOfLine text stop).takeWhile isIndent).length := by
    omega
  rcases exists_getElem?_of_lt_takeWhile hIndex with
    ⟨d, hFound, hIndent⟩
  have hInside : i - stop < (restOfLine text stop).length :=
    (List.getElem?_eq_some_iff.mp hFound).1
  rcases List.takeWhile_prefix (p := (· != '\n'))
    (l := text.drop stop) with ⟨rest, hRest⟩
  rw [← List.getElem?_append_left hInside] at hFound
  change (List.takeWhile (· != '\n') (text.drop stop) ++
    rest)[i - stop]? = some d at hFound
  rw [hRest, List.getElem?_drop, Nat.add_sub_cancel' hStart,
    hChar] at hFound
  cases hFound
  exact hIndent

/-
  A range stops before the next character that is not blank,
  and at the end of the line.
-/
theorem removalRange_stop_le
    (start : Nat)
    {m : Nat}
    (hStop : stop ≤ m)
    (hBarrier :
      Solid text m ∨
        ∃ i, stop ≤ i ∧ i < m ∧ text[i]? = some '\n') :
    (removalRange text start stop).2 ≤ m := by
  rcases oneLine_restOfLine text stop with ⟨hLine, hEnds⟩
  have hIndent :
      ((restOfLine text stop).takeWhile isIndent).length ≤
        (restOfLine text stop).length :=
    (List.takeWhile_prefix _).length_le
  rcases hBarrier with ⟨c, hChar, hSolid⟩ |
    ⟨i, hFrom, hTo, hNewline⟩
  · unfold removalRange
    dsimp only
    split
    · next hBlank =>
        have hRest := (Bool.and_eq_true_iff.mp hBlank).2
        have hPast :
            stop + (restOfLine text stop).length ≤ m := by
          by_contra hInside
          rw [isBlank_of_allBlank_restOfLine hRest hStop
            (by omega) hChar] at hSolid
          cases hSolid
        have hNotEnd :
            stop + (restOfLine text stop).length ≠ m := by
          intro hEnd
          have hNewline := hEnds c (hEnd ▸ hChar)
          subst hNewline
          exact absurd hSolid (by decide)
        dsimp only
        omega
    · dsimp only
      by_contra hInside
      have hBlank :=
        isBlank_of_isIndent
          (isIndent_of_lt_takeWhile hStop (by omega) hChar)
      rw [hBlank] at hSolid
      cases hSolid
  · have hPast :
        stop + (restOfLine text stop).length ≤ i := by
      by_contra hInside
      exact hLine i hFrom (by omega) hNewline
    unfold removalRange
    dsimp only
    split
    · dsimp only
      omega
    · dsimp only
      omega

/-
  A range starts after the last character before it that is
  not blank, and not before its line.
-/
theorem lt_removalRange_start
    (stop : Nat)
    (hLength : start ≤ text.length)
    (hStart : i < start)
    (hBarrier : Solid text i ∨ text[i]? = some '\n') :
    i < (removalRange text start stop).1 := by
  unfold removalRange
  dsimp only
  split
  · next hBlank =>
      have hFirst := (Bool.and_eq_true_iff.mp hBlank).1
      dsimp only
      by_contra hInside
      rcases hBarrier with ⟨c, hChar, hSolid⟩ | hNewline
      · rw [isBlank_of_allBlank_startOfLine hFirst
          (by omega) hStart hChar] at hSolid
        cases hSolid
      · exact oneLine_lineStart hLength i (by omega) hStart
          hNewline
  · exact hStart

/- A range starts with its text, or with a line. -/
theorem removalRange_start_eq_or
    (stop : Nat)
    (hLength : start ≤ text.length) :
    (removalRange text start stop).1 = start ∨
      (removalRange text start stop).1 = 0 ∨
      text[(removalRange text start stop).1 - 1]? =
        some '\n' := by
  unfold removalRange
  dsimp only
  split
  · exact Or.inr (lineStart_eq_zero_or hLength)
  · exact Or.inl rfl

/-
  A range that goes over a line feed ends with a blank or
  with the text that it was made for.
-/
theorem removalRange_oneLine_or
    (hOrder : start ≤ stop)
    (hLength : stop ≤ text.length)
    (hSolid : isBlank c = false)
    (hTail :
      text[stop - 1]? ≠ some c ∨ OneLine text start stop) :
    OneLine text (removalRange text start stop).1
        (removalRange text start stop).2 ∨
      text[(removalRange text start stop).2 - 1]? ≠
        some c := by
  rcases oneLine_restOfLine text stop with ⟨hLine, hEnds⟩
  have hRestLength := length_restOfLine_le text stop
  have hLineStart :=
    oneLine_lineStart (Nat.le_trans hOrder hLength)
  unfold removalRange
  dsimp only
  split
  · next hBlank =>
      have hRest := (Bool.and_eq_true_iff.mp hBlank).2
      dsimp only
      by_cases hMore :
          stop + (restOfLine text stop).length < text.length
      · -- The range ends with the line feed.
        right
        rw [Nat.min_eq_left (Nat.succ_le_of_lt hMore),
          Nat.succ_sub_one]
        intro hChar
        have hNewline := hEnds c hChar
        subst hNewline
        exact absurd hSolid (by decide)
      · rw [Nat.min_eq_right (by omega)]
        by_cases hEmpty : (restOfLine text stop).length = 0
        · have hEnd : text.length = stop := by omega
          rw [hEnd]
          rcases hTail with hChar | hOne
          · exact Or.inr hChar
          · left
            intro i hFrom hTo
            by_cases hBefore : i < start
            · exact hLineStart i hFrom hBefore
            · exact hOne i (by omega) hTo
        · right
          intro hChar
          rw [isBlank_of_allBlank_restOfLine hRest
            (by omega) (by omega) hChar] at hSolid
          cases hSolid
  · dsimp only
    by_cases hEmpty :
        ((restOfLine text stop).takeWhile isIndent).length = 0
    · rw [hEmpty, Nat.add_zero]
      exact hTail.symm
    · right
      intro hChar
      have hIndent : isIndent c = true :=
        isIndent_of_lt_takeWhile (show stop ≤ _ by omega) (by omega)
          hChar
      rw [isBlank_of_isIndent hIndent] at hSolid
      cases hSolid

end SourceText

------------------------------------------------------------
-- Where Offsets Land
------------------------------------------------------------

open SourceText

/-
  The offsets of a text in another text that has `lead` more
  characters before it, if they are found by their positions.
  Those of the first line slip to the left.
-/
inductive Landing
    (body text : List Char)
    (lead : Nat) : Nat → Nat → Prop where
  | firm
      {offset : Nat}
      (hLine :
        lead = 0 ∨
          ∃ i, i < offset ∧ text[i]? = some '\n') :
      Landing body text lead offset (offset + lead)
  | slipped
      {offset : Nat}
      (hLead : lead = 1)
      (hFirst : Solid body 0)
      (hLine : OneLine text 0 offset) :
      Landing body text lead offset offset

/- A text with `lead` more characters before another one. -/
structure Leads
    (body text : List Char)
    (lead : Nat) : Prop where
  getElem? : ∀ i, body[i + lead]? = text[i]?
  length : body.length = text.length + lead
  landing : ∀ offset, offset ≤ text.length →
    Landing body text lead offset
      (SourceText.offset body (positionAt text offset))

theorem byteOrderMark_ne_newline :
    byteOrderMark ≠ '\n' := by
  decide

/- A text may start with a byte order mark. -/
theorem exists_leads
    (body : List Char) :
    ∃ lead, Leads body (dropByteOrderMark body) lead := by
  unfold dropByteOrderMark
  split
  · next hMark =>
      rcases List.head?_eq_some_iff.mp hMark with
        ⟨text, rfl⟩
      refine ⟨1, fun i => rfl, rfl, ?_⟩
      intro offset hOffset
      rw [List.tail_cons] at hOffset ⊢
      rw [offset_cons_positionAt byteOrderMark_ne_newline
        hOffset]
      split
      · next hMem =>
          rcases List.mem_iff_getElem?.mp hMem with
            ⟨i, hChar⟩
          rw [List.getElem?_take] at hChar
          split at hChar
          · next hIndex =>
              exact .firm (Or.inr ⟨i, hIndex, hChar⟩)
          · cases hChar
      · next hNone =>
          refine .slipped rfl
            ⟨byteOrderMark, rfl, by decide⟩ ?_
          intro i hFrom hTo hChar
          apply hNone
          rw [List.mem_iff_getElem?]
          exact ⟨i,
            by rw [List.getElem?_take_of_lt hTo, hChar]⟩
  · refine ⟨0, fun i => rfl, rfl, ?_⟩
    intro offset hOffset
    rw [offset_positionAt hOffset]
    exact .firm (Or.inl rfl)

namespace Leads

variable {body text : List Char}
variable {lead : Nat}
variable {offset : Nat}

theorem solid
    (hLeads : Leads body text lead)
    {i : Nat}
    (hSolid : Solid text i) :
    Solid body (i + lead) := by
  rcases hSolid with ⟨c, hChar, hBlank⟩
  exact ⟨c, by rw [hLeads.getElem?, hChar], hBlank⟩

theorem landing_le_length
    (hLeads : Leads body text lead)
    {place : Nat}
    (hOffset : offset ≤ text.length)
    (hLanding : Landing body text lead offset place) :
    place ≤ body.length := by
  have hLength := hLeads.length
  cases hLanding with
  | firm hLine => omega
  | slipped hLead hFirst hLine => omega

/- No offset slips after one that does not. -/
theorem not_slipped
    {offset' : Nat}
    (hOrder : offset ≤ offset')
    (hFirm :
      lead = 0 ∨ ∃ i, i < offset ∧ text[i]? = some '\n')
    (hLead : lead = 1)
    (hSlipped : OneLine text 0 offset') :
    False := by
  rcases hFirm with hZero | ⟨i, hIndex, hNewline⟩
  · omega
  · exact hSlipped i (Nat.zero_le i) (by omega) hNewline

/- Offsets that are in order land in order. -/
theorem landing_lt
    {offset' place place' : Nat}
    (hOrder : offset < offset')
    (hLanding : Landing body text lead offset place)
    (hLanding' : Landing body text lead offset' place') :
    place < place' := by
  cases hLanding with
  | firm hLine =>
      cases hLanding' with
      | firm hLine' => omega
      | slipped hLead hFirst hLine' =>
          exact (not_slipped (Nat.le_of_lt hOrder) hLine hLead
            hLine').elim
  | slipped hLead hFirst hLine =>
      cases hLanding' with
      | firm hLine' => omega
      | slipped hLead' hFirst' hLine' => exact hOrder

/- Between the first line and a later one there is a line feed. -/
theorem exists_newline
    (hLeads : Leads body text lead)
    {offset' : Nat}
    (hLead : lead = 1)
    (hFirst : OneLine text 0 offset)
    (hLater :
      lead = 0 ∨
        ∃ i, i < offset' ∧ text[i]? = some '\n') :
    ∃ i, offset ≤ i ∧ i < offset' + lead ∧
      body[i]? = some '\n' := by
  rcases hLater with hZero | ⟨i, hIndex, hNewline⟩
  · omega
  · have hFrom : offset ≤ i := by
      by_contra hBefore
      exact hFirst i (Nat.zero_le i) (by omega) hNewline
    exact ⟨i + lead, by omega, by omega,
      by rw [hLeads.getElem?, hNewline]⟩

/- On the first line a range starts with its text. -/
theorem removalRange_start_eq
    (hLeads : Leads body text lead)
    (stop : Nat)
    (hOffset : offset ≤ text.length)
    (hLead : lead = 1)
    (hFirst : Solid body 0)
    (hLine : OneLine text 0 offset) :
    (removalRange body offset stop).1 = offset := by
  have hLength : offset ≤ body.length := by
    have hBody := hLeads.length
    omega
  have hLe := removalRange_start_le body offset stop
  rcases Nat.eq_zero_or_pos offset with hZero | hPositive
  · omega
  · have hAfter :=
      lt_removalRange_start stop hLength hPositive
        (Or.inl hFirst)
    rcases removalRange_start_eq_or stop hLength with
      hStart | hStart | hNewline
    · exact hStart
    · omega
    · exfalso
      rcases Nat.eq_zero_or_pos
        ((removalRange body offset stop).1 - 1) with
        hZero | hInside
      · rw [hZero] at hNewline
        exact hFirst.ne_newline hNewline
      · have hIndex :
            (removalRange body offset stop).1 - 1 =
              (removalRange body offset stop).1 - 2 + lead := by
          omega
        rw [hIndex, hLeads.getElem?] at hNewline
        exact hLine _ (Nat.zero_le _) (by omega) hNewline

end Leads

------------------------------------------------------------
-- Ranges of Landmarks
------------------------------------------------------------

namespace Attribute.IsAt

variable {body text : List Char}
variable {lead : Nat}

theorem solid_start
    {start stop : Nat}
    (hAt : IsAt text start stop) :
    Solid text start := by
  rcases hAt.head with hHash | hSlash
  · exact ⟨'#', hHash, by decide⟩
  · exact ⟨'/', hSlash, by decide⟩

/-
  An attribute that is followed by another one on its line
  does not end with a blank.
-/
theorem solid_stop
    {start stop start' stop' : Nat}
    (hAt : IsAt text start stop)
    (hAt' : IsAt text start' stop')
    (hOrder : stop ≤ start')
    (hLine : OneLine text stop start') :
    Solid text (stop - 1) := by
  have hStart' := hAt'.start_lt_stop
  have hStop' := hAt'.stop_le_length
  rcases hAt.tail with (hBracket | hSlash) | ⟨_, hEnds⟩
  · exact ⟨']', hBracket, by decide⟩
  · exact ⟨'/', hSlash, by decide⟩
  · -- A comment up to the end of its line: the other attribute
    -- would have to start with the line feed.
    exfalso
    have hInside : stop < text.length := by omega
    have hChar := List.getElem?_eq_getElem hInside
    have hNewline : text[stop]? = some '\n' := by
      rw [hChar, hEnds text[stop] hChar]
    rcases Nat.lt_or_ge stop start' with hBefore | hAfter
    · exact hLine stop (Nat.le_refl stop) hBefore hNewline
    · have hSame : stop = start' := by omega
      rw [hSame] at hNewline
      exact hAt'.solid_start.ne_newline hNewline

end Attribute.IsAt

namespace Leads

variable {body text : List Char}
variable {lead : Nat}
variable {start stop place place' : Nat}

/-
  Of two ranges with no line feed between their texts, the
  first stops before the second starts.
-/
theorem removal_le_removal_of_oneLine
    (hLeads : Leads body text lead)
    {start' stop' : Nat}
    (hAt : Attribute.IsAt text start stop)
    (hAt' : Attribute.IsAt text start' stop')
    (hOrder : stop ≤ start')
    (hLine : OneLine text stop start')
    (first last : Nat) :
    (removalRange body first (stop + lead)).2 ≤
      (removalRange body (start' + lead) last).1 := by
  have hStart := hAt.start_lt_stop
  have hStart' := hAt'.start_lt_stop
  have hStop' := hAt'.stop_le_length
  have hBody := hLeads.length
  have hLength : start' + lead ≤ body.length := by omega
  have hSolid' : Solid body (start' + lead) :=
    hLeads.solid hAt'.solid_start
  have hStopIndex : stop - 1 + lead = stop + lead - 1 := by
    omega
  have hSolid : Solid body (stop + lead - 1) := by
    rw [← hStopIndex]
    exact hLeads.solid (hAt.solid_stop hAt' hOrder hLine)
  have hAfter :=
    lt_removalRange_start last hLength (by omega)
      (Or.inl hSolid)
  have hLe := removalRange_start_le body (start' + lead) last
  have hStartEq :
      (removalRange body (start' + lead) last).1 =
        start' + lead := by
    rcases removalRange_start_eq_or last hLength with
      hSame | hZero | hNewline
    · exact hSame
    · omega
    · exfalso
      rcases Nat.lt_or_ge (stop + lead - 1)
        ((removalRange body (start' + lead) last).1 - 1) with
        hLater | hHere
      · have hIndex :
            (removalRange body (start' + lead) last).1 - 1 =
              (removalRange body (start' + lead) last).1 - 1 -
                lead + lead := by
          omega
        rw [hIndex, hLeads.getElem?] at hNewline
        exact hLine _ (by omega) (by omega) hNewline
      · have hSame :
            (removalRange body (start' + lead) last).1 - 1 =
              stop + lead - 1 := by
          omega
        rw [hSame] at hNewline
        exact hSolid.ne_newline hNewline
  rw [hStartEq]
  exact removalRange_stop_le first (by omega)
    (Or.inl hSolid')

/-
  The range of an attribute stops before that of the next
  one starts.
-/
theorem removal_le_removal
    (hLeads : Leads body text lead)
    {start' stop' : Nat}
    (hAt : Attribute.IsAt text start stop)
    (hAt' : Attribute.IsAt text start' stop')
    (hOrder : stop ≤ start')
    (hPlace : Landing body text lead stop place)
    (hPlace' : Landing body text lead start' place')
    (first last : Nat) :
    (removalRange body first place).2 ≤
      (removalRange body place' last).1 := by
  have hStart := hAt.start_lt_stop
  have hStart' := hAt'.start_lt_stop
  have hStop' := hAt'.stop_le_length
  have hLength : place' ≤ body.length :=
    hLeads.landing_le_length (by omega) hPlace'
  by_cases hBetween :
      ∃ i, place ≤ i ∧ i < place' ∧ body[i]? = some '\n'
  · rcases hBetween with ⟨i, hFrom, hTo, hNewline⟩
    have hAfter :=
      lt_removalRange_start last hLength hTo
        (Or.inr hNewline)
    exact removalRange_stop_le first (by omega)
      (Or.inr ⟨i, hFrom, hAfter, hNewline⟩)
  · cases hPlace with
    | firm hLine =>
        cases hPlace' with
        | firm hLine' =>
            refine hLeads.removal_le_removal_of_oneLine hAt hAt'
              hOrder ?_ first last
            intro i hFrom hTo hNewline
            exact hBetween ⟨i + lead, by omega, by omega,
              by rw [hLeads.getElem?, hNewline]⟩
        | slipped hLead hFirst hLine' =>
            exact (not_slipped hOrder hLine hLead hLine').elim
    | slipped hLead hFirst hLine =>
        cases hPlace' with
        | firm hLine' =>
            exact absurd
              (hLeads.exists_newline hLead hLine hLine')
              hBetween
        | slipped hLead' hFirst' hLine' =>
            rw [hLeads.removalRange_start_eq last (by omega)
              hLead hFirst hLine']
            have hIndex : stop - 1 + lead = stop := by omega
            have hSolid : Solid body stop := by
              rw [← hIndex]
              apply hLeads.solid
              apply hAt.solid_stop hAt' hOrder
              intro i hFrom hTo
              exact hLine' i (Nat.zero_le i) hTo
            exact Nat.le_trans
              (removalRange_stop_le first (Nat.le_refl stop)
                (Or.inl hSolid)) hOrder

/-
  The range of an attribute stops before the end of a later
  item.
-/
theorem removal_le_close
    (hLeads : Leads body text lead)
    {close : Nat}
    (hSolid : Solid text close)
    (hOrder : stop ≤ close)
    (hPlace : Landing body text lead stop place)
    (hPlace' : Landing body text lead (close + 1) place')
    (first : Nat) :
    (removalRange body first place).2 ≤ place' := by
  have hSolid' := hLeads.solid hSolid
  cases hPlace with
  | firm hLine =>
      cases hPlace' with
      | firm hLine' =>
          exact Nat.le_trans
            (removalRange_stop_le first (by omega)
              (Or.inl hSolid')) (by omega)
      | slipped hLead hFirst hLine' =>
          exact (not_slipped (by omega) hLine hLead
            hLine').elim
  | slipped hLead hFirst hLine =>
      cases hPlace' with
      | firm hLine' =>
          rcases hLeads.exists_newline hLead hLine hLine' with
            ⟨i, hFrom, hTo, hNewline⟩
          exact removalRange_stop_le first (by omega)
            (Or.inr ⟨i, hFrom, hTo, hNewline⟩)
      | slipped hLead' hFirst' hLine' =>
          subst hLead
          exact removalRange_stop_le first (by omega)
            (Or.inl hSolid')

/-
  The range of an attribute starts after the end of an
  earlier item.
-/
theorem close_le_removal
    (hLeads : Leads body text lead)
    {close : Nat}
    (hSolid : Solid text close)
    (hOrder : close < start)
    (hStart : start ≤ text.length)
    (hPlace : Landing body text lead (close + 1) place)
    (hPlace' : Landing body text lead start place')
    (last : Nat) :
    place ≤ (removalRange body place' last).1 := by
  have hSolid' := hLeads.solid hSolid
  have hLength : place' ≤ body.length :=
    hLeads.landing_le_length hStart hPlace'
  cases hPlace with
  | firm hLine =>
      cases hPlace' with
      | firm hLine' =>
          have hAfter :=
            lt_removalRange_start last hLength
              (by omega) (Or.inl hSolid')
          omega
      | slipped hLead hFirst hLine' =>
          exact (not_slipped (by omega) hLine hLead
            hLine').elim
  | slipped hLead hFirst hLine =>
      cases hPlace' with
      | firm hLine' =>
          rcases hLeads.exists_newline hLead hLine hLine' with
            ⟨i, hFrom, hTo, hNewline⟩
          have hAfter :=
            lt_removalRange_start last hLength hTo
              (Or.inr hNewline)
          omega
      | slipped hLead' hFirst' hLine' =>
          rw [hLeads.removalRange_start_eq last hStart
            hLead hFirst hLine']
          exact hOrder

/-
  The range of an attribute ends with no brace, or goes over
  no line feed.
-/
theorem removal_tail
    (hLeads : Leads body text lead)
    (hAt : Attribute.IsAt text start stop)
    (hPlace : Landing body text lead start place)
    (hPlace' : Landing body text lead stop place') :
    OneLine body (removalRange body place place').1
        (removalRange body place place').2 ∨
      body[(removalRange body place place').2 - 1]? ≠
        some '\x7d' := by
  have hOrder := hAt.start_lt_stop
  have hPlaces :=
    Nat.le_of_lt (landing_lt hOrder hPlace hPlace')
  have hLength :=
    hLeads.landing_le_length hAt.stop_le_length hPlace'
  refine removalRange_oneLine_or hPlaces hLength (by decide) ?_
  cases hPlace' with
  | firm hLine' =>
      rcases hAt.tail with hChar | ⟨hOne, _⟩
      · left
        have hIndex : stop + lead - 1 = stop - 1 + lead := by
          omega
        rw [hIndex, hLeads.getElem?]
        rcases hChar with hBracket | hSlash
        · rw [hBracket]
          decide
        · rw [hSlash]
          decide
      · right
        cases hPlace with
        | firm hLine =>
            intro i hFrom hTo
            have hIndex : i = i - lead + lead := by omega
            rw [hIndex, hLeads.getElem?]
            exact hOne (i - lead) (by omega) (by omega)
        | slipped hLead hFirst hLine =>
            refine (not_slipped (Nat.le_refl stop) hLine' hLead
              ?_).elim
            intro i hFrom hTo
            by_cases hBefore : i < start
            · exact hLine i hFrom hBefore
            · exact hOne i (by omega) hTo
  | slipped hLead hFirst hLine' =>
      right
      intro i hFrom hTo
      rcases Nat.eq_zero_or_pos i with rfl | hPositive
      · exact hFirst.ne_newline
      · have hIndex : i = i - 1 + lead := by omega
        rw [hIndex, hLeads.getElem?]
        exact hLine' (i - 1) (Nat.zero_le _) (by omega)

end Leads

end Nullary
