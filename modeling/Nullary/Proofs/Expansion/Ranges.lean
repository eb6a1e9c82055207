import Nullary.Proofs.Expansion.Splicing

/-
  Where the edits of a file stand in its text.

  The range that is removed with a marker is the marker with
  blanks around it, no two ranges have a character in common,
  and nothing is put inside one.  Only the first of these
  fails, for a marker on the first line of a text that still
  starts with a byte order mark when it is parsed.

  Main declarations:
    * `SourceText.Encloses`
    * `SourceText.removalRange_encloses`
    * `Attribute.StandsAt`
    * `SourceText.KeepsPlace`
    * `Leads.encloses_iff`
    * `SourceFile.edits_wellPlaced`
-/

namespace Nullary

------------------------------------------------------------
-- Ranges around a Text
------------------------------------------------------------

namespace SourceText

variable {text : List Char}
variable {c : Char}

/-
  A range holds the text between two offsets, and otherwise
  only blanks.
-/
structure Encloses
    (text : List Char)
    (range : Nat × Nat)
    (first last : Nat) : Prop where
  start_le : range.1 ≤ first
  le_stop : last ≤ range.2
  blank :
    ∀ i, range.1 ≤ i → i < range.2 → i < first ∨ last ≤ i →
      ∀ c, text[i]? = some c → isBlank c = true

/- The characters of a range after its text are blank. -/
theorem isBlank_of_lt_removalRange_stop
    {start stop i : Nat}
    (hStart : stop ≤ i)
    (hStop : i < (removalRange text start stop).2)
    (hChar : text[i]? = some c) :
    isBlank c = true := by
  unfold removalRange at hStop
  dsimp only at hStop
  split at hStop
  · next hBlank =>
      have hRest := (Bool.and_eq_true_iff.mp hBlank).2
      rcases oneLine_restOfLine text stop with ⟨_, hEnds⟩
      dsimp only at hStop
      by_cases hLine : i < stop + (restOfLine text stop).length
      · exact isBlank_of_allBlank_restOfLine hRest hStart hLine hChar
      · have hEnd : stop + (restOfLine text stop).length = i := by
          omega
        rw [hEnds c (hEnd ▸ hChar)]
        decide
  · exact isBlank_of_isIndent
      (isIndent_of_lt_takeWhile hStart hStop hChar)

/- So are those before it. -/
theorem isBlank_of_removalRange_start_le
    {start stop i : Nat}
    (hStart : (removalRange text start stop).1 ≤ i)
    (hStop : i < start)
    (hChar : text[i]? = some c) :
    isBlank c = true := by
  unfold removalRange at hStart
  dsimp only at hStart
  split at hStart
  · next hBlank =>
      have hFirst := (Bool.and_eq_true_iff.mp hBlank).1
      exact isBlank_of_allBlank_startOfLine hFirst hStart hStop hChar
  · exact absurd hStop (Nat.not_lt.mpr hStart)

theorem removalRange_encloses
    (start : Nat)
    {stop : Nat}
    (hLength : stop ≤ text.length) :
    Encloses text (removalRange text start stop) start stop where
  start_le := removalRange_start_le text start stop
  le_stop := le_removalRange_stop start hLength
  blank := by
    intro i hFrom hTo hOutside c hChar
    rcases hOutside with hBefore | hAfter
    · exact isBlank_of_removalRange_start_le hFrom hBefore hChar
    · exact isBlank_of_lt_removalRange_stop hAfter hTo hChar

/- A range reaches over an indent. -/
theorem lt_removalRange_stop
    (start : Nat)
    {stop : Nat}
    (hChar : text[stop]? = some c)
    (hIndent : isIndent c = true) :
    stop < (removalRange text start stop).2 := by
  rcases List.getElem?_eq_some_iff.mp hChar with ⟨hInside, hGet⟩
  have hDrop : text.drop stop = c :: text.drop (stop + 1) := by
    rw [← hGet, List.getElem_cons_drop]
  have hNewline : (c != '\n') = true := by
    rcases Bool.or_eq_true_iff.mp hIndent with hSpace | hTab
    · rw [eq_of_beq hSpace]
      decide
    · rw [eq_of_beq hTab]
      decide
  unfold removalRange
  dsimp only
  split
  · dsimp only
    omega
  · dsimp only
    rw [restOfLine, hDrop, List.takeWhile_cons, if_pos hNewline,
      List.takeWhile_cons, if_pos hIndent, List.length_cons]
    omega

------------------------------------------------------------
-- Where Markers Stand
------------------------------------------------------------

/- How many characters of a text are dropped when it is parsed. -/
def leadLength
    (body : List Char) : Nat :=
  if body.head? = some byteOrderMark then 1 else 0

theorem leads_leadLength
    (body : List Char) :
    Leads body (dropByteOrderMark body) (leadLength body) := by
  rcases exists_leads body with ⟨lead, hLeads⟩
  have hLength := hLeads.length
  have hSame : lead = leadLength body := by
    unfold leadLength
    unfold dropByteOrderMark at hLength
    split
    · next hMark =>
        rcases List.head?_eq_some_iff.mp hMark with ⟨rest, rfl⟩
        rw [if_pos hMark, List.tail_cons, List.length_cons] at hLength
        omega
    · next hMark =>
        rw [if_neg hMark] at hLength
        omega
  exact hSame ▸ hLeads

end SourceText

open SourceText

/-
  An attribute stands between two offsets of a text.  Its
  positions count from where the text is parsed.
-/
def Attribute.StandsAt
    (body : List Char)
    (a : Attribute)
    (first last : Nat) : Prop :=
  ∃ start stop,
    a.span = spanAt (dropByteOrderMark body) start stop ∧
      Attribute.IsAt (dropByteOrderMark body) start stop ∧
      first = start + leadLength body ∧
      last = stop + leadLength body

/-
  The positions of a text between two offsets lead to it: no
  mark is dropped when the file is parsed, or the text does
  not start on the first line.  If they lead to one character
  before it, that character is a blank, and so is the last
  one, unless the text ends on a later line.
-/
def SourceText.KeepsPlace
    (body : List Char)
    (first last : Nat) : Prop :=
  body.head? ≠ some byteOrderMark ∨
    (∃ i, i < first ∧ body[i]? = some '\n') ∨
    ((∃ c, body[first - 1]? = some c ∧ isBlank c = true) ∧
      ((∃ i, first ≤ i ∧ i < last ∧ body[i]? = some '\n') ∨
        ∃ c, body[last - 1]? = some c ∧ isIndent c = true))

namespace Leads

variable {body text : List Char}
variable {lead start stop : Nat}

/- A text that is found by its positions keeps its place. -/
theorem keepsPlace_of_firm
    (hLeads : Leads body text lead)
    (hMark : lead = 0 → body.head? ≠ some byteOrderMark)
    (hLine : lead = 0 ∨ ∃ i, i < start ∧ text[i]? = some '\n')
    (last : Nat) :
    KeepsPlace body (start + lead) last := by
  rcases hLine with hZero | ⟨i, hIndex, hNewline⟩
  · exact Or.inl (hMark hZero)
  · refine Or.inr (Or.inl ⟨i + lead, by omega, ?_⟩)
    rw [hLeads.getElem?, hNewline]

/- The first line of a text holds no line feed. -/
theorem not_newline_of_slipped
    (hLeads : Leads body text 1)
    (hFirst : Solid body 0)
    (hLine : OneLine text 0 stop)
    {i : Nat}
    (hIndex : i < stop + 1) :
    body[i]? ≠ some '\n' := by
  cases i with
  | zero => exact hFirst.ne_newline
  | succ i =>
      rw [hLeads.getElem?]
      exact hLine i (Nat.zero_le i) (by omega)

/-
  On the first line only indents are taken after a text, for
  the mark stands before it.
-/
theorem isIndent_of_slipped
    (hLeads : Leads body text 1)
    (hFirst : Solid body 0)
    (hLine : OneLine text 0 start)
    (hStart : 0 < start)
    (hLength : start ≤ body.length)
    (hStop : stop < (removalRange body start stop).2)
    {c : Char}
    (hChar : body[stop]? = some c) :
    isIndent c = true := by
  unfold removalRange at hStop
  dsimp only at hStop
  split at hStop
  · next hBlank =>
      exfalso
      have hBefore := (Bool.and_eq_true_iff.mp hBlank).1
      rcases lineStart_eq_zero_or hLength with hZero | hNewline
      · rcases hFirst with ⟨mark, hMark, hSolid⟩
        rw [isBlank_of_allBlank_startOfLine hBefore
          (Nat.le_of_eq hZero) hStart hMark] at hSolid
        cases hSolid
      · have hIndex : lineStart body start - 1 < start + 1 := by
          have hLe := lineStart_le body start
          omega
        exact not_newline_of_slipped hLeads hFirst hLine hIndex
          hNewline
  · exact isIndent_of_lt_takeWhile (Nat.le_refl stop) hStop hChar

section Slipped

variable {place : Nat}
variable (hLeads : Leads body text 1)
variable (hFirst : Solid body 0)
variable (hLine : OneLine text 0 start)
variable (hPlace : Landing body text 1 stop place)
include hLeads hFirst hLine

/- A place on the first line is kept only by chance. -/
theorem blanks_of_keepsPlace
    (hMark : body.head? = some byteOrderMark)
    {last : Nat}
    (hKeeps : KeepsPlace body (start + 1) last) :
    (∃ c, body[start]? = some c ∧ isBlank c = true) ∧
      ((∃ i, start + 1 ≤ i ∧ i < last ∧ body[i]? = some '\n') ∨
        ∃ c, body[last - 1]? = some c ∧ isIndent c = true) := by
  rcases hKeeps with hNot | ⟨i, hIndex, hNewline⟩ | hChance
  · exact absurd hMark hNot
  · exact absurd hNewline
      (not_newline_of_slipped hLeads hFirst hLine hIndex)
  · exact hChance

variable (hStart : (removalRange body start place).1 = start)
include hPlace hStart

/- A range that starts too early holds a blank before its text, -/
theorem keepsPlace_of_encloses
    (hOrder : start < stop)
    (hLength : stop ≤ text.length)
    (hEncloses :
      Encloses body (removalRange body start place) (start + 1)
        (stop + 1)) :
    KeepsPlace body (start + 1) (stop + 1) := by
  have hBody := hLeads.length
  have hReach := hEncloses.le_stop
  have hSome : start < body.length := by omega
  have hBlank :=
    hEncloses.blank start (Nat.le_of_eq hStart) (by omega)
      (Or.inl (by omega)) _ (List.getElem?_eq_getElem hSome)
  refine Or.inr (Or.inr
    ⟨⟨_, List.getElem?_eq_getElem hSome, hBlank⟩, ?_⟩)
  cases hPlace with
  | firm hLine' =>
      left
      rcases hLeads.exists_newline rfl hLine hLine' with
        ⟨i, hFrom, hTo, hNewline⟩
      have hNot : i ≠ start := by
        rintro rfl
        exact not_newline_of_slipped hLeads hFirst hLine
          (by omega) hNewline
      exact ⟨i, by omega, hTo, hNewline⟩
  | slipped hLead' hFirst' hLine' =>
      right
      have hLast : stop < body.length := by omega
      have hPositive : 0 < start := by
        rcases Nat.eq_zero_or_pos start with rfl | hPositive
        · rcases hFirst with ⟨mark, hGet, hSolid⟩
          rw [List.getElem?_eq_getElem hSome,
            Option.some.injEq] at hGet
          rw [← hGet, hBlank] at hSolid
          cases hSolid
        · exact hPositive
      refine ⟨_, List.getElem?_eq_getElem hLast, ?_⟩
      exact isIndent_of_slipped hLeads hFirst hLine hPositive
        (by omega) (by omega) (List.getElem?_eq_getElem hLast)

/- and with such a blank it holds the text. -/
theorem encloses_of_keepsPlace
    (hMark : body.head? = some byteOrderMark)
    (hInside : place ≤ body.length)
    (hKeeps : KeepsPlace body (start + 1) (stop + 1)) :
    Encloses body (removalRange body start place) (start + 1)
      (stop + 1) := by
  rcases blanks_of_keepsPlace hLeads hFirst hLine hMark hKeeps with
    ⟨⟨c, hChar, hBlank⟩, hEnd⟩
  have hReach : stop + 1 ≤ (removalRange body start place).2 := by
    cases hPlace with
    | firm hLine' => exact le_removalRange_stop start hInside
    | slipped hLead' hFirst' hLine' =>
        rcases hEnd with ⟨i, _, hTo, hNewline⟩ | ⟨d, hLast, hIndent⟩
        · exact absurd hNewline
            (not_newline_of_slipped hLeads hFirst hLine' hTo)
        · exact lt_removalRange_stop start hLast hIndent
  refine ⟨by omega, hReach, ?_⟩
  intro i hFrom hTo hOutside d hGet
  rcases hOutside with hBefore | hAfter
  · have hSame : i = start := by omega
    rw [hSame, hChar, Option.some.injEq] at hGet
    exact hGet ▸ hBlank
  · refine isBlank_of_lt_removalRange_stop ?_ hTo hGet
    cases hPlace <;> omega

end Slipped

/-
  The range of an attribute holds the attribute and blanks
  exactly if the attribute keeps its place.
-/
theorem encloses_iff
    (hLeads : Leads body text lead)
    (hMark : body.head? = some byteOrderMark ↔ lead = 1)
    (hOrder : start < stop)
    (hLength : stop ≤ text.length)
    {place place' : Nat}
    (hPlace : Landing body text lead start place)
    (hPlace' : Landing body text lead stop place') :
    Encloses body (removalRange body place place') (start + lead)
        (stop + lead) ↔
      KeepsPlace body (start + lead) (stop + lead) := by
  have hInside := hLeads.landing_le_length hLength hPlace'
  cases hPlace with
  | firm hLine =>
      cases hPlace' with
      | firm hLine' =>
          have hNoMark :
              lead = 0 → body.head? ≠ some byteOrderMark := by
            intro hZero hHead
            have hOne := hMark.mp hHead
            omega
          have hKeeps :=
            keepsPlace_of_firm hLeads hNoMark hLine (stop + lead)
          have hEncloses :=
            removalRange_encloses (start + lead) hInside
          exact iff_of_true hEncloses hKeeps
      | slipped hLead hFirst hLine' =>
          exact (not_slipped (Nat.le_of_lt hOrder) hLine hLead
            hLine').elim
  | slipped hLead hFirst hLine =>
      subst hLead
      have hStart :=
        hLeads.removalRange_start_eq place' (by omega) rfl hFirst
          hLine
      exact ⟨keepsPlace_of_encloses hLeads hFirst hLine hPlace' hStart
          hOrder hLength,
        encloses_of_keepsPlace hLeads hFirst hLine hPlace' hStart
          (hMark.mpr rfl) hInside⟩

end Leads

------------------------------------------------------------
-- The Edits of a File
------------------------------------------------------------

namespace SourceFile

variable {body : List Char}
variable {file : SourceFile}
variable {names : List String}

/- A marker of a file stands somewhere in its text. -/
theorem exists_standsAt
    (hParse : parse? body = some file)
    {m : MarkedItem}
    (hMem : m ∈ file.markedItems names)
    {a : Attribute}
    (hMarker : a ∈ m.first :: m.others) :
    ∃ first last,
      a.StandsAt body first last ∧
        (Encloses body (a.removalRange body) first last ↔
          KeepsPlace body first last) := by
  have hLeads := leads_leadLength body
  rcases exists_marker_at (placed_landmarks hParse) hMem
      hMarker with
    ⟨start, stop, hAt⟩
  rcases Landmark.at_tag_iff.mp hAt with ⟨hSpan, hTag⟩
  have hOrder := hTag.start_lt_stop
  have hLength := hTag.stop_le_length
  have hMark :
      body.head? = some byteOrderMark ↔ leadLength body = 1 := by
    unfold leadLength
    split <;> simp [*]
  refine ⟨_, _, ⟨start, stop, hSpan, hTag, rfl, rfl⟩, ?_⟩
  unfold Attribute.removalRange
  rw [hSpan]
  exact hLeads.encloses_iff hMark hOrder hLength
    (hLeads.landing start (by omega)) (hLeads.landing stop hLength)

theorem removals_sublist_edits
    (file : SourceFile)
    (names : List String)
    (body : List Char) :
    ((file.markedItems names).flatMap (·.removals body)).Sublist
      (file.edits names body) := by
  unfold edits
  induction file.markedItems names with
  | nil => exact List.Sublist.refl _
  | cons m rest ih =>
      rw [List.flatMap_cons, List.flatMap_cons]
      exact (List.sublist_append_left _ _).append ih

/-
  The ranges that are removed from a text start and stop
  between two of its characters, no two of them overlap, and
  no constructor is put inside one.  Each holds its marker
  and otherwise only blanks exactly if the marker keeps its
  place.
-/
theorem edits_wellPlaced
    (hParse : parse? body = some file)
    (names : List String) :
    (∀ m ∈ file.markedItems names,
        ∀ a ∈ m.first :: m.others,
          (a.removalRange body).1 < (a.removalRange body).2 ∧
            (a.removalRange body).2 ≤ body.length ∧
            (a.removal body).start =
              byteSize (body.take (a.removalRange body).1) ∧
            (a.removal body).stop =
              byteSize (body.take (a.removalRange body).2) ∧
            ∃ first last,
              a.StandsAt body first last ∧
                (Encloses body (a.removalRange body) first last ↔
                  KeepsPlace body first last)) ∧
      ((file.markedItems names).flatMap
        (·.removals body)).Pairwise Edit.Apart ∧
      ∀ m ∈ file.markedItems names,
        ∀ insertion ∈ m.insertion? body,
          insertion.Fits body ∧
            ∀ n ∈ file.markedItems names,
              ∀ removal ∈ n.removals body,
                insertion.start ≤ removal.start ∨
                  removal.stop ≤ insertion.start := by
  have hLeads := leads_leadLength body
  have hPlaced := placed_landmarks hParse
  have hArranged := arranged_edits hLeads hPlaced names
  refine ⟨?_, ?_, ?_⟩
  · intro m hMem a hMarker
    rcases exists_marker_at hPlaced hMem hMarker with
      ⟨start, stop, hAt⟩
    rcases Landmark.at_tag_iff.mp hAt with ⟨hSpan, hTag⟩
    rcases Landmark.removal_range hLeads hSpan hTag with
      ⟨hOrder, hStop, _⟩
    exact ⟨hOrder, hStop, rfl, rfl,
      exists_standsAt hParse hMem hMarker⟩
  · exact hArranged.apart.sublist
      (file.removals_sublist_edits names body)
  · intro m hM insertion hInsertion
    have hEdit : insertion ∈ file.edits names body :=
      mem_edits_iff.mpr ⟨m, hM,
        MarkedItem.mem_edits_iff.mpr (Or.inr hInsertion)⟩
    refine ⟨hArranged.fits _ hEdit, ?_⟩
    intro n hN removal hRemoval
    have hEmpty := MarkedItem.insertion_start_eq_stop hInsertion
    have hApart :=
      (insertion_inOrder hLeads hPlaced hM hN hInsertion
        (List.mem_append_left _ hRemoval)).apart
    rw [Edit.Apart, ← hEmpty] at hApart
    exact hApart

/- Two records on one line, the first of them with an implementation. -/
theorem edits_wellPlaced_records :
    ∃ file,
      parse?
          "#[a] pub struct B; impl B \x7b\x7d #[a] struct C;".toList =
        some file ∧
      (file.markedItems ["a"]).length = 2 ∧
      ∀ m ∈ file.markedItems ["a"],
        ∀ a ∈ m.first :: m.others,
          ∃ first last,
            a.StandsAt
                "#[a] pub struct B; impl B \x7b\x7d #[a] struct C;".toList
                first last ∧
              Encloses
                "#[a] pub struct B; impl B \x7b\x7d #[a] struct C;".toList
                (a.removalRange
                  "#[a] pub struct B; impl B \x7b\x7d #[a] struct C;".toList)
                first last := by
  have hAny :
      (parse?
        "#[a] pub struct B; impl B \x7b\x7d #[a] struct C;".toList).any
          (fun file => (file.markedItems ["a"]).length == 2) =
        true := by
    decide +kernel
  rcases (Option.any_eq_true _ _).mp hAny with
    ⟨file, hParse, hTwo⟩
  refine ⟨file, hParse, eq_of_beq hTwo, ?_⟩
  intro m hMem a hMarker
  rcases (edits_wellPlaced hParse ["a"]).1 m hMem a hMarker with
    ⟨_, _, _, _, first, last, hStands, hEncloses⟩
  exact ⟨first, last, hStands,
    hEncloses.mpr (Or.inl (by decide))⟩

/-
  After a byte order mark the range of a marker starts with
  the mark, and stops before the bracket.
-/
example :
    ((parse? (byteOrderMark :: "#[a]\nstruct B;".toList)).map
        fun file => (file.markedItems ["a"]).map fun m =>
          m.first.removalRange
            (byteOrderMark :: "#[a]\nstruct B;".toList)) =
      some [(0, 4)] := by
  decide +kernel

end SourceFile

end Nullary
