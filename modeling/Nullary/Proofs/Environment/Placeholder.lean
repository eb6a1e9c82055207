import Mathlib.Data.List.TakeWhile
import Nullary.Environment.Placeholder

/-
  The placeholders of a text.

  A text is read from left to right: where a placeholder
  starts, it is one piece of the text, and otherwise the
  character that stands there is one.  Every text has such a
  division into pieces, and the placeholders that are found
  in the text are those of the division.

  Main declarations:
    * `Placeholder.WellFormed`
    * `Placeholder.read?_eq_some_iff`
    * `Piece`
    * `Pieces`
    * `exists_pieces`
    * `Pieces.findAll_eq`
-/

namespace Nullary

------------------------------------------------------------
-- Placeholders at the Start of a Text
------------------------------------------------------------

namespace Placeholder

variable {p : Placeholder}
variable {text : List Char}

/-
  A name is not empty and holds no brace that closes and no
  colon; a fallback holds no such brace.
-/
structure WellFormed
    (p : Placeholder) : Prop where
  name_ne_nil : p.name ≠ []
  name : ∀ c ∈ p.name, c ≠ '\x7d' ∧ c ≠ ':'
  fallback : ∀ value, p.fallback = some value → '\x7d' ∉ value

/- What follows the name in the text of a placeholder. -/
def ending
    (p : Placeholder) : List Char :=
  match p.fallback with
  | none => ['\x7d']
  | some value => ':' :: '-' :: value ++ ['\x7d']

theorem text_eq
    (p : Placeholder) :
    p.text = '$' :: '\x7b' :: (p.name ++ p.ending) := by
  unfold text ending
  cases p.fallback with
  | none => rfl
  | some value => simp

theorem text_ne_nil
    (p : Placeholder) :
    p.text ≠ [] := by
  rw [text_eq]
  exact List.cons_ne_nil _ _

theorem isNameChar_eq_true_iff
    {c : Char} :
    isNameChar c = true ↔ c ≠ '\x7d' ∧ c ≠ ':' := by
  simp [isNameChar]

/- The characters that pass a test end where one does not. -/
theorem span_append
    {test : Char → Bool}
    {first rest : List Char}
    (hFirst : ∀ c ∈ first, test c = true)
    (hRest : ∀ c, rest.head? = some c → test c = false) :
    (first ++ rest).takeWhile test = first ∧
      (first ++ rest).dropWhile test = rest := by
  rw [List.takeWhile_append_of_pos hFirst,
    List.dropWhile_append_of_pos hFirst]
  cases rest with
  | nil => simp
  | cons c rest => simp [hRest c rfl]

/- A brace ends what stands before it. -/
theorem eq_append_brace
    (hMem : '\x7d' ∈ text) :
    ∃ rest, text = text.takeWhile (· != '\x7d') ++ '\x7d' :: rest := by
  have hSplit := List.takeWhile_append_dropWhile (p := (· != '\x7d'))
    (l := text)
  cases hDrop : text.dropWhile (· != '\x7d') with
  | nil =>
      rw [hDrop, List.append_nil] at hSplit
      have hAll := List.takeWhile_eq_self_iff.mp hSplit
      have hFalse := hAll '\x7d' hMem
      simp at hFalse
  | cons c rest =>
      have hHead := List.head?_dropWhile_not (· != '\x7d') text
      simp only [hDrop, List.head?_cons] at hHead
      have hSame : c = '\x7d' := by simpa using hHead
      rw [hDrop, hSame] at hSplit
      exact ⟨rest, hSplit.symm⟩

theorem ending_of_readFallback?
    {name rest : List Char}
    (hRead : readFallback? name rest = some p) :
    p.name = name ∧
      (∀ value, p.fallback = some value → '\x7d' ∉ value) ∧
      p.ending <+: rest := by
  unfold readFallback? at hRead
  split at hRead
  · cases hRead
    exact ⟨rfl, nofun, by simp [ending]⟩
  · next rest =>
      split at hRead
      · next hBrace =>
          cases hRead
          rcases eq_append_brace (by simpa using hBrace) with
            ⟨after, hRest⟩
          refine ⟨rfl, ?_, after, ?_⟩
          · intro value hValue hMem
            cases hValue
            have hTest := List.mem_takeWhile_imp hMem
            simp at hTest
          · simpa [ending] using hRest.symm
      · cases hRead
  · cases hRead

theorem readFallback?_append
    (hForm : p.WellFormed)
    (rest : List Char) :
    readFallback? p.name (p.ending ++ rest) = some p := by
  rcases p with ⟨name, fallback⟩
  cases fallback with
  | none => rfl
  | some value =>
      have hValue : ∀ c ∈ value, (c != '\x7d') = true := by
        intro c hMem
        have hNe : c ≠ '\x7d' := by
          rintro rfl
          exact hForm.fallback value rfl hMem
        simpa using hNe
      have hBrace :
          ∀ c, ('\x7d' :: rest).head? = some c → (c != '\x7d') = false := by
        simp
      have hTake := (span_append hValue hBrace).1
      simp [ending, readFallback?, hTake]

/-
  A placeholder is read at the start of a text exactly if the
  text starts with it.
-/
theorem read?_eq_some_iff :
    read? text = some p ↔ p.WellFormed ∧ p.text <+: text := by
  constructor
  · intro hRead
    unfold read? at hRead
    split at hRead
    · next rest =>
        dsimp only at hRead
        split at hRead
        · cases hRead
        · next hName =>
            rcases ending_of_readFallback? hRead with
              ⟨hSame, hFallback, hEnding⟩
            refine ⟨⟨?_, ?_, hFallback⟩, ?_⟩
            · rw [hSame]
              simpa using hName
            · intro c hMem
              rw [hSame] at hMem
              exact isNameChar_eq_true_iff.mp
                (List.mem_takeWhile_imp hMem)
            · rw [text_eq, hSame]
              have hRest := List.takeWhile_append_dropWhile
                (p := isNameChar) (l := rest)
              rw [List.cons_prefix_cons, List.cons_prefix_cons]
              refine ⟨rfl, rfl, ?_⟩
              have hStart :=
                (List.prefix_append_right_inj
                  (rest.takeWhile isNameChar)).mpr hEnding
              rwa [hRest] at hStart
    · cases hRead
  · rintro ⟨hForm, rest, rfl⟩
    have hName : ∀ c ∈ p.name, isNameChar c = true :=
      fun c hMem => isNameChar_eq_true_iff.mpr (hForm.name c hMem)
    have hEnd :
        ∀ c, (p.ending ++ rest).head? = some c →
          isNameChar c = false := by
      intro c hHead
      unfold ending at hHead
      split at hHead
      · cases hHead
        rfl
      · cases hHead
        rfl
    rcases span_append hName hEnd with ⟨hTake, hDrop⟩
    rw [text_eq]
    simp only [List.cons_append, List.append_assoc, read?, hTake,
      hDrop, List.isEmpty_iff, hForm.name_ne_nil, if_false,
      readFallback?_append hForm]

theorem read?_append
    (hForm : p.WellFormed)
    (rest : List Char) :
    read? (p.text ++ rest) = some p :=
  read?_eq_some_iff.mpr ⟨hForm, List.prefix_append _ _⟩

/- No text starts with two placeholders. -/
theorem eq_of_append_eq
    {p q : Placeholder}
    {rest rest' : List Char}
    (hForm : p.WellFormed)
    (hForm' : q.WellFormed)
    (hText : p.text ++ rest = q.text ++ rest') :
    p = q := by
  have hRead := read?_append hForm rest
  rw [hText, read?_append hForm' rest'] at hRead
  exact (Option.some.inj hRead).symm

theorem read?_eq_none_iff :
    read? text = none ↔
      ∀ p : Placeholder, p.WellFormed → ¬ p.text <+: text := by
  constructor
  · intro hNone p hForm hStart
    rw [read?_eq_some_iff.mpr ⟨hForm, hStart⟩] at hNone
    cases hNone
  · intro hNone
    cases hRead : read? text with
    | none => rfl
    | some p =>
        rcases read?_eq_some_iff.mp hRead with ⟨hForm, hStart⟩
        exact absurd hStart (hNone p hForm)

end Placeholder

------------------------------------------------------------
-- Texts in Pieces
------------------------------------------------------------

/- A piece of a text: a character, or a placeholder. -/
inductive Piece where
  | char (c : Char)
  | placeholder (p : Placeholder)
deriving DecidableEq

namespace Piece

/- The placeholder that a piece is, if it is one. -/
def placeholder? : Piece → Option Placeholder
  | char _ => none
  | placeholder p => some p

end Piece

/-
  The pieces of a text from left to right.  A character is a
  piece by itself only where no placeholder starts.
-/
inductive Pieces : List Char → List Piece → Prop where
  | nil :
      Pieces [] []
  | placeholder
      {p : Placeholder}
      {rest : List Char}
      {pieces : List Piece}
      (hForm : p.WellFormed)
      (hRest : Pieces rest pieces) :
      Pieces (p.text ++ rest) (.placeholder p :: pieces)
  | char
      {c : Char}
      {rest : List Char}
      {pieces : List Piece}
      (hNone :
        ∀ p : Placeholder, p.WellFormed → ¬ p.text <+: c :: rest)
      (hRest : Pieces rest pieces) :
      Pieces (c :: rest) (.char c :: pieces)

/- The placeholders among pieces, in their order. -/
def Piece.placeholders
    (pieces : List Piece) : List Placeholder :=
  pieces.filterMap placeholder?

namespace Placeholder

/- What belongs to a placeholder is passed over. -/
theorem findFrom_append
    (passed rest : List Char) :
    findFrom passed.length (passed ++ rest) = findFrom 0 rest := by
  induction passed with
  | nil => rfl
  | cons c passed ih =>
      rw [List.length_cons, List.cons_append, findFrom]
      exact ih

theorem findFrom_text_append
    {p : Placeholder}
    (hForm : p.WellFormed)
    (rest : List Char) :
    findFrom 0 (p.text ++ rest) = p :: findFrom 0 rest := by
  rcases List.exists_cons_of_ne_nil p.text_ne_nil with
    ⟨c, others, hText⟩
  have hRead : read? (c :: (others ++ rest)) = some p := by
    rw [← List.cons_append, ← hText]
    exact read?_append hForm rest
  rw [hText, List.cons_append, findFrom, hRead]
  simp only [hText, List.length_cons, Nat.add_sub_cancel,
    findFrom_append]

end Placeholder

namespace Pieces

variable {text : List Char}
variable {pieces : List Piece}

theorem wellFormed
    (hPieces : Pieces text pieces)
    {p : Placeholder}
    (hMem : .placeholder p ∈ pieces) :
    p.WellFormed := by
  induction hPieces with
  | nil => cases hMem
  | placeholder hForm _ ih =>
      rcases List.mem_cons.mp hMem with hSame | hRest
      · cases hSame
        exact hForm
      · exact ih hRest
  | char _ _ ih =>
      rcases List.mem_cons.mp hMem with hSame | hRest
      · cases hSame
      · exact ih hRest

/- The placeholders that are found are those among the pieces. -/
theorem findAll_eq
    (hPieces : Pieces text pieces) :
    Placeholder.findAll text = Piece.placeholders pieces := by
  unfold Placeholder.findAll Piece.placeholders
  induction hPieces with
  | nil => rfl
  | placeholder hForm _ ih =>
      rw [Placeholder.findFrom_text_append hForm, ih]
      rfl
  | char hNone _ ih =>
      rw [Placeholder.findFrom,
        Placeholder.read?_eq_none_iff.mpr hNone]
      exact ih

end Pieces

/- Every text can be divided into pieces. -/
theorem exists_pieces
    (text : List Char) :
    ∃ pieces, Pieces text pieces := by
  induction hLength : text.length using Nat.strong_induction_on
    generalizing text with
  | h length ih =>
      cases text with
      | nil => exact ⟨[], .nil⟩
      | cons c rest =>
          cases hRead : Placeholder.read? (c :: rest) with
          | none =>
              rcases ih rest.length (by simp [← hLength]) rest rfl with
                ⟨pieces, hPieces⟩
              exact ⟨_, .char
                (Placeholder.read?_eq_none_iff.mp hRead) hPieces⟩
          | some p =>
              rcases Placeholder.read?_eq_some_iff.mp hRead with
                ⟨hForm, after, hText⟩
              have hShorter : after.length < length := by
                have hPositive :=
                  List.length_pos_iff.mpr p.text_ne_nil
                rw [← hLength, ← hText, List.length_append]
                omega
              rcases ih after.length hShorter after rfl with
                ⟨pieces, hPieces⟩
              refine ⟨.placeholder p :: pieces, ?_⟩
              rw [← hText]
              exact .placeholder hForm hPieces

end Nullary
