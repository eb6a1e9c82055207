import Nullary.Proofs.Environment.Placeholder
import Nullary.Proofs.Steps

/-
  The values of variables in a text.

  One pass over a text puts the value of each placeholder in
  its place and keeps everything else.  The substitution
  replaces the placeholders one after the other instead, each
  of them wherever its text stands in what the ones before it
  have made of the text.  This comes to the same if the text
  of each placeholder stands only where it was found, which
  is so if dollar signs start placeholders and nothing else.

  Main declarations:
    * `Text.Replaces`
    * `Environment.OnePass`
    * `Environment.InTurn`
    * `Environment.partly`
    * `Environment.Undisturbed`
    * `Environment.undisturbed_of_dollars`
    * `Environment.substitute_inTurn`
-/

namespace Nullary

------------------------------------------------------------
-- Replacement
------------------------------------------------------------

namespace Text

/-
  Every occurrence of a pattern is replaced: from left to
  right, and none that overlaps one before it.
-/
inductive Replaces
    (pattern : List Char)
    (value : List Char) : List Char → List Char → Prop where
  | nil :
      Replaces pattern value [] []
  | occurrence
      {rest result : List Char}
      (hRest : Replaces pattern value rest result) :
      Replaces pattern value (pattern ++ rest) (value ++ result)
  | char
      {c : Char}
      {rest result : List Char}
      (hNone : ¬ pattern <+: c :: rest)
      (hRest : Replaces pattern value rest result) :
      Replaces pattern value (c :: rest) (c :: result)

variable {pattern value : List Char}

/- What belongs to an occurrence is passed over. -/
theorem replaceFrom_append
    (passed rest : List Char) :
    replaceFrom pattern value passed.length (passed ++ rest) =
      replaceAll pattern value rest := by
  induction passed with
  | nil => rfl
  | cons c passed ih =>
      rw [List.length_cons, List.cons_append, replaceFrom]
      exact ih

theorem replaceAll_nil :
    replaceAll pattern value [] = [] := by
  rw [replaceAll, replaceFrom]

theorem replaceAll_pattern_append
    (hPattern : pattern ≠ [])
    (rest : List Char) :
    replaceAll pattern value (pattern ++ rest) =
      value ++ replaceAll pattern value rest := by
  rcases List.exists_cons_of_ne_nil hPattern with
    ⟨c, others, rfl⟩
  have hStart :
      (c :: others).isPrefixOf (c :: (others ++ rest)) = true :=
    List.isPrefixOf_iff_prefix.mpr
      ⟨rest, List.cons_append⟩
  rw [replaceAll, List.cons_append, replaceFrom, if_pos hStart,
    List.length_cons, Nat.add_sub_cancel, replaceFrom_append]

theorem replaceAll_cons
    {c : Char}
    {rest : List Char}
    (hNone : ¬ pattern <+: c :: rest) :
    replaceAll pattern value (c :: rest) =
      c :: replaceAll pattern value rest := by
  rw [replaceAll, replaceFrom,
    if_neg fun hStart => hNone (List.isPrefixOf_iff_prefix.mp hStart)]
  rfl

/- The executable replacement does what it should. -/
theorem replaces_replaceAll
    (hPattern : pattern ≠ [])
    (text : List Char) :
    Replaces pattern value text (replaceAll pattern value text) := by
  induction hLength : text.length using Nat.strong_induction_on
    generalizing text with
  | h length ih =>
      cases text with
      | nil =>
          rw [replaceAll_nil]
          exact .nil
      | cons c rest =>
          by_cases hStart : pattern <+: c :: rest
          · rcases hStart with ⟨after, hText⟩
            have hShorter : after.length < length := by
              have hPositive := List.length_pos_iff.mpr hPattern
              rw [← hLength, ← hText, List.length_append]
              omega
            rw [← hText, replaceAll_pattern_append hPattern]
            exact .occurrence (ih after.length hShorter after rfl)
          · rw [replaceAll_cons hStart]
            exact .char hStart
              (ih rest.length (by simp [← hLength]) rest rfl)

/- A part of a text in which no occurrence starts is kept. -/
theorem replaceAll_append
    {part rest : List Char}
    (hNone :
      ∀ before after, part = before ++ after → after ≠ [] →
        ¬ pattern <+: after ++ rest) :
    replaceAll pattern value (part ++ rest) =
      part ++ replaceAll pattern value rest := by
  induction part with
  | nil => rfl
  | cons c part ih =>
      have hHere : ¬ pattern <+: c :: (part ++ rest) :=
        hNone [] (c :: part) rfl (List.cons_ne_nil _ _)
      have hLater :
          replaceAll pattern value (part ++ rest) =
            part ++ replaceAll pattern value rest := by
        refine ih fun before after hPart => ?_
        exact hNone (c :: before) after (by rw [hPart]; rfl)
      rw [List.cons_append, replaceAll_cons hHere, hLater]
      rfl

end Text

------------------------------------------------------------
-- One Pass
------------------------------------------------------------

namespace Environment

variable {text : List Char}
variable {p : Placeholder}
variable {piece : Piece}

/-
  One pass over a text from left to right: each placeholder
  is exchanged for its value, and everything else is kept.
-/
inductive OnePass
    (e : Environment) : List Char → List Char → Prop where
  | nil :
      OnePass e [] []
  | placeholder
      {p : Placeholder}
      {value rest result : List Char}
      (hForm : p.WellFormed)
      (hValue : p.value? e = some value)
      (hRest : OnePass e rest result) :
      OnePass e (p.text ++ rest) (value ++ result)
  | char
      {c : Char}
      {rest result : List Char}
      (hNone :
        ∀ p : Placeholder, p.WellFormed → ¬ p.text <+: c :: rest)
      (hRest : OnePass e rest result) :
      OnePass e (c :: rest) (c :: result)

/-
  Placeholders replaced in turn, each wherever its text
  stands.
-/
inductive InTurn
    (e : Environment) :
    List Placeholder → List Char → List Char → Prop where
  | nil
      (text : List Char) :
      InTurn e [] text text
  | cons
      {p : Placeholder}
      {others : List Placeholder}
      {value text changed result : List Char}
      (hValue : p.value? e = some value)
      (hReplaces : Text.Replaces p.text value text changed)
      (hOthers : InTurn e others changed result) :
      InTurn e (p :: others) text result

variable {e : Environment}

theorem inTurn_of_foldlM
    {placeholders : List Placeholder}
    {result : List Char}
    (hFold :
      placeholders.foldlM e.substituteOne text = .ok result) :
    InTurn e placeholders text result := by
  induction placeholders generalizing text with
  | nil =>
      cases hFold
      exact .nil result
  | cons p others ih =>
      rw [List.foldlM_cons] at hFold
      rcases bind_eq_ok_iff.mp hFold with
        ⟨changed, hFirst, hOthers⟩
      unfold substituteOne at hFirst
      split at hFirst
      · next value hValue =>
          cases hFirst
          exact .cons hValue
            (Text.replaces_replaceAll p.text_ne_nil text)
            (ih hOthers)
      · cases hFirst

------------------------------------------------------------
-- A Part of the Placeholders
------------------------------------------------------------

/- A piece after some placeholders have been replaced. -/
def piecePartly
    (e : Environment)
    (done : List Placeholder) : Piece → List Char
  | .char c => [c]
  | .placeholder p =>
      if p ∈ done then (p.value? e).getD [] else p.text

/- A text in pieces after some placeholders have been replaced. -/
def partly
    (e : Environment)
    (done : List Placeholder)
    (pieces : List Piece) : List Char :=
  pieces.flatMap (e.piecePartly done)

/-
  The text of a placeholder occurs only where the placeholder
  stands and has not been replaced.
-/
def StandsAlone
    (e : Environment)
    (done : List Placeholder)
    (pieces : List Piece)
    (p : Placeholder) : Prop :=
  ∀ before after,
    e.partly done pieces = before ++ (p.text ++ after) →
    p ∉ done ∧
      ∃ first second,
        pieces = first ++ .placeholder p :: second ∧
          before = e.partly done first

/- That is so for each placeholder when its turn comes. -/
def Undisturbed
    (e : Environment)
    (text : List Char) : Prop :=
  ∀ pieces, Pieces text pieces →
    ∀ done p others,
      Piece.placeholders pieces = done ++ p :: others →
      e.StandsAlone done pieces p

variable {done : List Placeholder}
variable {pieces : List Piece}

theorem piecePartly_of_mem
    (hDone : p ∈ done) :
    e.piecePartly done (.placeholder p) = (p.value? e).getD [] :=
  if_pos hDone

theorem piecePartly_of_not_mem
    (hPending : p ∉ done) :
    e.piecePartly done (.placeholder p) = p.text :=
  if_neg hPending

theorem partly_append
    (first second : List Piece) :
    e.partly done (first ++ second) =
      e.partly done first ++ e.partly done second :=
  List.flatMap_append

theorem partly_cons
    (piece : Piece)
    (rest : List Piece) :
    e.partly done (piece :: rest) =
      e.piecePartly done piece ++ e.partly done rest :=
  List.flatMap_cons

/- A text in which nothing has been replaced. -/
theorem partly_nil_of_pieces
    (hPieces : Pieces text pieces) :
    e.partly [] pieces = text := by
  induction hPieces with
  | nil => rfl
  | placeholder hForm _ ih =>
      rw [partly_cons, ih]
      rfl
  | char hNone _ ih =>
      rw [partly_cons, ih]
      rfl

/- A text in which everything has been replaced. -/
theorem onePass_partly
    (hPieces : Pieces text pieces)
    (hDone : ∀ p ∈ Piece.placeholders pieces, p ∈ done)
    (hValues :
      ∀ p ∈ Piece.placeholders pieces,
        ∃ value, p.value? e = some value) :
    OnePass e text (e.partly done pieces) := by
  induction hPieces with
  | nil => exact .nil
  | @placeholder p rest pieces hForm _ ih =>
      have hMem : p ∈ Piece.placeholders (.placeholder p :: pieces) :=
        List.mem_cons_self
      have hLater :
          ∀ q ∈ Piece.placeholders pieces,
            q ∈ Piece.placeholders (.placeholder p :: pieces) :=
        fun q hq => List.mem_cons_of_mem p hq
      rcases hValues p hMem with ⟨value, hValue⟩
      have hPiece :
          e.piecePartly done (.placeholder p) = value := by
        rw [piecePartly_of_mem (hDone p hMem), hValue]
        rfl
      rw [partly_cons, hPiece]
      exact .placeholder hForm hValue
        (ih (fun q hq => hDone q (hLater q hq))
          fun q hq => hValues q (hLater q hq))
  | char hNone _ ih =>
      rw [partly_cons]
      exact .char hNone (ih hDone hValues)

/-
  If a placeholder starts inside a piece, it is that piece.
-/
theorem eq_of_split
    (hPending : p ∉ done)
    {first second first' second' : List Piece}
    {before : List Char}
    (hPieces : first ++ piece :: second =
      first' ++ .placeholder p :: second')
    (hBefore :
      e.partly done first' = e.partly done first ++ before)
    (hInside : before.length < (e.piecePartly done piece).length) :
    piece = .placeholder p := by
  rcases List.append_eq_append_iff.mp hPieces with
    ⟨between, rfl, hBetween⟩ | ⟨between, rfl, hBetween⟩
  · cases between with
    | nil => exact (List.cons.inj hBetween).1
    | cons other between =>
        cases (List.cons.inj hBetween).1
        -- The piece stands before the placeholder as a whole.
        have hLength := congrArg List.length hBefore
        simp only [partly_append, partly_cons, List.length_append]
          at hLength
        omega
  · cases between with
    | nil => exact (List.cons.inj hBetween).1.symm
    | cons other between =>
        cases (List.cons.inj hBetween).1
        -- The placeholder stands before the piece.
        have hLength := congrArg List.length hBefore
        have hPositive := List.length_pos_iff.mpr p.text_ne_nil
        simp only [partly_append, partly_cons, List.length_append,
          piecePartly_of_not_mem hPending] at hLength
        omega

/- A piece that is not replaced next stays as it is. -/
theorem piecePartly_snoc
    (hOther : piece = .placeholder p → p ∈ done) :
    e.piecePartly (done ++ [p]) piece =
      e.piecePartly done piece := by
  cases piece with
  | char c => rfl
  | placeholder q =>
      have hSame : q ∈ done ++ [p] ↔ q ∈ done := by
        rw [List.mem_append, List.mem_singleton]
        constructor
        · rintro (hDone | rfl)
          · exact hDone
          · exact hOther rfl
        · exact Or.inl
      simp only [piecePartly, hSame]

/-
  Replacing a placeholder that stands alone changes its own
  pieces and no others.
-/
theorem replaceAll_partly
    {value : List Char}
    (hValue : p.value? e = some value)
    (hAlone : e.StandsAlone done pieces p) :
    Text.replaceAll p.text value (e.partly done pieces) =
      e.partly (done ++ [p]) pieces := by
  have hSuffix :
      ∀ first second, pieces = first ++ second →
        Text.replaceAll p.text value (e.partly done second) =
          e.partly (done ++ [p]) second := by
    intro first second hPieces
    induction second generalizing first with
    | nil => exact Text.replaceAll_nil
    | cons piece second ih =>
        have hRest :=
          ih (first ++ [piece]) (by rw [hPieces]; simp)
        rw [partly_cons, partly_cons]
        by_cases hPending : piece = .placeholder p ∧ p ∉ done
        · rcases hPending with ⟨rfl, hPending⟩
          rw [piecePartly_of_not_mem hPending,
            piecePartly_of_mem (by simp), hValue, Option.getD_some,
            Text.replaceAll_pattern_append p.text_ne_nil, hRest]
        · have hOther : piece = .placeholder p → p ∈ done :=
            fun hSame => by
              by_contra hNot
              exact hPending ⟨hSame, hNot⟩
          rw [piecePartly_snoc hOther, ← hRest]
          refine Text.replaceAll_append ?_
          rintro before after hPart hAfter ⟨left, hStart⟩
          have hOccurs :
              e.partly done pieces =
                (e.partly done first ++ before) ++
                  (p.text ++ left) := by
            rw [hStart, hPieces, partly_append, partly_cons,
              hPart]
            simp
          rcases hAlone _ _ hOccurs with
            ⟨hNot, first', second', hSplit, hBefore⟩
          have hInside :
              before.length < (e.piecePartly done piece).length := by
            have hPositive := List.length_pos_iff.mpr hAfter
            rw [hPart, List.length_append]
            omega
          exact hPending ⟨eq_of_split hNot (hPieces ▸ hSplit)
            hBefore.symm hInside, hNot⟩
  exact hSuffix [] pieces rfl

/- Replacing placeholders that stand alone in turn. -/
theorem foldlM_partly
    {others : List Placeholder}
    (hAlone :
      ∀ before p after, others = before ++ p :: after →
        e.StandsAlone (done ++ before) pieces p)
    {result : List Char}
    (hFold :
      others.foldlM e.substituteOne (e.partly done pieces) =
        .ok result) :
    (∀ p ∈ others, ∃ value, p.value? e = some value) ∧
      result = e.partly (done ++ others) pieces := by
  induction others generalizing done with
  | nil =>
      cases hFold
      exact ⟨nofun, by rw [List.append_nil]⟩
  | cons p others ih =>
      rw [List.foldlM_cons] at hFold
      rcases bind_eq_ok_iff.mp hFold with
        ⟨changed, hFirst, hOthers⟩
      unfold substituteOne at hFirst
      split at hFirst
      · next value hValue =>
          have hHere : e.StandsAlone done pieces p := by
            simpa using hAlone [] p others rfl
          cases hFirst
          rw [replaceAll_partly hValue hHere] at hOthers
          have hLater :
              ∀ before q after, others = before ++ q :: after →
                e.StandsAlone (done ++ [p] ++ before) pieces q := by
            intro before q after hSplit
            have hNext := hAlone (p :: before) q after (by rw [hSplit]; rfl)
            simpa using hNext
          rcases ih hLater hOthers with ⟨hValues, hResult⟩
          refine ⟨?_, by simpa using hResult⟩
          intro q hMem
          rcases List.mem_cons.mp hMem with rfl | hRest
          · exact ⟨value, hValue⟩
          · exact hValues q hRest
      · cases hFirst

------------------------------------------------------------
-- Dollar Signs
------------------------------------------------------------

/-
  Every dollar sign of a text starts a placeholder, and no
  value holds one.
-/
def DollarsStart
    (e : Environment)
    (text : List Char) : Prop :=
  text.count '$' = (Placeholder.findAll text).length ∧
    ∀ p ∈ Placeholder.findAll text, '$' ∉ (p.value? e).getD []

theorem count_dollar_text
    (p : Placeholder) :
    p.text.count '$' = (p.name ++ p.ending).count '$' + 1 := by
  rw [Placeholder.text_eq, List.count_cons_self,
    List.count_cons_of_ne (by decide)]

/- There are as many dollar signs as placeholders, or more. -/
theorem length_placeholders_le
    (hPieces : Pieces text pieces) :
    (Piece.placeholders pieces).length ≤ text.count '$' := by
  induction hPieces with
  | nil => exact Nat.le_refl 0
  | @placeholder p rest pieces _ _ ih =>
      have hCount := count_dollar_text p
      change (Piece.placeholders pieces).length + 1 ≤ _
      rw [List.count_append]
      omega
  | @char c rest pieces _ _ ih =>
      change (Piece.placeholders pieces).length ≤ _
      rw [List.count_cons]
      omega

/- If there are no more, they stand nowhere else. -/
theorem not_dollar_of_count
    (hPieces : Pieces text pieces)
    (hCount : text.count '$' = (Piece.placeholders pieces).length) :
    .char '$' ∉ pieces ∧
      ∀ p, .placeholder p ∈ pieces → '$' ∉ p.name ++ p.ending := by
  induction hPieces with
  | nil => exact ⟨by simp, by simp⟩
  | @placeholder p rest pieces _ hRest ih =>
      change _ = (Piece.placeholders pieces).length + 1 at hCount
      have hText := count_dollar_text p
      have hLess := length_placeholders_le hRest
      rw [List.count_append] at hCount
      have hInside : (p.name ++ p.ending).count '$' = 0 := by omega
      rcases ih (by omega) with ⟨hChar, hOthers⟩
      refine ⟨by simpa using hChar, ?_⟩
      intro q hMem
      rcases List.mem_cons.mp hMem with hSame | hLater
      · cases hSame
        exact List.count_eq_zero.mp hInside
      · exact hOthers q hLater
  | @char c rest pieces _ hRest ih =>
      change _ = (Piece.placeholders pieces).length at hCount
      have hLess := length_placeholders_le hRest
      have hNe : c ≠ '$' := by
        rintro rfl
        rw [List.count_cons_self] at hCount
        omega
      rw [List.count_cons_of_ne hNe] at hCount
      rcases ih hCount with ⟨hChar, hOthers⟩
      refine ⟨?_, ?_⟩
      · simpa [hChar] using fun hSame => hNe hSame.symm
      · intro q hMem
        rcases List.mem_cons.mp hMem with hSame | hLater
        · cases hSame
        · exact hOthers q hLater

/- A piece holds a dollar sign only at its start. -/
theorem eq_nil_of_dollar
    (hChar : piece ≠ .char '$')
    (hPlaceholder :
      ∀ p, piece = .placeholder p →
        '$' ∉ p.name ++ p.ending ∧ '$' ∉ (p.value? e).getD [])
    {before between : List Char}
    (hPiece : e.piecePartly done piece = before ++ '$' :: between) :
    before = [] ∧
      ∃ p, piece = .placeholder p ∧ p ∉ done ∧
        p.text = '$' :: between := by
  have hMem : '$' ∈ e.piecePartly done piece := by
    rw [hPiece]
    simp
  cases piece with
  | char c =>
      have hSame : '$' = c := List.mem_singleton.mp hMem
      exact absurd (congrArg Piece.char hSame.symm) hChar
  | placeholder p =>
      rcases hPlaceholder p rfl with ⟨hText, hValue⟩
      by_cases hDone : p ∈ done
      · rw [piecePartly_of_mem hDone] at hMem
        exact absurd hMem hValue
      · rw [piecePartly_of_not_mem hDone] at hPiece
        have hStart := p.text_eq
        cases before with
        | nil => exact ⟨rfl, p, rfl, hDone, hPiece⟩
        | cons c before =>
            rw [hPiece, List.cons_append] at hStart
            have hTail := (List.cons.inj hStart).2
            have hInside :
                '$' ∈ '\x7b' :: (p.name ++ p.ending) := by
              rw [← hTail]
              simp
            rcases List.mem_cons.mp hInside with hBrace | hRest
            · exact absurd hBrace (by decide)
            · exact absurd hRest hText

/-
  A dollar sign that is left starts a placeholder that has
  not been replaced.
-/
theorem exists_placeholder_of_dollar
    (hChar : .char '$' ∉ pieces)
    (hPlaceholders :
      ∀ p, .placeholder p ∈ pieces →
        '$' ∉ p.name ++ p.ending ∧ '$' ∉ (p.value? e).getD [])
    {before rest : List Char}
    (hText : e.partly done pieces = before ++ '$' :: rest) :
    ∃ first p second,
      pieces = first ++ .placeholder p :: second ∧
        p ∉ done ∧
        before = e.partly done first ∧
        '$' :: rest = p.text ++ e.partly done second := by
  induction pieces generalizing before with
  | nil => simp [partly] at hText
  | cons piece pieces ih =>
      rw [partly_cons] at hText
      have hLater :
          ∀ between,
            e.partly done pieces = between ++ '$' :: rest →
            before = e.piecePartly done piece ++ between →
            ∃ first p second,
              piece :: pieces = first ++ .placeholder p :: second ∧
                p ∉ done ∧
                before = e.partly done first ∧
                '$' :: rest = p.text ++ e.partly done second := by
        intro between hRest hBefore
        have hFound :=
          ih (fun hMem => hChar (List.mem_cons_of_mem piece hMem))
            (fun p hMem =>
              hPlaceholders p (List.mem_cons_of_mem piece hMem))
            hRest
        rcases hFound with
          ⟨first, p, second, rfl, hPending, rfl, hStart⟩
        exact ⟨piece :: first, p, second, rfl, hPending,
          by rw [hBefore, partly_cons], hStart⟩
      rcases List.append_eq_append_iff.mp hText with
        ⟨between, hBefore, hRest⟩ | ⟨between, hPiece, hRest⟩
      · exact hLater between hRest hBefore
      · cases between with
        | nil =>
            exact hLater [] hRest.symm (by simpa using hPiece.symm)
        | cons c between =>
            -- The dollar sign stands in the piece itself.
            cases hRest
            have hFound :=
              eq_nil_of_dollar
                (fun hSame => hChar (hSame ▸ List.mem_cons_self))
                (fun p hSame =>
                  hPlaceholders p (hSame ▸ List.mem_cons_self))
                hPiece
            rcases hFound with ⟨rfl, p, rfl, hPending, hStart⟩
            exact ⟨[], p, pieces, rfl, hPending, rfl, by rw [hStart]; rfl⟩

/- Then no placeholder is found where it does not stand. -/
theorem undisturbed_of_dollars
    (hDollars : e.DollarsStart text) :
    e.Undisturbed text := by
  intro pieces hPieces done p others hSplit before after hOccurs
  rcases hDollars with ⟨hCount, hValues⟩
  rw [hPieces.findAll_eq] at hCount hValues
  rcases not_dollar_of_count hPieces hCount with
    ⟨hChar, hTexts⟩
  have hPlaceholders :
      ∀ q, .placeholder q ∈ pieces →
        '$' ∉ q.name ++ q.ending ∧ '$' ∉ (q.value? e).getD [] :=
    fun q hMem => ⟨hTexts q hMem,
      hValues q (List.mem_filterMap.mpr ⟨_, hMem, rfl⟩)⟩
  have hMem : .placeholder p ∈ pieces := by
    have hListed : p ∈ Piece.placeholders pieces := by
      rw [hSplit]
      simp
    rcases List.mem_filterMap.mp hListed with ⟨piece, hPiece, hSame⟩
    cases piece with
    | char c => cases hSame
    | placeholder q =>
        cases hSame
        exact hPiece
  rw [p.text_eq, List.cons_append] at hOccurs
  rcases exists_placeholder_of_dollar hChar hPlaceholders hOccurs with
    ⟨first, q, second, rfl, hPending, hBefore, hStart⟩
  rw [← List.cons_append, ← p.text_eq] at hStart
  have hSame : p = q :=
    Placeholder.eq_of_append_eq (hPieces.wellFormed hMem)
      (hPieces.wellFormed (by simp)) hStart
  subst hSame
  exact ⟨hPending, first, second, rfl, hBefore⟩

------------------------------------------------------------
-- Substitution
------------------------------------------------------------

/-
  The substitution replaces the placeholders of a text in
  turn.  If none is disturbed, as when dollar signs start
  placeholders and nothing else, it is one pass over the
  text.
-/
theorem substitute_inTurn
    {text result : List Char}
    (hResult : e.substitute text = .ok result) :
    InTurn e (Placeholder.findAll text) text result ∧
      (e.Undisturbed text → OnePass e text result) ∧
      (e.DollarsStart text → e.Undisturbed text) := by
  refine ⟨inTurn_of_foldlM hResult, ?_, undisturbed_of_dollars⟩
  intro hAlone
  rcases exists_pieces text with ⟨pieces, hPieces⟩
  unfold substitute at hResult
  rw [hPieces.findAll_eq, ← partly_nil_of_pieces (e := e) hPieces]
    at hResult
  rcases foldlM_partly (hAlone pieces hPieces) hResult with
    ⟨hValues, hFinal⟩
  rw [hFinal]
  exact onePass_partly hPieces (by simp) hValues

/- A variable that is set, one that is not, and the first one again. -/
theorem substitute_inTurn_directories :
    OnePass ⟨[("A", "/work")]⟩
      "$\x7bA\x7d/$\x7bB:-lib\x7d$\x7bA\x7d".toList
      "/work/lib/work".toList := by
  have hResult :
      substitute ⟨[("A", "/work")]⟩
          "$\x7bA\x7d/$\x7bB:-lib\x7d$\x7bA\x7d".toList =
        .ok "/work/lib/work".toList := by
    decide +kernel
  have hDollars :
      DollarsStart ⟨[("A", "/work")]⟩
        "$\x7bA\x7d/$\x7bB:-lib\x7d$\x7bA\x7d".toList := by
    unfold DollarsStart
    decide +kernel
  rcases substitute_inTurn hResult with ⟨_, hOnePass, hAlone⟩
  exact hOnePass (hAlone hDollars)

/- The value of a variable is read again if it is a later placeholder. -/
example :
    substitute ⟨[("A", "$\x7bB\x7d"), ("B", "bee")]⟩
        "$\x7bA\x7d$\x7bB\x7d".toList =
      .ok "beebee".toList := by
  decide +kernel

end Environment

end Nullary
