import Nullary.Proofs.Token.Cutting.Lexeme

/-
  How gaps and lexemes end.

  A comma is a lexeme of its own, and a blank is a gap of its
  own.  Neither of them is the last of several characters of
  a gap or of a lexeme, unless a comment goes on up to the
  end of its line.

  Main declarations:
    * `EndsAs`
    * `endsAs_of_stable`
    * `Literal.endsAs_length`
    * `Closes`
    * `Gap.closes_length`
    * `Lexeme.closes_first?`
    * `Closes.openLine`
-/

namespace Nullary

variable {text : List Char}
variable {length : Nat}

------------------------------------------------------------
-- Last Characters
------------------------------------------------------------

/- A character that a token before it could go on with. -/
def GoesOn
    (c : Char) : Prop :=
  isIdentifierContinue c = true ∨
    c ∈ ['"', '\'', '#', '.', '+', '-']

/- So many characters of a text end with one that a token goes on with. -/
def EndsAs
    (text : List Char)
    (length : Nat) : Prop :=
  ∃ i c, length = i + 1 ∧ text[i]? = some c ∧ GoesOn c

theorem endsToken_cons
    {c : Char}
    (hChar : ¬ GoesOn c)
    (rest : List Char) :
    EndsToken (c :: rest) := by
  rintro d ⟨⟩
  rw [GoesOn, not_or, Bool.not_eq_true] at hChar
  exact hChar

theorem not_goesOn_of_isBlank
    {c : Char}
    (hBlank : isBlank c = true) :
    ¬ GoesOn c := by
  rintro (hContinue | hSign)
  · rw [isIdentifierContinue_of_isBlank hBlank] at hContinue
    cases hContinue
  · have hSigns : ∀ d ∈ ['"', '\'', '#', '.', '+', '-'], d ∈ signs :=
      forall_mem_of_all (by decide)
    exact not_mem_signs_of_isBlank hBlank (hSigns c hSign)

namespace EndsAs

variable {text : List Char}
variable {length : Nat}

theorem cons
    (hEnds : EndsAs text length)
    (c : Char) :
    EndsAs (c :: text) (length + 1) := by
  rcases hEnds with ⟨i, d, rfl, hChar, hGoes⟩
  exact ⟨i + 1, d, rfl, hChar, hGoes⟩

theorem of_drop
    {count : Nat}
    (hEnds : EndsAs (text.drop count) length) :
    EndsAs text (length + count) := by
  rcases hEnds with ⟨i, d, rfl, hChar, hGoes⟩
  rw [List.getElem?_drop] at hChar
  exact ⟨count + i, d, by omega, hChar, hGoes⟩

end EndsAs

/-
  If a measure does not look behind what ends a token, it
  ends with a character that a token goes on with.
-/
theorem endsAs_of_stable
    {measure : List Char → Option Nat}
    (hStable :
      ∀ text rest, EndsToken rest → measure (text ++ rest) = measure text)
    (hLe : ∀ text length, measure text = some length → length ≤ text.length)
    (hLength : measure text = some length)
    (hPos : 0 < length) :
    EndsAs text length := by
  have hInside := hLe text length hLength
  have hIndex : length - 1 < text.length := by omega
  refine ⟨length - 1, text[length - 1], by omega,
    List.getElem?_eq_getElem hIndex, ?_⟩
  by_contra hChar
  rw [← List.take_append_drop (length - 1) text,
    List.drop_eq_getElem_cons hIndex,
    hStable _ _ (endsToken_cons hChar _)] at hLength
  have hShort := hLe _ length hLength
  rw [List.length_take] at hShort
  omega

theorem endsAs_wordLength
    (hLength : wordLength text = some length) :
    EndsAs text length :=
  endsAs_of_stable (fun text _ hEnds => wordLength_append_of_ends text hEnds)
    (fun _ _ hFound => wordLength_le hFound) hLength
    (wordLength_pos hLength)

------------------------------------------------------------
-- Literals
------------------------------------------------------------

namespace Literal

variable {text : List Char}
variable {length : Nat}
variable {flavour : Flavour}

/- The closing mark of a literal with the suffix after it. -/
theorem endsAs_withSuffix
    {c : Char}
    (hChar : GoesOn c)
    {rest : List Char}
    (hLength : withSuffix rest 1 = some length) :
    EndsAs (c :: rest) length := by
  cases hLength
  unfold suffix
  cases hSuffix : identifierLength rest with
  | none => exact ⟨0, c, rfl, rfl, hChar⟩
  | some found =>
      rw [Option.getD_some, Nat.add_comm]
      refine EndsAs.cons ?_ c
      exact endsAs_of_stable
        (fun text _ hEnds => identifierLength_append_of_ends text hEnds)
        (fun _ _ hFound => identifierLength_le hFound) hSuffix
        (identifierLength_pos hSuffix)

theorem endsAs_cooked
    {state : QuoteState}
    (hCooked : cooked flavour state text = some length) :
    EndsAs text length := by
  induction text generalizing state length with
  | nil => cases hCooked
  | cons c text ih =>
      unfold cooked at hCooked
      split at hCooked
      · next hCloses =>
          rw [Bool.and_eq_true, beq_iff_eq] at hCloses
          rw [hCloses.2]
          exact endsAs_withSuffix (Or.inr (by decide)) hCooked
      · rcases Option.bind_eq_some_iff.mp hCooked with ⟨next, _, hRest⟩
        rcases Option.bind_eq_some_iff.mp hRest with
          ⟨inner, hInner, hPair⟩
        cases hPair
        exact (ih hInner).cons c

/- The hashes that close a raw literal, after its quotation mark. -/
theorem endsAs_hashes
    {hashes : Nat}
    (hHashes :
      (text.take hashes == List.replicate hashes '#') = true)
    (hLength :
      withSuffix (text.drop hashes) (hashes + 1) = some length) :
    EndsAs ('"' :: text) length := by
  induction hashes generalizing text length with
  | zero => exact endsAs_withSuffix (Or.inr (by decide)) hLength
  | succ hashes ih =>
      cases text with
      | nil => cases hHashes
      | cons c text =>
          rw [List.take_succ_cons, List.replicate_succ,
            List.cons_beq_cons, Bool.and_eq_true] at hHashes
          cases hLength
          have hInner := ih hHashes.2 rfl
          rcases hInner with ⟨i, d, hFound, hChar, hGoes⟩
          cases i with
          | zero =>
              refine ⟨1, c, by rw [List.drop_succ_cons]; omega, rfl,
                Or.inr ?_⟩
              rw [eq_of_beq hHashes.1]
              decide
          | succ i =>
              refine ⟨i + 2, d, by rw [List.drop_succ_cons]; omega,
                hChar, hGoes⟩

theorem endsAs_rawBody
    {hashes : Nat}
    (hRaw : rawBody flavour hashes text = some length) :
    EndsAs text length := by
  fun_induction rawBody flavour hashes text generalizing length with
  | case1 => cases hRaw
  | case2 others ih =>
      rcases Option.map_eq_some_iff.mp hRaw with ⟨inner, hInner, rfl⟩
      exact ((ih hInner).cons '\n').cons '\r'
  | case3 c others hReturn hCloses =>
      rw [Bool.and_eq_true, beq_iff_eq] at hCloses
      rw [hCloses.1]
      exact endsAs_hashes hCloses.2 hRaw
  | case4 => cases hRaw
  | case5 c others hReturn hCloses hAllows ih =>
      rcases Option.map_eq_some_iff.mp hRaw with ⟨inner, hInner, rfl⟩
      exact (ih hInner).cons c

theorem endsAs_raw
    (hRaw : raw flavour text = some length) :
    EndsAs text length := by
  simp only [raw] at hRaw
  generalize (text.takeWhile (· == '#')).length = hashes at hRaw
  split at hRaw
  · next body hDrop =>
      split at hRaw
      · cases hRaw
      · rcases Option.map_eq_some_iff.mp hRaw with ⟨inner, hInner, rfl⟩
        have hBody := (endsAs_rawBody hInner).cons '"'
        rw [← hDrop] at hBody
        rw [← Nat.add_assoc, Nat.add_right_comm]
        exact hBody.of_drop
  · cases hRaw

theorem endsAs_string
    (hString : string text = some length) :
    EndsAs text length := by
  unfold string at hString
  split at hString
  case h_7 => cases hString
  all_goals
    rcases Option.map_eq_some_iff.mp hString with ⟨inner, hInner, rfl⟩
    first
    | exact (endsAs_cooked hInner).cons _
    | exact (endsAs_raw hInner).cons _
    | exact ((endsAs_cooked hInner).cons _).cons _
    | exact ((endsAs_raw hInner).cons _).cons _

theorem endsAs_quotedCharacter
    (hQuoted : quotedCharacter flavour text = some length) :
    EndsAs text length := by
  rcases Option.bind_eq_some_iff.mp hQuoted with
    ⟨inner, hInner, hClose⟩
  split at hClose
  · next more hDrop =>
      cases hClose
      have hQuote : EndsAs ('\'' :: more) (1 + suffix more) :=
        endsAs_withSuffix (Or.inr (by decide)) rfl
      rw [← hDrop] at hQuote
      have hEnds := hQuote.of_drop
      rwa [Nat.add_right_comm, Nat.add_comm 1 inner] at hEnds
  · cases hClose

theorem endsAs_character
    (hCharacter : character text = some length) :
    EndsAs text length := by
  unfold character at hCharacter
  split at hCharacter
  · rcases Option.map_eq_some_iff.mp hCharacter with
      ⟨inner, hInner, rfl⟩
    exact (endsAs_quotedCharacter hInner).cons _
  · rcases Option.map_eq_some_iff.mp hCharacter with
      ⟨inner, hInner, rfl⟩
    exact ((endsAs_quotedCharacter hInner).cons _).cons _
  · cases hCharacter

theorem endsAs_length
    (hLength : Literal.length text = some length) :
    EndsAs text length := by
  unfold Literal.length at hLength
  rcases orElse_eq_some_iff.mp hLength with hString | ⟨_, hRest⟩
  · exact endsAs_string hString
  · rcases orElse_eq_some_iff.mp hRest with hCharacter | ⟨_, hNumber⟩
    · exact endsAs_character hCharacter
    · exact endsAs_of_stable
        (fun text _ hEnds => number_append text hEnds)
        (fun _ _ hFound => (number_bounds hFound).2) hNumber
        (number_bounds hNumber).1

end Literal

------------------------------------------------------------
-- Gaps and Lexemes
------------------------------------------------------------

/- A line comment that no line feed ends. -/
def Comment.OpenLine
    (text : List Char) : Prop :=
  (∃ others, text = '/' :: '/' :: others) ∧ '\n' ∉ text

instance :
    DecidablePred Comment.OpenLine :=
  fun text =>
    decidable_of_iff (['/', '/'] <+: text ∧ '\n' ∉ text)
      (by simp [Comment.OpenLine, List.IsPrefix, eq_comm])

/-
  How so many characters of a text end: they are one, or the
  rest of a line after two slashes, or their last one is
  neither a blank nor a comma.
-/
inductive Closes
    (text : List Char)
    (length : Nat) : Prop where
  | single
      (hLength : length = 1)
  | line
      (others : List Char)
      (hText : text = '/' :: '/' :: others)
      (hLength : length = Comment.lineLength text)
  | last
      (i : Nat)
      (c : Char)
      (hLength : length = i + 1)
      (hChar : text[i]? = some c)
      (hBlank : isBlank c = false)
      (hComma : c ≠ ',')

theorem EndsAs.closes
    (hEnds : EndsAs text length) :
    Closes text length := by
  rcases hEnds with ⟨i, c, hLength, hChar, hGoes⟩
  refine .last i c hLength hChar ?_ ?_
  · rw [Bool.eq_false_iff]
    exact fun hBlank => not_goesOn_of_isBlank hBlank hGoes
  · rintro rfl
    rcases hGoes with hContinue | hSign
    · exact absurd hContinue (by decide)
    · exact absurd hSign (by decide)

/- A block comment ends with a slash. -/
theorem Comment.closes_blockLength
    {depth : Nat}
    (hBlock : blockLength depth text = some length) :
    Closes text length := by
  rcases getElem?_of_blockLength hBlock with ⟨hTwo, _, hLast⟩
  exact .last (length - 1) '/' (by omega) hLast (by decide +kernel)
    (by decide)

theorem Gap.closes_length
    (hGap : Gap.length text = some length) :
    Closes text length := by
  rcases Gap.length_cases hGap with
    ⟨_, _, _, _, rfl⟩ | ⟨others, hText, _, hLine⟩ | ⟨_, _, _, hBlock⟩
  · exact .single rfl
  · exact .line others hText hLine
  · exact Comment.closes_blockLength hBlock

namespace Lexeme

variable {text : List Char}
variable {length : Nat}

theorem closes_token?
    {build : Span → TokenTree}
    (hToken : token? text = some (length, build)) :
    Closes text length := by
  cases token?_eq_some_iff.mp hToken with
  | literal hLiteral => exact (Literal.endsAs_length hLiteral).closes
  | lifetime => exact .single rfl
  | mark => exact .single rfl
  | word hLiteral hMark hPlain hWord =>
      exact (endsAs_wordLength hWord).closes

theorem closes_first?
    {build : Span → Lexeme}
    (hFirst : first? text = some (length, build)) :
    Closes text length := by
  cases firstAt_of_first? hFirst with
  | doc hDoc =>
      rcases Comment.doc?_cases hDoc with
        ⟨others, hText, hLine⟩ | ⟨_, _, hBlock⟩
      · exact .line others hText hLine
      · exact Comment.closes_blockLength hBlock
  | error hDoc hError =>
      rcases List.isPrefixOf_iff_prefix.mp hError with ⟨others, rfl⟩
      exact .last 10 ')' rfl rfl (by decide +kernel) (by decide)
  | opening => exact .single rfl
  | closing => exact .single rfl
  | token hToken => exact closes_token? hToken

end Lexeme

/-
  Only a line comment goes on from a text into blanks and
  commas after it.
-/
theorem Closes.openLine
    {tail : List Char}
    (hCloses : Closes (text ++ tail) length)
    (hText : text ≠ [])
    (hTail : ∀ c ∈ tail, isBlank c = true ∨ c = ',')
    (hPast : text.length < length) :
    Comment.OpenLine text := by
  have hSome : 0 < text.length := List.length_pos_iff.mpr hText
  cases hCloses with
  | single hLength => omega
  | line others hStart hLength =>
      have hPrefix : text <+: (text ++ tail).takeWhile (· != '\n') := by
        refine List.prefix_of_prefix_length_le
          (List.prefix_append text tail) (List.takeWhile_prefix _) ?_
        rw [Comment.lineLength] at hLength
        omega
      refine ⟨?_, ?_⟩
      · rcases text with _ | ⟨c, _ | ⟨d, text⟩⟩
        · exact absurd rfl hText
        · cases tail with
          | nil => cases hStart
          | cons d tail =>
              cases hStart
              have hSlash : isBlank '/' = false := by decide +kernel
              rcases hTail '/' List.mem_cons_self with hBlank | hComma
              · rw [hSlash] at hBlank
                cases hBlank
              · exact absurd hComma (by decide)
        · cases hStart
          exact ⟨text, rfl⟩
      · intro hFeed
        have hTaken := List.mem_takeWhile_imp (hPrefix.subset hFeed)
        simp at hTaken
  | last i c hLength hChar hBlank hComma =>
      rw [List.getElem?_append_right (by omega)] at hChar
      rcases hTail c (List.mem_of_getElem? hChar) with hIs | hIs
      · rw [hIs] at hBlank
        cases hBlank
      · exact absurd hIs hComma

end Nullary
