import Nullary.Proofs.Token.Words

/-
  Words and literals that are cut out of a text.

  A token is read by looking at what follows it.  If a piece
  of a text holds a whole word or literal, and what follows
  the piece can belong to no token in it, then it is read off
  the piece in the same way wherever the piece is put.

  Main declarations:
    * `EndsToken`
    * `EndsPiece`
    * `wordLength_append_of_ends`
    * `Literal.number_append`
    * `Literal.length_of_append`
-/

namespace Nullary

variable {rest : List Char}

------------------------------------------------------------
-- What May Follow
------------------------------------------------------------

/- What no token before it can go on into. -/
def EndsToken
    (rest : List Char) : Prop :=
  ∀ c, rest.head? = some c →
    isIdentifierContinue c = false ∧
      c ∉ ['"', '\'', '#', '.', '+', '-']

/- What also makes no comment of the marks before it. -/
structure EndsPiece
    (rest : List Char) : Prop where
  endsToken : EndsToken rest
  head : ∀ c, rest.head? = some c → c ∉ ['/', '*', ')']

theorem endsToken_nil :
    EndsToken [] := by
  intro c hHead
  cases hHead

theorem EndsToken.ne
    (hEnds : EndsToken rest)
    {c d : Char}
    (hHead : rest.head? = some c)
    (hChar :
      isIdentifierContinue d = true ∨
        d ∈ ['"', '\'', '#', '.', '+', '-']) :
    c ≠ d := by
  rintro rfl
  rcases hEnds c hHead with ⟨hContinue, hSign⟩
  rcases hChar with hChar | hChar
  · rw [hChar] at hContinue
    cases hContinue
  · exact hSign hChar

theorem takeWhile_append_of_head
    {test : Char → Bool}
    (text : List Char)
    (hRest : ∀ c, rest.head? = some c → test c = false) :
    (text ++ rest).takeWhile test = text.takeWhile test := by
  induction text with
  | nil =>
      cases rest with
      | nil => rfl
      | cons c others => simp [hRest c rfl]
  | cons c text ih =>
      rw [List.cons_append, List.takeWhile_cons, List.takeWhile_cons, ih]

/- A character that nothing after a token starts with. -/
theorem EndsToken.exists_cons
    {text more : List Char}
    {c : Char}
    (hEnds : EndsToken rest)
    (hText : text ++ rest = c :: more)
    (hChar :
      isIdentifierContinue c = true ∨
        c ∈ ['"', '\'', '#', '.', '+', '-']) :
    ∃ others, text = c :: others ∧ more = others ++ rest := by
  cases text with
  | nil =>
      rw [List.nil_append] at hText
      exact absurd rfl (hEnds.ne (by rw [hText]; rfl) hChar)
  | cons d others =>
      cases hText
      exact ⟨others, rfl, rfl⟩

/- A start that the rest can not go on with stands in the text. -/
theorem prefix_of_prefix_append
    {start text : List Char}
    (hRest : ∀ c ∈ start, rest.head? ≠ some c)
    (hStart : start <+: text ++ rest) :
    start <+: text := by
  induction start generalizing text with
  | nil => exact List.nil_prefix
  | cons s start ih =>
      rw [List.forall_mem_cons] at hRest
      cases text with
      | nil =>
          rcases hStart with ⟨more, hMore⟩
          rw [List.nil_append] at hMore
          rw [← hMore] at hRest
          exact absurd rfl hRest.1
      | cons c text =>
          rw [List.cons_append, List.cons_prefix_cons] at hStart
          rw [List.cons_prefix_cons]
          exact ⟨hStart.1, ih hRest.2 hStart.2⟩

------------------------------------------------------------
-- Words
------------------------------------------------------------

section Words

variable {rest : List Char}
variable {text : List Char}
variable {length : Nat}

theorem isIdentifierStart_of_ends
    {c : Char}
    (hEnds : EndsToken (c :: rest)) :
    isIdentifierStart c = false := by
  rw [Bool.eq_false_iff]
  intro hStart
  have hFalse := (hEnds c rfl).1
  rw [isIdentifierContinue_of_start hStart] at hFalse
  cases hFalse

theorem identifierLength_append_of_ends
    (text : List Char)
    (hEnds : EndsToken rest) :
    identifierLength (text ++ rest) = identifierLength text := by
  have hContinue :
      ∀ c, rest.head? = some c → isIdentifierContinue c = false :=
    fun c hHead => (hEnds c hHead).1
  cases text with
  | nil =>
      cases rest with
      | nil => rfl
      | cons c others =>
          simp [identifierLength, isIdentifierStart_of_ends hEnds]
  | cons c text =>
      simp only [List.cons_append, identifierLength,
        takeWhile_append_of_head text hContinue]

/- A word without the raw sign. -/
theorem wordLength_eq_identifierLength
    (hPlain : ∀ others, text ≠ 'r' :: '#' :: others) :
    wordLength text = identifierLength text := by
  unfold wordLength
  split
  · exact absurd rfl (hPlain _)
  · rfl

theorem wordLength_append_of_ends
    (text : List Char)
    (hEnds : EndsToken rest) :
    wordLength (text ++ rest) = wordLength text := by
  by_cases hRaw : ∃ others, text = 'r' :: '#' :: others
  · rcases hRaw with ⟨others, rfl⟩
    rw [List.cons_append, List.cons_append, wordLength, wordLength,
      identifierLength_append_of_ends others hEnds]
    cases hLength : identifierLength others with
    | none => rfl
    | some length =>
        have hTake :
            (others ++ rest).take length = others.take length :=
          List.take_append_of_le_length (identifierLength_le hLength)
        simp [hTake]
  · have hText : ∀ others, text ≠ 'r' :: '#' :: others :=
      fun others hEq => hRaw ⟨others, hEq⟩
    have hBoth : ∀ others, text ++ rest ≠ 'r' :: '#' :: others := by
      intro others hEq
      cases text with
      | nil =>
          exact hEnds.ne (by rw [← List.nil_append rest, hEq]; rfl)
            (Or.inl (by decide)) rfl
      | cons c text =>
          cases text with
          | nil =>
              rw [List.cons_append, List.nil_append,
                List.cons.injEq] at hEq
              exact hEnds.ne (by rw [hEq.2]; rfl)
                (Or.inr (by decide)) rfl
          | cons d text =>
              rw [List.cons_append, List.cons_append, List.cons.injEq,
                List.cons.injEq] at hEq
              exact hText text (by rw [hEq.1, hEq.2.1])
    rw [wordLength_eq_identifierLength hText,
      wordLength_eq_identifierLength hBoth,
      identifierLength_append_of_ends text hEnds]

theorem wordLength_le
    (hLength : wordLength text = some length) :
    length ≤ text.length := by
  unfold wordLength at hLength
  split at hLength
  · rcases Option.bind_eq_some_iff.mp hLength with
      ⟨inner, hInner, hFound⟩
    dsimp only at hFound
    split at hFound <;> cases hFound
    have hLe := identifierLength_le hInner
    rw [List.length_cons, List.length_cons]
    omega
  · exact identifierLength_le hLength

theorem startsLikeLiteral_append_of_ends
    (hText : text ≠ [])
    (hEnds : EndsToken rest)
    (hPlain : startsLikeLiteral text = false) :
    startsLikeLiteral (text ++ rest) = false := by
  have hSigns :
      ∀ start ∈ literalStarts,
        ∃ c tail, start = c :: tail ∧
          ∀ d ∈ tail, isIdentifierContinue d = true ∨
            d ∈ ['"', '\'', '#', '.', '+', '-'] := by
    simp only [literalStarts, List.forall_mem_cons, List.not_mem_nil,
      false_implies, implies_true, and_true]
    refine ⟨?_, ?_, ?_, ?_, ?_, ?_, ?_, ?_, ?_, ?_⟩
    all_goals exact ⟨_, _, rfl, forall_mem_of_all (by decide)⟩
  rw [Bool.eq_false_iff] at hPlain ⊢
  intro hStarts
  apply hPlain
  rcases startsLikeLiteral_iff.mp hStarts with ⟨start, hMem, hStart⟩
  refine startsLikeLiteral_iff.mpr ⟨start, hMem, ?_⟩
  rcases hSigns start hMem with ⟨c, tail, rfl, hTail⟩
  cases text with
  | nil => exact absurd rfl hText
  | cons d text =>
      rw [List.cons_append, List.cons_prefix_cons] at hStart
      rw [List.cons_prefix_cons]
      refine ⟨hStart.1, prefix_of_prefix_append ?_ hStart.2⟩
      intro e hTailMem hHead
      exact hEnds.ne hHead (hTail e hTailMem) rfl

theorem startsLikeLiteral_of_append
    (hPlain : startsLikeLiteral (text ++ rest) = false) :
    startsLikeLiteral text = false := by
  rw [Bool.eq_false_iff] at hPlain ⊢
  intro hStarts
  rcases startsLikeLiteral_iff.mp hStarts with ⟨start, hMem, hStart⟩
  exact hPlain (startsLikeLiteral_iff.mpr
    ⟨start, hMem, hStart.trans (List.prefix_append text rest)⟩)

/- What stands after a part that lies in a text. -/
theorem drop_append_of_le
    (hLength : length ≤ text.length) :
    (text ++ rest).drop length = text.drop length ++ rest :=
  List.drop_append_of_le_length hLength

theorem Lexeme.startsLifetime_append_of_ends
    (text : List Char)
    (hEnds : EndsToken rest) :
    startsLifetime (text ++ rest) = startsLifetime text := by
  unfold startsLifetime
  rw [wordLength_append_of_ends text hEnds]
  cases hLength : wordLength text with
  | none => rfl
  | some length =>
      have hPos := wordLength_pos hLength
      dsimp only
      rw [drop_append_of_le (wordLength_le hLength)]
      cases hDrop : text.drop length with
      | nil =>
          rw [List.nil_append]
          split
          · next more =>
              exact absurd rfl (hEnds.ne rfl (Or.inr (by decide)))
          · next more =>
              exact absurd rfl (hEnds.ne rfl (Or.inr (by decide)))
          · rfl
      | cons c more =>
          have hLong : 2 ≤ text.length := by
            have hMore := congrArg List.length hDrop
            rw [List.length_drop, List.length_cons] at hMore
            omega
          rw [List.cons_append,
            List.take_append_of_le_length hLong]
          split
          · next hEq =>
              cases hEq
              rfl
          · next hEq =>
              cases hEq
              rfl
          · next hTick hHash =>
              split
              · next hEq =>
                  cases hEq
                  exact absurd rfl (hTick _)
              · next hEq =>
                  cases hEq
                  exact absurd rfl (hHash _)
              · rfl

end Words

------------------------------------------------------------
-- Numbers
------------------------------------------------------------

namespace Literal

variable {text rest : List Char}
variable {length : Nat}
variable {c : Char}
variable {state : QuoteState}
variable {hashes found : Nat}

theorem hexDigitValue_eq_none
    (hContinue : isIdentifierContinue c = false) :
    hexDigitValue c = none := by
  cases hValue : hexDigitValue c with
  | none => rfl
  | some digit =>
      have hCode : c.toNat < 103 := by
        unfold hexDigitValue at hValue
        simp only [Char.le_def, UInt32.le_iff_toNat_le] at hValue
        split at hValue
        · next hRange => exact Nat.lt_of_le_of_lt hRange.2 (by decide)
        · split at hValue
          · next hRange => exact Nat.lt_of_le_of_lt hRange.2 (by decide)
          · split at hValue
            · next hRange =>
                exact Nat.lt_of_le_of_lt hRange.2 (by decide)
            · cases hValue
      have hAll :
          ∀ code < 103, isIdentifierContinue (Char.ofNat code) = false →
            hexDigitValue (Char.ofNat code) = none := by
        decide
      have hNone := hAll c.toNat hCode
      rw [Char.ofNat_toNat] at hNone
      rw [hNone hContinue] at hValue
      cases hValue

theorem isDecimal_eq_false
    (hContinue : isIdentifierContinue c = false) :
    isDecimal c = false := by
  rw [Bool.eq_false_iff]
  intro hDecimal
  have hCode : c.toNat < 96 := by
    rcases Bool.or_eq_true_iff.mp hDecimal with hDigit | hLow
    · have hRange : 48 ≤ c.toNat ∧ c.toNat ≤ 57 := by
        simpa [Char.isDigit, UInt32.le_iff_toNat_le] using hDigit
      omega
    · rw [eq_of_beq hLow]
      decide
  have hAll :
      ∀ code < 96, isIdentifierContinue (Char.ofNat code) = false →
        isDecimal (Char.ofNat code) = false := by
    decide
  have hFalse := hAll c.toNat hCode
  rw [Char.ofNat_toNat] at hFalse
  rw [hFalse hContinue] at hDecimal
  cases hDecimal

theorem mantissa_append
    (point : Bool)
    (text : List Char)
    (hEnds : EndsToken rest) :
    mantissa point (text ++ rest) = mantissa point text := by
  induction text generalizing point with
  | nil =>
      cases rest with
      | nil => rfl
      | cons c others =>
          have hDot := hEnds.ne (d := '.') rfl (Or.inr (by decide))
          have hLow := hEnds.ne (d := 'e') rfl (Or.inl (by decide))
          have hHigh := hEnds.ne (d := 'E') rfl (Or.inl (by decide))
          have hDigit := isDecimal_eq_false (hEnds c rfl).1
          simp [mantissa, hDigit, hDot, hLow, hHigh]
  | cons c text ih =>
      have hNext :
          ((text ++ rest).head?.any fun d =>
              d == '.' || isIdentifierStart d) =
            (text.head?.any fun d =>
              d == '.' || isIdentifierStart d) := by
        cases text with
        | nil =>
            cases rest with
            | nil => rfl
            | cons d others =>
                have hDot := hEnds.ne (d := '.') rfl (Or.inr (by decide))
                have hStart := isIdentifierStart_of_ends hEnds
                simp [hDot, hStart]
        | cons d others => rfl
      simp only [List.cons_append, mantissa, ih, hNext]

theorem exponent_append
    (signed valued : Bool)
    (text : List Char)
    (hEnds : EndsToken rest) :
    exponent signed valued (text ++ rest) =
      exponent signed valued text := by
  induction text generalizing signed valued with
  | nil =>
      cases rest with
      | nil => rfl
      | cons c others =>
          have hPlus := hEnds.ne (d := '+') rfl (Or.inr (by decide))
          have hMinus := hEnds.ne (d := '-') rfl (Or.inr (by decide))
          have hDecimal := isDecimal_eq_false (hEnds c rfl).1
          rw [isDecimal, Bool.or_eq_false_iff,
            beq_eq_false_iff_ne] at hDecimal
          simp [exponent, hPlus, hMinus, hDecimal]
  | cons c text ih => simp only [List.cons_append, exponent, ih]

theorem floatDigits_append
    (text : List Char)
    (hEnds : EndsToken rest) :
    floatDigits (text ++ rest) = floatDigits text := by
  cases text with
  | nil =>
      cases rest with
      | nil => rfl
      | cons c others =>
          have hDecimal := isDecimal_eq_false (hEnds c rfl).1
          rw [isDecimal, Bool.or_eq_false_iff] at hDecimal
          simp [floatDigits, hDecimal.1]
  | cons c text =>
      simp only [List.cons_append, floatDigits,
        mantissa_append false text hEnds]
      cases hMantissa : mantissa false text with
      | none => rfl
      | some found =>
          rcases found with ⟨length, point, marked⟩
          simp only [Option.bind_eq_bind, Option.bind_some,
            drop_append_of_le (mantissa_bounds hMantissa).2,
            exponent_append _ _ _ hEnds]

theorem digitRun_append
    (base : Nat)
    (empty : Bool)
    (text : List Char)
    (hEnds : EndsToken rest) :
    digitRun base empty (text ++ rest) = digitRun base empty text := by
  induction text generalizing empty with
  | nil =>
      cases rest with
      | nil => rfl
      | cons c others =>
          have hLow := hEnds.ne (d := '_') rfl (Or.inl (by decide))
          have hHex := hexDigitValue_eq_none (hEnds c rfl).1
          simp [digitRun, hLow, hHex]
  | cons c text ih => simp only [List.cons_append, digitRun, ih]

/- The letters that name a base. -/
def baseLetters : List Char :=
  ['x', 'o', 'b']

theorem integerDigits_eq_digitRun
    (hDecimal :
      ∀ c others, text = '0' :: c :: others → c ∉ baseLetters) :
    integerDigits text = digitRun 10 true text := by
  unfold integerDigits
  split
  · exact absurd (by decide) (hDecimal 'x' _ rfl)
  · exact absurd (by decide) (hDecimal 'o' _ rfl)
  · exact absurd (by decide) (hDecimal 'b' _ rfl)
  · rfl

theorem integerDigits_append
    (text : List Char)
    (hEnds : EndsToken rest) :
    integerDigits (text ++ rest) = integerDigits text := by
  by_cases hBase :
      ∃ c others, text = '0' :: c :: others ∧ c ∈ baseLetters
  · rcases hBase with ⟨c, others, rfl, hLetter⟩
    simp only [baseLetters, List.mem_cons, List.not_mem_nil,
      or_false] at hLetter
    rcases hLetter with rfl | rfl | rfl <;>
      simp only [List.cons_append, integerDigits,
        digitRun_append _ _ _ hEnds]
  · have hText :
        ∀ c others, text = '0' :: c :: others → c ∉ baseLetters :=
      fun c others hEq hLetter => hBase ⟨c, others, hEq, hLetter⟩
    have hLetters :
        ∀ c ∈ baseLetters, isIdentifierContinue c = true :=
      forall_mem_of_all (by decide)
    have hBoth :
        ∀ c others, text ++ rest = '0' :: c :: others →
          c ∉ baseLetters := by
      intro c others hEq hLetter
      cases text with
      | nil =>
          exact hEnds.ne (by rw [← List.nil_append rest, hEq]; rfl)
            (Or.inl (by decide)) rfl
      | cons d text =>
          cases text with
          | nil =>
              rw [List.cons_append, List.nil_append,
                List.cons.injEq] at hEq
              exact hEnds.ne (by rw [hEq.2]; rfl)
                (Or.inl (hLetters c hLetter)) rfl
          | cons e text =>
              rw [List.cons_append, List.cons_append, List.cons.injEq,
                List.cons.injEq] at hEq
              exact hText e text (by rw [hEq.1]) (hEq.2.1 ▸ hLetter)
    rw [integerDigits_eq_digitRun hText, integerDigits_eq_digitRun hBoth,
      digitRun_append _ _ _ hEnds]

theorem suffix_append
    (text : List Char)
    (hEnds : EndsToken rest) :
    suffix (text ++ rest) = suffix text := by
  rw [suffix, suffix, identifierLength_append_of_ends text hEnds]

theorem numberWith_append
    {digits : Nat}
    (hDigits : digits ≤ text.length)
    (hEnds : EndsToken rest) :
    numberWith (text ++ rest) digits = numberWith text digits := by
  have hBreak :
      ∀ more : List Char, atWordBreak (more ++ rest) = atWordBreak more := by
    intro more
    cases more with
    | nil =>
        cases rest with
        | nil => rfl
        | cons c others => simp [atWordBreak, (hEnds c rfl).1]
    | cons c more => rfl
  simp only [numberWith, drop_append_of_le hDigits,
    suffix_append _ hEnds, drop_append_of_le (suffix_le _), hBreak]

/- Whether and how far a number goes is seen in what ends with it. -/
theorem number_append
    (text : List Char)
    (hEnds : EndsToken rest) :
    number (text ++ rest) = number text := by
  rw [number, number, floatDigits_append text hEnds,
    integerDigits_append text hEnds]
  have hFloat :
      (floatDigits text >>= numberWith (text ++ rest)) =
        (floatDigits text >>= numberWith text) := by
    cases hDigits : floatDigits text with
    | none => rfl
    | some digits =>
        exact numberWith_append (floatDigits_bounds hDigits).2 hEnds
  have hInteger :
      (integerDigits text >>= numberWith (text ++ rest)) =
        (integerDigits text >>= numberWith text) := by
    cases hDigits : integerDigits text with
    | none => rfl
    | some digits =>
        exact numberWith_append (integerDigits_bounds hDigits).2 hEnds
  rw [hFloat, hInteger]

------------------------------------------------------------
-- Quoted Literals
------------------------------------------------------------

variable {rest' : List Char}
variable {flavour : Flavour}

theorem cooked_of_append
    (hEnds : EndsToken rest)
    (hEnds' : EndsToken rest')
    (hCooked : cooked flavour state (text ++ rest) = some length)
    (hLength : length ≤ text.length) :
    cooked flavour state (text ++ rest') = some length := by
  induction text generalizing state length with
  | nil =>
      have hPos := (cooked_bounds hCooked).1
      rw [List.length_nil] at hLength
      omega
  | cons c text ih =>
      rw [List.cons_append] at hCooked ⊢
      unfold cooked at hCooked ⊢
      split at hCooked
      · next hCloses =>
          rw [if_pos hCloses]
          rw [withSuffix, suffix_append _ hEnds] at hCooked
          rw [withSuffix, suffix_append _ hEnds', hCooked]
      · next hCloses =>
          rw [if_neg hCloses]
          rcases Option.bind_eq_some_iff.mp hCooked with
            ⟨next, hNext, hRest⟩
          rcases Option.bind_eq_some_iff.mp hRest with
            ⟨inner, hInner, hPair⟩
          cases hPair
          rw [List.length_cons] at hLength
          rw [hNext]
          simp [ih hInner (by omega)]

theorem rawBody_cons
    (hReturn : ∀ others, c = '\r' → text ≠ '\n' :: others) :
    rawBody flavour hashes (c :: text) =
      if c == '"' && text.take hashes == List.replicate hashes '#' then
        withSuffix (text.drop hashes) (hashes + 1)
      else if c == '\r' || !rawAllows flavour c then
        none
      else
        (rawBody flavour hashes text).map (· + 1) := by
  conv => lhs; unfold rawBody
  split
  · next hEq => cases hEq
  · next hEq =>
      cases hEq
      exact absurd rfl (hReturn _ rfl)
  · next hEq =>
      cases hEq
      rfl

theorem take_hashes_append
    (hashes : Nat)
    (text : List Char)
    (hEnds : EndsToken rest) :
    ((text ++ rest).take hashes == List.replicate hashes '#') =
      (text.take hashes == List.replicate hashes '#') := by
  induction hashes generalizing text with
  | zero => rfl
  | succ hashes ih =>
      cases text with
      | nil =>
          cases rest with
          | nil => rfl
          | cons c others =>
              have hHash := hEnds.ne (d := '#') rfl (Or.inr (by decide))
              simp [List.replicate_succ, hHash]
      | cons c text =>
          rw [List.cons_append, List.take_succ_cons, List.take_succ_cons,
            List.replicate_succ, List.cons_beq_cons, List.cons_beq_cons,
            ih]

theorem rawBody_of_append
    (hEnds : EndsToken rest)
    (hEnds' : EndsToken rest')
    (hRaw : rawBody flavour hashes (text ++ rest) = some length)
    (hLength : length ≤ text.length) :
    rawBody flavour hashes (text ++ rest') = some length := by
  induction hSize : text.length using Nat.strong_induction_on
    generalizing text length with
  | _ size ih =>
  cases text with
  | nil =>
      have hPos := (rawBody_bounds hRaw).1
      rw [List.length_nil] at hLength
      omega
  | cons c text =>
      rw [List.length_cons] at hLength hSize
      by_cases hReturn : c = '\r' ∧ ∃ others, text = '\n' :: others
      · rcases hReturn with ⟨rfl, others, rfl⟩
        rw [List.length_cons] at hLength hSize
        rw [List.cons_append, List.cons_append, rawBody] at hRaw ⊢
        rcases Option.map_eq_some_iff.mp hRaw with ⟨inner, hInner, rfl⟩
        rw [ih others.length (by omega) hInner (by omega) rfl]
        rfl
      · -- a carriage return is no part of the literal by itself
        have hOther :
            c = '\r' → ∃ d others, text = d :: others ∧ d ≠ '\n' := by
          rintro rfl
          cases text with
          | nil =>
              rw [List.cons_append, List.nil_append] at hRaw
              unfold rawBody at hRaw
              split at hRaw
              · cases hRaw
              · rcases Option.map_eq_some_iff.mp hRaw with
                  ⟨inner, _, rfl⟩
                rw [List.length_nil] at hLength
                omega
              · next hEq =>
                  cases hEq
                  simp at hRaw
          | cons d others =>
              exact ⟨d, others, rfl, fun hEq =>
                hReturn ⟨rfl, others, by rw [hEq]⟩⟩
        have hPlain :
            ∀ more others, c = '\r' → text ++ more ≠ '\n' :: others := by
          intro more others hC hEq
          rcases hOther hC with ⟨d, tail, rfl, hNe⟩
          rw [List.cons_append, List.cons.injEq] at hEq
          exact hNe hEq.1
        rw [List.cons_append, rawBody_cons (hPlain _),
          take_hashes_append _ _ hEnds] at hRaw
        rw [List.cons_append, rawBody_cons (hPlain _),
          take_hashes_append _ _ hEnds']
        split at hRaw
        · next hCloses =>
            rw [if_pos hCloses]
            rw [Bool.and_eq_true] at hCloses
            have hHashes := hashes_le hCloses.2
            rw [drop_append_of_le hHashes, withSuffix,
              suffix_append _ hEnds] at hRaw
            rw [drop_append_of_le hHashes, withSuffix,
              suffix_append _ hEnds', hRaw]
        · next hCloses =>
            rw [if_neg hCloses]
            split at hRaw
            · cases hRaw
            · next hAllows =>
                rw [if_neg hAllows]
                rcases Option.map_eq_some_iff.mp hRaw with
                  ⟨inner, hInner, rfl⟩
                rw [ih text.length (by omega) hInner (by omega) rfl]
                rfl

theorem raw_of_append
    (hEnds : EndsToken rest)
    (hEnds' : EndsToken rest')
    (hRaw : raw flavour (text ++ rest) = some length)
    (hLength : length ≤ text.length) :
    raw flavour (text ++ rest') = some length := by
  have hHash :
      ∀ {more : List Char}, EndsToken more → ∀ c,
        more.head? = some c → (c == '#') = false := by
    intro more hMore c hHead
    exact beq_false_of_ne (hMore.ne hHead (Or.inr (by decide)))
  have hCount := (List.takeWhile_prefix (l := text) (· == '#')).length_le
  simp only [raw, takeWhile_append_of_head text (hHash hEnds),
    drop_append_of_le hCount] at hRaw
  simp only [raw, takeWhile_append_of_head text (hHash hEnds'),
    drop_append_of_le hCount]
  generalize hDrop : text.drop _ = left at *
  cases left with
  | nil =>
      rw [List.nil_append] at hRaw
      split at hRaw
      · exact absurd rfl (hEnds.ne rfl (Or.inr (by decide)))
      · cases hRaw
  | cons c left =>
      have hLeft := congrArg List.length hDrop
      rw [List.length_drop, List.length_cons] at hLeft
      rw [List.cons_append] at hRaw ⊢
      split at hRaw
      · next hEq =>
          cases hEq
          split at hRaw
          · cases hRaw
          · next hMany =>
              rcases Option.map_eq_some_iff.mp hRaw with
                ⟨inner, hInner, rfl⟩
              have hInner' :=
                rawBody_of_append hEnds hEnds' hInner (by omega)
              simp only [hInner', if_neg hMany, Option.map_some]
      · cases hRaw

/- A literal after an opening that nothing after a token starts with. -/
theorem opened_of_append
    {more : List Char}
    {body : List Char → Option Nat}
    (opening : List Char)
    (hOpening : opening.all ['"', '\'', 'r', 'b', 'c'].contains = true)
    (hEnds : EndsToken rest)
    (hText : text ++ rest = opening ++ more)
    (hFound : (body more).map (· + opening.length) = some length)
    (hLength : length ≤ text.length)
    (hBody :
      ∀ {text length}, body (text ++ rest) = some length →
        length ≤ text.length → body (text ++ rest') = some length) :
    ∃ others, text = opening ++ others ∧
      (body (others ++ rest')).map (· + opening.length) =
        some length := by
  have hSolid :
      ∀ c ∈ ['"', '\'', 'r', 'b', 'c'],
        isIdentifierContinue c = true ∨
          c ∈ ['"', '\'', '#', '.', '+', '-'] := by
    simp only [List.forall_mem_cons, List.not_mem_nil, false_implies,
      implies_true, and_true]
    exact ⟨Or.inr (by decide), Or.inr (by decide), Or.inl (by decide),
      Or.inl (by decide), Or.inl (by decide)⟩
  have hOthers :
      ∃ others, text = opening ++ others ∧ more = others ++ rest := by
    clear hFound hLength
    induction opening generalizing text with
    | nil => exact ⟨text, rfl, hText.symm⟩
    | cons c opening ih =>
        rw [List.all_cons, Bool.and_eq_true,
          List.contains_iff_mem] at hOpening
        rcases hEnds.exists_cons hText (hSolid c hOpening.1) with
          ⟨text, rfl, hMore⟩
        rcases ih hOpening.2 hMore.symm with ⟨others, rfl, rfl⟩
        exact ⟨others, rfl, rfl⟩
  rcases hOthers with ⟨others, rfl, rfl⟩
  rcases Option.map_eq_some_iff.mp hFound with ⟨inner, hInner, rfl⟩
  rw [List.length_append] at hLength
  exact ⟨others, rfl, by rw [hBody hInner (by omega), Option.map_some]⟩

theorem string_of_append
    (hEnds : EndsToken rest)
    (hEnds' : EndsToken rest')
    (hString : string (text ++ rest) = some length)
    (hLength : length ≤ text.length) :
    string (text ++ rest') = some length := by
  unfold string at hString
  split at hString
  · next more hText =>
      rcases opened_of_append ['"'] (by decide) hEnds hText hString
          hLength (cooked_of_append hEnds hEnds') with
        ⟨others, rfl, hFound⟩
      exact hFound
  · next more hText =>
      rcases opened_of_append ['r'] (by decide) hEnds hText hString
          hLength (raw_of_append hEnds hEnds') with
        ⟨others, rfl, hFound⟩
      exact hFound
  · next more hText =>
      rcases opened_of_append ['b', '"'] (by decide) hEnds hText hString
          hLength (cooked_of_append hEnds hEnds') with
        ⟨others, rfl, hFound⟩
      exact hFound
  · next more hText =>
      rcases opened_of_append ['b', 'r'] (by decide) hEnds hText hString
          hLength (raw_of_append hEnds hEnds') with
        ⟨others, rfl, hFound⟩
      exact hFound
  · next more hText =>
      rcases opened_of_append ['c', '"'] (by decide) hEnds hText hString
          hLength (cooked_of_append hEnds hEnds') with
        ⟨others, rfl, hFound⟩
      exact hFound
  · next more hText =>
      rcases opened_of_append ['c', 'r'] (by decide) hEnds hText hString
          hLength (raw_of_append hEnds hEnds') with
        ⟨others, rfl, hFound⟩
      exact hFound
  · cases hString

theorem escapeLength_pos
    (hEscape : escapeLength flavour state text = some length) :
    0 < length := by
  cases text with
  | nil => cases hEscape
  | cons c text =>
      unfold escapeLength at hEscape
      split at hEscape
      · cases hEscape
        exact Nat.one_pos
      · cases hEscape
      · cases hEscape
      · rcases Option.map_eq_some_iff.mp hEscape with ⟨inner, _, rfl⟩
        exact Nat.succ_pos inner
      · cases hEscape

theorem escapeLength_of_append
    (hEscape : escapeLength flavour state (text ++ rest) = some length)
    (hLength : length ≤ text.length) :
    escapeLength flavour state (text ++ rest') = some length := by
  induction text generalizing state length with
  | nil =>
      have hPos := escapeLength_pos hEscape
      rw [List.length_nil] at hLength
      omega
  | cons c text ih =>
      rw [List.length_cons] at hLength
      rw [List.cons_append] at hEscape ⊢
      unfold escapeLength at hEscape ⊢
      cases hStep : state.step flavour c with
      | none => simp [hStep] at hEscape
      | some next =>
          rw [hStep] at hEscape
          cases next
          all_goals
            first
            | exact hEscape
            | cases hEscape
            | rcases Option.map_eq_some_iff.mp hEscape with
                ⟨inner, hInner, rfl⟩
              dsimp only
              rw [ih hInner (by omega)]
              rfl

theorem characterBody_of_append
    (hBody : characterBody flavour (text ++ rest) = some length)
    (hLength : length < text.length) :
    characterBody flavour (text ++ rest') = some length := by
  cases text with
  | nil => cases hLength
  | cons c text =>
      rw [List.length_cons] at hLength
      rw [List.cons_append] at hBody ⊢
      by_cases hEscape : c = '\\'
      · subst hEscape
        rw [characterBody] at hBody ⊢
        rcases Option.map_eq_some_iff.mp hBody with ⟨inner, hInner, rfl⟩
        rw [escapeLength_of_append hInner (by omega)]
        rfl
      · simp only [characterBody] at hBody ⊢
        exact hBody

theorem quotedCharacter_of_append
    (hEnds : EndsToken rest)
    (hEnds' : EndsToken rest')
    (hQuoted : quotedCharacter flavour (text ++ rest) = some length)
    (hLength : length ≤ text.length) :
    quotedCharacter flavour (text ++ rest') = some length := by
  rcases Option.bind_eq_some_iff.mp hQuoted with
    ⟨inner, hInner, hClose⟩
  split at hClose
  · next more hDrop =>
      cases hClose
      rw [drop_append_of_le (by omega)] at hDrop
      rcases hEnds.exists_cons hDrop (Or.inr (by decide)) with
        ⟨others, hOthers, rfl⟩
      have hBody :
          characterBody flavour (text ++ rest') = some inner :=
        characterBody_of_append hInner (by omega)
      rw [suffix_append _ hEnds]
      simp only [quotedCharacter, hBody, Option.bind_eq_bind,
        Option.bind_some, withSuffix, suffix_append _ hEnds', hOthers,
        drop_append_of_le (show inner ≤ text.length by omega),
        List.cons_append]
  · cases hClose

theorem character_of_append
    (hEnds : EndsToken rest)
    (hEnds' : EndsToken rest')
    (hCharacter : character (text ++ rest) = some length)
    (hLength : length ≤ text.length) :
    character (text ++ rest') = some length := by
  unfold character at hCharacter
  split at hCharacter
  · next more hText =>
      rcases opened_of_append ['\''] (by decide) hEnds hText
          hCharacter hLength (quotedCharacter_of_append hEnds hEnds') with
        ⟨others, rfl, hFound⟩
      exact hFound
  · next more hText =>
      rcases opened_of_append ['b', '\''] (by decide) hEnds hText
          hCharacter hLength (quotedCharacter_of_append hEnds hEnds') with
        ⟨others, rfl, hFound⟩
      exact hFound
  · cases hCharacter

------------------------------------------------------------
-- Literals
------------------------------------------------------------

/- A character literal is no string. -/
theorem string_eq_none_of_character
    (hCharacter : character text = some found) :
    string text = none := by
  unfold character at hCharacter
  split at hCharacter
  · rfl
  · rfl
  · cases hCharacter

theorem isDigit_of_hexDigitValue
    {digit : Nat}
    (hValue : hexDigitValue c = some digit)
    (hDigit : digit < 10) :
    c.isDigit = true := by
  unfold hexDigitValue at hValue
  split at hValue
  · next hRange =>
      simpa [Char.isDigit, Char.le_def] using hRange
  · split at hValue
    · cases hValue
      omega
    · split at hValue <;> cases hValue
      omega

/- A number starts with a digit. -/
theorem isDigit_of_number
    (hNumber : number text = some found) :
    ∃ c others, text = c :: others ∧ c.isDigit = true := by
  unfold number at hNumber
  rcases orElse_eq_some_iff.mp hNumber with
    hFloat | ⟨_, hInteger⟩
  · rcases Option.bind_eq_some_iff.mp hFloat with ⟨_, hDigits, _⟩
    unfold floatDigits at hDigits
    split at hDigits
    · cases hDigits
    · split at hDigits
      · cases hDigits
      · next hDigit => exact ⟨_, _, rfl, by simpa using hDigit⟩
  · rcases Option.bind_eq_some_iff.mp hInteger with ⟨_, hDigits, _⟩
    unfold integerDigits at hDigits
    split at hDigits
    · exact ⟨'0', _, rfl, by decide⟩
    · exact ⟨'0', _, rfl, by decide⟩
    · exact ⟨'0', _, rfl, by decide⟩
    · unfold digitRun at hDigits
      split at hDigits
      · cases hDigits
      · split at hDigits
        · simp at hDigits
        · split at hDigits
          · next digit hValue =>
              split at hDigits
              · next hSmall =>
                  exact ⟨_, _, rfl,
                    isDigit_of_hexDigitValue hValue hSmall⟩
              · simp at hDigits
          · cases hDigits

theorem not_quoted_of_isDigit
    (hDigit : c.isDigit = true)
    (others : List Char) :
    string (c :: others) = none ∧ character (c :: others) = none := by
  constructor
  · unfold string
    split
    all_goals
      first
      | next hText =>
          cases hText
          cases hDigit
      | rfl
  · unfold character
    split
    all_goals
      first
      | next hText =>
          cases hText
          cases hDigit
      | rfl

/- A literal in a piece is there whatever follows the piece. -/
theorem length_of_append
    (hEnds : EndsToken rest)
    (hEnds' : EndsToken rest')
    (hLength : Literal.length (text ++ rest) = some found)
    (hFound : found ≤ text.length) :
    Literal.length (text ++ rest') = some found := by
  unfold Literal.length at hLength ⊢
  rcases orElse_eq_some_iff.mp hLength with hString | ⟨_, hRest⟩
  · rw [string_of_append hEnds hEnds' hString hFound]
    rfl
  · rcases orElse_eq_some_iff.mp hRest with
      hCharacter | ⟨_, hNumber⟩
    · have hCharacter' := character_of_append hEnds hEnds' hCharacter hFound
      rw [string_eq_none_of_character hCharacter', hCharacter']
      rfl
    · rw [number_append _ hEnds] at hNumber
      rcases isDigit_of_number hNumber with ⟨c, others, rfl, hDigit⟩
      rcases not_quoted_of_isDigit hDigit (others ++ rest') with
        ⟨hString, hCharacter⟩
      rw [List.cons_append, hString, hCharacter, ← List.cons_append,
        number_append _ hEnds', hNumber]
      rfl

end Literal

end Nullary
