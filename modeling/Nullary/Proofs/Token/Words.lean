import Nullary.Proofs.Token.Spelling

/-
  Reading a text lexeme by lexeme.

  Blanks, words, marks and delimiters are told by their first
  character.  A word goes on up to a character that no word
  can hold, unless it looks like the start of a literal.

  Main declarations:
    * `IsIdentifier`
    * `EndsWord`
    * `Lexeme.Spells.blank`
    * `Lexeme.Spells.word`
    * `Lexeme.Spells.mark`
    * `Lexeme.Spells.opening`
    * `Lexeme.Spells.closing`
-/

namespace Nullary

variable {c : Char}
variable {name rest : List Char}

------------------------------------------------------------
-- First Characters
------------------------------------------------------------

/- What is tested of every value of a list holds of every value. -/
theorem forall_mem_of_all
    {α : Type}
    {p : α → Prop}
    [DecidablePred p]
    {values : List α}
    (hAll : (values.all fun value => decide (p value)) = true) :
    ∀ value ∈ values, p value := by
  simpa using hAll

/- The characters that stand for themselves. -/
def signs : List Char :=
  "~!@#$%^&*-=+|;:,<.>/?'\"()[]\x7b\x7d\\".toList

theorem isIdentifierContinue_of_mem_signs
    (hSign : c ∈ signs) :
    isIdentifierContinue c = false := by
  have hAll : ∀ d ∈ signs, isIdentifierContinue d = false :=
    forall_mem_of_all (by decide)
  exact hAll c hSign

theorem isIdentifierContinue_of_start
    (hStart : isIdentifierStart c = true) :
    isIdentifierContinue c = true := by
  unfold isIdentifierStart at hStart
  unfold isIdentifierContinue
  split at hStart
  · next hAscii =>
      rw [if_pos hAscii]
      rcases Bool.or_eq_true_iff.mp hStart with hLow | hAlpha
      · simp [hLow]
      · simp [Char.isAlphanum, hAlpha]
  · next hAscii => simp [hAscii, hStart]

theorem not_mem_signs_of_start
    (hStart : isIdentifierStart c = true) :
    c ∉ signs := by
  intro hSign
  have hContinue := isIdentifierContinue_of_start hStart
  rw [isIdentifierContinue_of_mem_signs hSign] at hContinue
  cases hContinue

/- The code points of the blanks. -/
def blankCodes : List Nat :=
  [0x09, 0x0A, 0x0B, 0x0C, 0x0D, 0x20, 0x85, 0xA0, 0x1680, 0x2000,
    0x2001, 0x2002, 0x2003, 0x2004, 0x2005, 0x2006, 0x2007, 0x2008,
    0x2009, 0x200A, 0x2028, 0x2029, 0x202F, 0x205F, 0x3000]

theorem mem_blankCodes_of_isBlank
    (hBlank : isBlank c = true) :
    c.toNat ∈ blankCodes := by
  unfold isBlank at hBlank
  split at hBlank
  · rcases Bool.or_eq_true_iff.mp hBlank with hSpace | hControl
    · rw [eq_of_beq hSpace]
      decide
    · simp only [Bool.and_eq_true, decide_eq_true_eq] at hControl
      simp only [blankCodes, List.mem_cons]
      omega
  · simp only [CharRanges.contains, blankRanges, List.any_cons,
      List.any_nil, Bool.or_eq_true, Bool.and_eq_true,
      decide_eq_true_eq, Bool.false_eq_true, or_false] at hBlank
    simp only [blankCodes, List.mem_cons, List.not_mem_nil, or_false]
    omega

theorem eq_ofNat_of_isBlank
    (hBlank : isBlank c = true) :
    ∃ code ∈ blankCodes, c = Char.ofNat code :=
  ⟨c.toNat, mem_blankCodes_of_isBlank hBlank,
    (Char.ofNat_toNat c).symm⟩

theorem isIdentifierContinue_of_isBlank
    (hBlank : isBlank c = true) :
    isIdentifierContinue c = false := by
  have hAll :
      ∀ code ∈ blankCodes,
        isIdentifierContinue (Char.ofNat code) = false := by
    decide +kernel
  rcases eq_ofNat_of_isBlank hBlank with ⟨code, hCode, rfl⟩
  exact hAll code hCode

theorem not_mem_signs_of_isBlank
    (hBlank : isBlank c = true) :
    c ∉ signs := by
  have hAll : ∀ code ∈ blankCodes, Char.ofNat code ∉ signs := by
    decide +kernel
  rcases eq_ofNat_of_isBlank hBlank with ⟨code, hCode, rfl⟩
  exact hAll code hCode

theorem isSeparator_of_start
    (hStart : isIdentifierStart c = true) :
    Gap.isSeparator c = false := by
  have hContinue := isIdentifierContinue_of_start hStart
  unfold Gap.isSeparator
  by_contra hNot
  rw [Bool.not_eq_false, Bool.or_eq_true, Bool.or_eq_true,
    beq_iff_eq, beq_iff_eq] at hNot
  rcases hNot with (hBlank | hLeft) | hRight
  · rw [isIdentifierContinue_of_isBlank hBlank] at hContinue
    cases hContinue
  · rw [← Char.ofNat_toNat c, hLeft] at hContinue
    exact absurd hContinue (by decide +kernel)
  · rw [← Char.ofNat_toNat c, hRight] at hContinue
    exact absurd hContinue (by decide +kernel)

theorem isSeparator_of_mem_signs
    (hSign : c ∈ signs) :
    Gap.isSeparator c = false := by
  have hAll : ∀ d ∈ signs, Gap.isSeparator d = false :=
    forall_mem_of_all (by decide +kernel)
  exact hAll c hSign

------------------------------------------------------------
-- Gaps
------------------------------------------------------------

namespace Comment

variable {c : Char}
variable {rest : List Char}

theorem isPlainLine_of_ne
    (hSlash : c ≠ '/') :
    isPlainLine (c :: rest) = false := by
  unfold isPlainLine
  split <;> simp_all

theorem isPlainBlock_of_ne
    (hSlash : c ≠ '/') :
    isPlainBlock (c :: rest) = false := by
  unfold isPlainBlock
  split <;> simp_all

theorem doc?_of_ne
    (hSlash : c ≠ '/') :
    doc? (c :: rest) = none := by
  unfold doc?
  split <;> simp_all

end Comment

theorem Gap.length_of_separator
    (hSeparator : Gap.isSeparator c = true)
    (rest : List Char) :
    Gap.length (c :: rest) = some 1 := by
  have hSlash : c ≠ '/' := by
    rintro rfl
    exact absurd hSeparator (by decide +kernel)
  simp [Gap.length, Comment.isPlainLine_of_ne hSlash,
    Comment.isPlainBlock_of_ne hSlash, hSeparator]

theorem Gap.length_eq_none
    (hSlash : c ≠ '/')
    (hSeparator : Gap.isSeparator c = false)
    (rest : List Char) :
    Gap.length (c :: rest) = none := by
  simp [Gap.length, Comment.isPlainLine_of_ne hSlash,
    Comment.isPlainBlock_of_ne hSlash, hSeparator]

theorem Lexeme.Spells.blank
    {text : List Char}
    {lexemes : List Lexeme}
    (hBlank : isBlank c = true)
    (hSpells : Spells text lexemes) :
    Spells (c :: text) lexemes := by
  have hSeparator : Gap.isSeparator c = true := by
    simp [Gap.isSeparator, hBlank]
  exact .gap (Gap.length_of_separator hSeparator text) hSpells

theorem Lexeme.Spells.blanks
    {blanks text : List Char}
    {lexemes : List Lexeme}
    (hBlank : ∀ c ∈ blanks, isBlank c = true)
    (hSpells : Spells text lexemes) :
    Spells (blanks ++ text) lexemes := by
  induction blanks with
  | nil => exact hSpells
  | cons c rest ih =>
      rw [List.forall_mem_cons] at hBlank
      exact (ih hBlank.2).blank hBlank.1

------------------------------------------------------------
-- Words
------------------------------------------------------------

/- A text that is one word, raw or not. -/
def IsIdentifier
    (name : List Char) : Prop :=
  wordLength name = some name.length

instance
    (name : List Char) :
    Decidable (IsIdentifier name) :=
  inferInstanceAs (Decidable (_ = _))

/- What can follow a word without changing how it is read. -/
def EndsWord
    (rest : List Char) : Prop :=
  ∀ c, rest.head? = some c →
    isIdentifierContinue c = false ∧ c ≠ '"' ∧ c ≠ '\'' ∧ c ≠ '#'

instance
    (rest : List Char) :
    Decidable (EndsWord rest) :=
  inferInstanceAs
    (Decidable
      (∀ c ∈ rest.head?,
        isIdentifierContinue c = false ∧ c ≠ '"' ∧ c ≠ '\'' ∧
          c ≠ '#'))

theorem endsWord_cons
    (hEnd :
      isIdentifierContinue c = false ∧ c ≠ '"' ∧ c ≠ '\'' ∧ c ≠ '#')
    (rest : List Char) :
    EndsWord (c :: rest) := by
  intro d hHead
  cases hHead
  exact hEnd

/- An identifier that is not raw. -/
structure IsName
    (name : List Char) : Prop where
  start : ∃ c rest, name = c :: rest ∧ isIdentifierStart c = true
  all : ∀ c ∈ name, isIdentifierContinue c = true

theorem isName_of_identifierLength
    (hLength : identifierLength name = some name.length) :
    IsName name := by
  cases name with
  | nil => cases hLength
  | cons c rest =>
      simp only [identifierLength] at hLength
      split at hLength
      · next hStart =>
          rw [List.length_cons, Option.some.injEq,
            Nat.add_right_cancel_iff] at hLength
          refine ⟨⟨c, rest, rfl, hStart⟩, ?_⟩
          rw [List.forall_mem_cons]
          refine ⟨isIdentifierContinue_of_start hStart, ?_⟩
          have hWhole :=
            (List.takeWhile_prefix isIdentifierContinue).eq_of_length
              hLength
          rw [← hWhole]
          exact fun d hMem => List.mem_takeWhile_imp hMem
      · cases hLength

theorem identifierLength_append
    (hName : IsName name)
    (hEnd : ∀ c, rest.head? = some c → isIdentifierContinue c = false) :
    identifierLength (name ++ rest) = some name.length := by
  rcases hName.start with ⟨c, tail, rfl, hStart⟩
  have hAll := (List.forall_mem_cons.mp hName.all).2
  have hTake :
      (tail ++ rest).takeWhile isIdentifierContinue = tail := by
    rw [List.takeWhile_append_of_pos hAll]
    cases rest with
    | nil => simp
    | cons d others => simp [hEnd d rfl]
  simp [identifierLength, hStart, hTake]

/- An identifier is a name, or a name after the raw sign. -/
theorem IsIdentifier.cases
    (hIdentifier : IsIdentifier name) :
    IsName name ∨
      ∃ raw, name = 'r' :: '#' :: raw ∧ IsName raw ∧
        ["_", "super", "self", "Self", "crate"].contains
          (String.ofList raw) = false := by
  unfold IsIdentifier wordLength at hIdentifier
  split at hIdentifier
  · next raw =>
      right
      rcases Option.bind_eq_some_iff.mp hIdentifier with
        ⟨length, hLength, hFound⟩
      dsimp only at hFound
      split at hFound
      · cases hFound
      · next hAllowed =>
          cases hFound
          rw [List.take_length, Bool.not_eq_true] at hAllowed
          exact ⟨raw, rfl, isName_of_identifierLength hLength,
            hAllowed⟩
  · exact Or.inl (isName_of_identifierLength hIdentifier)

theorem IsIdentifier.exists_start
    (hIdentifier : IsIdentifier name) :
    ∃ c rest, name = c :: rest ∧ isIdentifierStart c = true := by
  rcases hIdentifier.cases with hName | ⟨raw, rfl, _, _⟩
  · exact hName.start
  · exact ⟨'r', '#' :: raw, rfl, by decide⟩

/- No quote or hash stands after the letters of a name. -/
theorem append_ne_letters
    {letters more : List Char}
    {sign : Char}
    (hName : ∀ c ∈ name, isIdentifierContinue c = true)
    (hEnd : EndsWord rest)
    (hLetters : ∀ c ∈ letters, isIdentifierContinue c = true)
    (hSign : sign = '"' ∨ sign = '\'' ∨ sign = '#') :
    name ++ rest ≠ letters ++ sign :: more := by
  have hStop : isIdentifierContinue sign = false := by
    rcases hSign with rfl | rfl | rfl <;> decide
  induction name generalizing letters with
  | nil =>
      intro hSame
      rw [List.nil_append] at hSame
      cases letters with
      | nil =>
          rcases hEnd sign (by rw [hSame]; rfl) with
            ⟨_, hQuote, hTick, hHash⟩
          rcases hSign with hEq | hEq | hEq
          · exact hQuote hEq
          · exact hTick hEq
          · exact hHash hEq
      | cons letter others =>
          have hRest := (hEnd letter (by rw [hSame]; rfl)).1
          rw [hLetters letter List.mem_cons_self] at hRest
          cases hRest
  | cons c name ih =>
      intro hSame
      rw [List.forall_mem_cons] at hName
      cases letters with
      | nil =>
          rw [List.cons_append, List.nil_append,
            List.cons.injEq] at hSame
          rw [hSame.1, hStop] at hName
          cases hName.1
      | cons letter others =>
          rw [List.cons_append, List.cons_append,
            List.cons.injEq] at hSame
          exact ih hName.2 (List.forall_mem_cons.mp hLetters).2
            hSame.2

/- The beginnings of literals that are told from words. -/
def literalStarts : List (List Char) :=
  [['r', '"'], ['r', '#', '"'], ['r', '#', '#'], ['b', '"'],
    ['b', '\''], ['b', 'r', '"'], ['b', 'r', '#'], ['c', '"'],
    ['c', 'r', '"'], ['c', 'r', '#']]

theorem startsLikeLiteral_iff
    {text : List Char} :
    startsLikeLiteral text = true ↔
      ∃ start ∈ literalStarts, start <+: text := by
  constructor
  · intro hStarts
    unfold startsLikeLiteral at hStarts
    split at hStarts
    · next more => exact ⟨['r', '"'], by decide, more, rfl⟩
    · next more => exact ⟨['r', '#', '"'], by decide, more, rfl⟩
    · next more => exact ⟨['r', '#', '#'], by decide, more, rfl⟩
    · next more => exact ⟨['b', '"'], by decide, more, rfl⟩
    · next more => exact ⟨['b', '\''], by decide, more, rfl⟩
    · next more => exact ⟨['b', 'r', '"'], by decide, more, rfl⟩
    · next more => exact ⟨['b', 'r', '#'], by decide, more, rfl⟩
    · next more => exact ⟨['c', '"'], by decide, more, rfl⟩
    · next more => exact ⟨['c', 'r', '"'], by decide, more, rfl⟩
    · next more => exact ⟨['c', 'r', '#'], by decide, more, rfl⟩
    · cases hStarts
  · rintro ⟨start, hMem, more, rfl⟩
    simp only [literalStarts, List.mem_cons, List.not_mem_nil,
      or_false] at hMem
    rcases hMem with rfl | rfl | rfl | rfl | rfl | rfl | rfl | rfl |
      rfl | rfl <;> rfl

/- Each has a quote or a hash after some letters. -/
theorem exists_sign_of_mem_literalStarts
    {start : List Char}
    (hMem : start ∈ literalStarts) :
    ∃ letters sign more, start = letters ++ sign :: more ∧
      (∀ c ∈ letters, isIdentifierContinue c = true) ∧
      (sign = '"' ∨ sign = '\'' ∨ sign = '#') := by
  have hAll :
      ∀ start ∈ literalStarts,
        (start.dropWhile isIdentifierContinue).head?.any
          (fun sign => sign = '"' ∨ sign = '\'' ∨ sign = '#') = true :=
    forall_mem_of_all (by decide)
  rcases (Option.any_eq_true _ _).mp (hAll start hMem) with
    ⟨sign, hHead, hSign⟩
  rcases List.head?_eq_some_iff.mp hHead with ⟨more, hDrop⟩
  refine ⟨start.takeWhile isIdentifierContinue, sign, more, ?_,
    fun c hLetter => List.mem_takeWhile_imp hLetter,
    of_decide_eq_true hSign⟩
  rw [← hDrop, List.takeWhile_append_dropWhile]

/- A text that looks like no literal does not go on like one. -/
theorem head?_ne_of_plain
    (start : List Char)
    {more : List Char}
    (hPlain : startsLikeLiteral (start ++ more) = false)
    (hMem : start ++ [c] ∈ literalStarts) :
    more.head? ≠ some c := by
  intro hHead
  rcases List.head?_eq_some_iff.mp hHead with ⟨others, rfl⟩
  rw [startsLikeLiteral_iff.mpr ⟨_, hMem, others, by simp⟩] at hPlain
  cases hPlain

theorem startsLikeLiteral_append
    (hIdentifier : IsIdentifier name)
    (hEnd : EndsWord rest) :
    startsLikeLiteral (name ++ rest) = false := by
  rcases hIdentifier.cases with hName | ⟨raw, rfl, hRaw, _⟩
  · rw [Bool.eq_false_iff]
    intro hStarts
    rcases startsLikeLiteral_iff.mp hStarts with
      ⟨start, hMem, tail, hText⟩
    rcases exists_sign_of_mem_literalStarts hMem with
      ⟨letters, sign, more, rfl, hLetters, hSign⟩
    rw [List.append_assoc] at hText
    exact append_ne_letters hName.all hEnd hLetters hSign hText.symm
  · rcases hRaw.start with ⟨c, tail, rfl, hStart⟩
    have hSign := not_mem_signs_of_start hStart
    have hQuote : c ≠ '"' := fun hEq => hSign (hEq ▸ by decide)
    have hHash : c ≠ '#' := fun hEq => hSign (hEq ▸ by decide)
    simp [startsLikeLiteral, hQuote, hHash]

theorem wordLength_append
    (hIdentifier : IsIdentifier name)
    (hEnd : EndsWord rest) :
    wordLength (name ++ rest) = some name.length := by
  have hBreak :
      ∀ c, rest.head? = some c → isIdentifierContinue c = false :=
    fun c hHead => (hEnd c hHead).1
  rcases hIdentifier.cases with hName | ⟨raw, rfl, hRaw, hAllowed⟩
  · unfold wordLength
    split
    · next more hText =>
        exact absurd hText
          (@append_ne_letters name rest ['r'] more '#' hName.all hEnd
            (forall_mem_of_all (by decide)) (by decide))
    · exact identifierLength_append hName hBreak
  · have hLength := identifierLength_append hRaw hBreak
    rw [List.cons_append, List.cons_append, wordLength, hLength]
    simp only [Option.bind_eq_bind, Option.bind_some,
      List.take_left, hAllowed, Bool.false_eq_true, if_false]
    rfl

------------------------------------------------------------
-- Words Are No Literals
------------------------------------------------------------

namespace Literal

variable {c : Char}

theorem not_isDigit_of_start
    (hStart : isIdentifierStart c = true) :
    c.isDigit = false := by
  by_contra hDigit
  rw [Bool.not_eq_false] at hDigit
  have hRange : 48 ≤ c.toNat ∧ c.toNat ≤ 57 := by
    simpa [Char.isDigit, UInt32.le_iff_toNat_le] using hDigit
  have hAll :
      ∀ code < 58, 48 ≤ code →
        isIdentifierStart (Char.ofNat code) = false := by
    decide
  have hNot := hAll c.toNat (by omega) hRange.1
  rw [Char.ofNat_toNat, hStart] at hNot
  cases hNot

theorem digitRun_eq_none_of_start
    (hStart : isIdentifierStart c = true)
    (rest : List Char) :
    digitRun 10 true (c :: rest) = none := by
  have hDigit := not_isDigit_of_start hStart
  unfold digitRun hexDigitValue
  split
  · simp
  · split
    · next digit hValue =>
        have hLarge : ¬ digit < 10 := by
          split at hValue
          · next hRange =>
              exfalso
              simp [Char.isDigit, Char.le_def] at hDigit hRange
              exact absurd (hDigit hRange.1) (by simpa using hRange.2)
          · split at hValue
            · cases hValue
              omega
            · split at hValue <;> cases hValue
              omega
        simp [hLarge]
    · rfl

theorem number_eq_none_of_start
    (hStart : isIdentifierStart c = true)
    (rest : List Char) :
    number (c :: rest) = none := by
  have hDigit := not_isDigit_of_start hStart
  have hFloat : floatDigits (c :: rest) = none := by
    simp [floatDigits, hDigit]
  have hInteger : integerDigits (c :: rest) = none := by
    unfold integerDigits
    split
    · next hText =>
        cases hText
        exact absurd hStart (by decide)
    · next hText =>
        cases hText
        exact absurd hStart (by decide)
    · next hText =>
        cases hText
        exact absurd hStart (by decide)
    · exact digitRun_eq_none_of_start hStart rest
  simp [number, hFloat, hInteger]

/- Letters and hashes before no quotation mark start no raw literal. -/
theorem raw_eq_none
    {flavour : Flavour}
    {rest : List Char}
    (hQuote : rest.head? ≠ some '"')
    (hHash :
      ∀ more, rest = '#' :: more →
        more.head? ≠ some '"' ∧ more.head? ≠ some '#') :
    raw flavour rest = none := by
  unfold raw
  dsimp only
  split
  · next body hDrop =>
      exfalso
      cases rest with
      | nil => cases hDrop
      | cons c more =>
          by_cases hFirst : c = '#'
          · subst hFirst
            rcases hHash more rfl with ⟨hNoQuote, hNoHash⟩
            cases more with
            | nil => simp at hDrop
            | cons d others =>
                have hOther : d ≠ '#' := fun hEq => by
                  simp [hEq] at hNoHash
                have hMark : d ≠ '"' := fun hEq => by
                  simp [hEq] at hNoQuote
                simp [hOther, hMark] at hDrop
          · have hMark : c ≠ '"' := fun hEq => by
              simp [hEq] at hQuote
            simp [hFirst, hMark] at hDrop
  · rfl

theorem raw_eq_none_of_head
    (flavour : Flavour)
    {rest : List Char}
    (hQuote : rest.head? ≠ some '"')
    (hHash : rest.head? ≠ some '#') :
    raw flavour rest = none := by
  apply raw_eq_none hQuote
  rintro more rfl
  exact absurd rfl hHash

theorem string_eq_none_of_start
    {rest : List Char}
    (hStart : isIdentifierStart c = true)
    (hPlain : startsLikeLiteral (c :: rest) = false) :
    string (c :: rest) = none := by
  unfold string
  split
  · next hText =>
      cases hText
      exact absurd hStart (by decide)
  · next hText =>
      cases hText
      rw [raw_eq_none (head?_ne_of_plain ['r'] hPlain (by decide)),
        Option.map_none]
      rintro more rfl
      exact ⟨head?_ne_of_plain ['r', '#'] hPlain (by decide),
        head?_ne_of_plain ['r', '#'] hPlain (by decide)⟩
  · next hText =>
      cases hText
      cases hPlain
  · next hText =>
      cases hText
      rw [raw_eq_none_of_head .bytes
        (head?_ne_of_plain ['b', 'r'] hPlain (by decide))
        (head?_ne_of_plain ['b', 'r'] hPlain (by decide)),
        Option.map_none]
  · next hText =>
      cases hText
      cases hPlain
  · next hText =>
      cases hText
      rw [raw_eq_none_of_head .cString
        (head?_ne_of_plain ['c', 'r'] hPlain (by decide))
        (head?_ne_of_plain ['c', 'r'] hPlain (by decide)),
        Option.map_none]
  · rfl

theorem character_eq_none_of_start
    {rest : List Char}
    (hStart : isIdentifierStart c = true)
    (hPlain : startsLikeLiteral (c :: rest) = false) :
    character (c :: rest) = none := by
  unfold character
  split
  · next hText =>
      cases hText
      exact absurd hStart (by decide)
  · next hText =>
      cases hText
      cases hPlain
  · rfl

/- A word starts no literal unless it looks like one. -/
theorem length_eq_none_of_start
    {rest : List Char}
    (hStart : isIdentifierStart c = true)
    (hPlain : startsLikeLiteral (c :: rest) = false) :
    length (c :: rest) = none := by
  simp [length, string_eq_none_of_start hStart hPlain,
    character_eq_none_of_start hStart hPlain,
    number_eq_none_of_start hStart rest]

/- No literal starts with a sign other than a quote. -/
theorem length_eq_none_of_sign
    (hSign : c ∈ signs)
    (hQuote : c ≠ '"')
    (hTick : c ≠ '\'')
    (rest : List Char) :
    length (c :: rest) = none := by
  have hOther :
      ∀ c ∈ signs,
        c.isDigit = false ∧ hexDigitValue c = none ∧ c ≠ '_' ∧
          c ≠ '0' ∧ c ≠ 'r' ∧ c ≠ 'b' ∧ c ≠ 'c' :=
    forall_mem_of_all (by decide)
  rcases hOther c hSign with
    ⟨hDigit, hHex, hLow, hZero, hR, hB, hC⟩
  have hString : string (c :: rest) = none := by
    unfold string
    split <;> simp_all
  have hCharacter : character (c :: rest) = none := by
    unfold character
    split <;> simp_all
  have hFloat : floatDigits (c :: rest) = none := by
    simp [floatDigits, hDigit]
  have hInteger : integerDigits (c :: rest) = none := by
    simp [integerDigits, digitRun, hLow, hHex, hZero]
  simp [length, number, hString, hCharacter, hFloat, hInteger]

end Literal

------------------------------------------------------------
-- Steps of the Reading
------------------------------------------------------------

namespace Lexeme

/- An erroneous literal starts with a parenthesis and a slash. -/
theorem errorLiteral_isPrefixOf
    {rest : List Char}
    (hOther : c ≠ '(' ∨ rest.head? ≠ some '/') :
    errorLiteral.isPrefixOf (c :: rest) = false := by
  have hError :
      errorLiteral = '(' :: '/' :: "*ERROR*/)".toList := by
    decide
  rw [hError, List.isPrefixOf]
  rcases hOther with hFirst | hSecond
  · rw [beq_false_of_ne hFirst.symm, Bool.false_and]
  · cases rest with
    | nil => exact Bool.and_false _
    | cons d others =>
        have hNe : '/' ≠ d := fun hEq => hSecond (hEq ▸ rfl)
        rw [List.isPrefixOf, beq_false_of_ne hNe, Bool.false_and,
          Bool.and_false]

/- A text that starts with no slash and no bracket starts with a token. -/
theorem first?_of_token?
    {rest : List Char}
    {length : Nat}
    {build : Span → TokenTree}
    (hSlash : c ≠ '/')
    (hOpened : openedBy c = none)
    (hClosed : closedBy c = none)
    (hToken : token? (c :: rest) = some (length, build)) :
    first? (c :: rest) =
      some (length, fun span => .trees [build span]) := by
  have hParenthesis : c ≠ '(' := by
    rintro rfl
    cases hOpened
  have hError : errorLiteral.isPrefixOf (c :: rest) = false :=
    errorLiteral_isPrefixOf (Or.inl hParenthesis)
  simp [first?, Comment.doc?_of_ne hSlash, hError, hOpened, hClosed,
    hToken]

/- A mark is told by its character. -/
theorem first?_of_mark
    (hMark : c ∈ markChars)
    (hTick : c ≠ '\'')
    (hSlash : c ≠ '/')
    (rest : List Char) :
    Gap.length (c :: rest) = none ∧
      first? (c :: rest) =
        some (1, fun span =>
          .trees [.mark c (startsWithMark rest) span]) := by
  have hMarks :
      ∀ c ∈ markChars,
        c ∈ signs ∧ c ≠ '"' ∧ openedBy c = none ∧
          closedBy c = none :=
    forall_mem_of_all (by decide)
  rcases hMarks c hMark with ⟨hSign, hQuote, hOpened, hClosed⟩
  have hStarts : startsWithMark (c :: rest) = true := by
    simp [startsWithMark, hSlash, hMark]
  have hToken :
      token? (c :: rest) = some (1, .mark c (startsWithMark rest)) := by
    simp [token?,
      Literal.length_eq_none_of_sign hSign hQuote hTick rest, hStarts,
      hTick]
  exact ⟨Gap.length_eq_none hSlash (isSeparator_of_mem_signs hSign) rest,
    first?_of_token? hSlash hOpened hClosed hToken⟩

namespace Spells

variable {rest : List Char}
variable {lexemes : List Lexeme}

theorem word
    {word : String}
    (hIdentifier : IsIdentifier word.toList)
    (hEnd : EndsWord rest)
    (hRest : Spells rest lexemes) :
    Spells (word.toList ++ rest)
      (.trees [.word word .nowhere] :: lexemes) := by
  have hWord := @String.ofList_toList word
  generalize word.toList = name at *
  have hPlain := startsLikeLiteral_append hIdentifier hEnd
  have hLength := wordLength_append hIdentifier hEnd
  have hTake : (name ++ rest).take name.length = name :=
    List.take_left
  have hDrop : (name ++ rest).drop name.length = rest :=
    List.drop_left
  rcases hIdentifier.exists_start with ⟨c, tail, hName, hStart⟩
  generalize hText : name ++ rest = text at *
  obtain ⟨more, rfl⟩ : ∃ more, text = c :: more :=
    ⟨tail ++ rest, by rw [← hText, hName, List.cons_append]⟩
  have hSign := not_mem_signs_of_start hStart
  have hNot : ∀ d ∈ signs, c ≠ d := fun d hMem hEq =>
    hSign (hEq ▸ hMem)
  have hSlash := hNot '/' (by decide)
  have hMark : startsWithMark (c :: more) = false := by
    unfold startsWithMark
    split
    · rfl
    · rfl
    · next d others _ _ hCons =>
        cases hCons
        rw [Bool.eq_false_iff]
        intro hMem
        rw [List.contains_iff_mem] at hMem
        revert hMem hSign
        have hSub : ∀ d ∈ markChars, d ∈ signs :=
          forall_mem_of_all (by decide)
        exact fun hSign hMem => hSign (hSub c hMem)
    · rfl
  have hToken :
      token? (c :: more) =
        some (name.length, .word word) := by
    simp [token?, Literal.length_eq_none_of_start hStart hPlain, hMark,
      hPlain, hLength, hTake, hWord]
  have hOpened : openedBy c = none := by
    unfold openedBy
    split
    · exact absurd rfl (hNot _ (by decide))
    · exact absurd rfl (hNot _ (by decide))
    · exact absurd rfl (hNot _ (by decide))
    · rfl
  have hClosed : closedBy c = none := by
    unfold closedBy
    split
    · exact absurd rfl (hNot _ (by decide))
    · exact absurd rfl (hNot _ (by decide))
    · exact absurd rfl (hNot _ (by decide))
    · rfl
  have hFirst := first?_of_token? hSlash hOpened hClosed hToken
  refine .lexeme (Gap.length_eq_none hSlash
    (isSeparator_of_start hStart) more) hFirst ?_
  rw [hDrop]
  exact hRest

theorem mark
    (hMark : c ∈ markChars)
    (hTick : c ≠ '\'')
    (hSlash : c ≠ '/')
    (hRest : Spells rest lexemes) :
    Spells (c :: rest)
      (.trees [.mark c (startsWithMark rest) .nowhere] :: lexemes) := by
  rcases first?_of_mark hMark hTick hSlash rest with ⟨hGap, hFirst⟩
  exact .lexeme hGap hFirst hRest

theorem opening
    {delimiter : Delimiter}
    (hOpened : openedBy c = some delimiter)
    (hNext : rest.head? ≠ some '/')
    (hRest : Spells rest lexemes) :
    Spells (c :: rest) (.opening delimiter .nowhere :: lexemes) := by
  have hSign : c ∈ signs ∧ c ≠ '/' := by
    unfold openedBy at hOpened
    split at hOpened <;> cases hOpened
    all_goals decide
  have hError : errorLiteral.isPrefixOf (c :: rest) = false :=
    errorLiteral_isPrefixOf (Or.inr hNext)
  have hFirst :
      first? (c :: rest) = some (1, .opening delimiter) := by
    simp [first?, Comment.doc?_of_ne hSign.2, hError, hOpened]
  exact .lexeme
    (Gap.length_eq_none hSign.2 (isSeparator_of_mem_signs hSign.1) rest)
    hFirst hRest

theorem closing
    {delimiter : Delimiter}
    (hClosed : closedBy c = some delimiter)
    (hRest : Spells rest lexemes) :
    Spells (c :: rest) (.closing delimiter .nowhere :: lexemes) := by
  have hSign :
      c ∈ signs ∧ c ≠ '/' ∧ c ≠ '(' ∧ openedBy c = none := by
    unfold closedBy at hClosed
    split at hClosed <;> cases hClosed
    all_goals decide
  rcases hSign with ⟨hSign, hSlash, hParenthesis, hOpened⟩
  have hError : errorLiteral.isPrefixOf (c :: rest) = false :=
    errorLiteral_isPrefixOf (Or.inl hParenthesis)
  have hFirst :
      first? (c :: rest) = some (1, .closing delimiter) := by
    simp [first?, Comment.doc?_of_ne hSlash, hError, hOpened, hClosed]
  exact .lexeme
    (Gap.length_eq_none hSlash (isSeparator_of_mem_signs hSign) rest)
    hFirst hRest

end Spells

end Lexeme

end Nullary
