import Nullary.Constructor.Text
import Nullary.Proofs.Token.Cutting.Pieces

/-
  Texts whose blanks are reduced to single spaces.

  Blanks between lexemes may be changed into other blanks, and
  those in a comment between two marks as well.  A comment up
  to the end of its line takes in what is put on this line,
  and a literal or a documentation comment with other blanks
  than single spaces is no longer the same.

  Main declarations:
    * `Text.squeezeFrom`
    * `Text.joinWith_words`
    * `Lexeme.Parts`
    * `Lexeme.Spells.cut`
    * `Lexeme.Uneven`
    * `Lexeme.Spells.squeeze`
-/

namespace Nullary

------------------------------------------------------------
-- Blanks
------------------------------------------------------------

namespace Text

variable {text : List Char}

/-
  A text with one space for each run of blanks.  `blank` says
  that a blank stands before it, so that those at its start
  are left out.
-/
def squeezeFrom
    (blank : Bool) : List Char → List Char
  | [] => []
  | c :: rest =>
      if isBlank c then
        if blank then squeezeFrom true rest else ' ' :: squeezeFrom true rest
      else
        c :: squeezeFrom false rest

variable {blank : Bool}
variable {c : Char}

theorem squeezeFrom_cons
    (hBlank : isBlank c = false)
    (rest : List Char) :
    squeezeFrom blank (c :: rest) = c :: squeezeFrom false rest := by
  rw [squeezeFrom, hBlank, if_neg Bool.false_ne_true]

/- What follows a text is squeezed by how the text ends. -/
theorem squeezeFrom_append
    (text rest : List Char) :
    squeezeFrom blank (text ++ rest) =
      squeezeFrom blank text ++
        squeezeFrom ((text.getLast?.map isBlank).getD blank) rest := by
  induction text generalizing blank with
  | nil => rfl
  | cons c text ih =>
      have hLast :
          ∀ first,
            (text.getLast?.map isBlank).getD (isBlank first) =
              ((first :: text).getLast?.map isBlank).getD blank := by
        intro first
        rw [List.getLast?_cons]
        cases text.getLast? <;> rfl
      rw [List.cons_append, squeezeFrom, squeezeFrom, ih, ih, ← hLast]
      cases isBlank c with
      | false => rfl
      | true => cases blank <;> rfl

theorem squeezeFrom_of_solid
    (hSolid : ∀ c ∈ text, isBlank c = false) :
    squeezeFrom blank text = text := by
  induction text generalizing blank with
  | nil => rfl
  | cons c text ih =>
      rw [List.forall_mem_cons] at hSolid
      rw [squeezeFrom_cons hSolid.1, ih hSolid.2]

theorem length_squeezeFrom_le
    (text : List Char) :
    (squeezeFrom blank text).length ≤ text.length := by
  induction text generalizing blank with
  | nil => exact Nat.le_refl _
  | cons c text ih =>
      have hTrue := @ih true
      have hFalse := @ih false
      rw [squeezeFrom]
      split
      · split
        · rw [List.length_cons]
          omega
        · simpa using hTrue
      · simpa using hFalse

/- The last character is kept, or it is a space. -/
theorem getLast?_of_squeezeFrom
    (hLast : (squeezeFrom blank text).getLast? = some c)
    (hSpace : c ≠ ' ') :
    text.getLast? = some c := by
  induction text generalizing blank with
  | nil => cases hLast
  | cons d text ih =>
      have hInner :
          ∀ {blank}, (squeezeFrom blank text).getLast? = some c →
            (d :: text).getLast? = some c := by
        intro blank hFound
        rw [List.getLast?_cons, ih hFound]
        rfl
      rw [squeezeFrom] at hLast
      split at hLast
      · split at hLast
        · exact hInner hLast
        · cases hFound : (squeezeFrom true text).getLast? with
          | none =>
              rw [List.getLast?_cons, hFound] at hLast
              exact absurd (Option.some.inj hLast).symm hSpace
          | some last =>
              rw [List.getLast?_cons, hFound] at hLast
              cases hLast
              exact hInner hFound
      · cases hFound : (squeezeFrom false text).getLast? with
        | none =>
            rw [List.getLast?_cons, hFound] at hLast
            cases hLast
            cases text with
            | nil => rfl
            | cons e text =>
                rw [List.getLast?_eq_none_iff, squeezeFrom] at hFound
                split at hFound <;> cases hFound
        | some last =>
            rw [List.getLast?_cons, hFound] at hLast
            cases hLast
            exact hInner hFound

------------------------------------------------------------
-- Words
------------------------------------------------------------

/- Blanks at the end start no word. -/
theorem wordsFrom_append
    {blanks : List Char}
    (hBlanks : ∀ c ∈ blanks, isBlank c = true)
    (word text : List Char) :
    wordsFrom word (text ++ blanks) = wordsFrom word text := by
  have hNone : wordsFrom [] blanks = [] := by
    induction blanks with
    | nil => rfl
    | cons c blanks ih =>
        rw [List.forall_mem_cons] at hBlanks
        rw [wordsFrom, if_pos hBlanks.1]
        exact ih hBlanks.2
  induction text generalizing word with
  | nil =>
      cases blanks with
      | nil => rfl
      | cons c blanks =>
          rw [List.forall_mem_cons] at hBlanks
          simp only [wordsFrom, hBlanks.1, if_true,
            List.isEmpty_nil] at hNone
          simp only [List.nil_append, wordsFrom, hBlanks.1, if_true, hNone]
  | cons c text ih =>
      rw [List.cons_append, wordsFrom, wordsFrom, ih, ih]

/-
  Words with single spaces between them, if the text does not
  end with a blank; `word` holds what was read of a word.
-/
theorem joinWith_wordsFrom
    (hLast : ∀ c, text.getLast? = some c → isBlank c = false) :
    (∀ word, word ≠ [] →
        joinWith [' '] (wordsFrom word text) =
          word.reverse ++ squeezeFrom false text) ∧
      (text ≠ [] →
        wordsFrom [] text ≠ [] ∧
          joinWith [' '] (wordsFrom [] text) = squeezeFrom true text) := by
  induction text with
  | nil =>
      refine ⟨fun word hWord => ?_, fun hNil => absurd rfl hNil⟩
      simp [wordsFrom, hWord, joinWith, squeezeFrom]
  | cons c text ih =>
      have hRest : ∀ d, text.getLast? = some d → isBlank d = false := by
        intro d hLastRest
        refine hLast d ?_
        rw [List.getLast?_cons, hLastRest]
        rfl
      rcases ih hRest with ⟨hInside, hOutside⟩
      by_cases hBlank : isBlank c = true
      · -- A blank is not the last character.
        have hText : text ≠ [] := by
          rintro rfl
          rw [hLast c rfl] at hBlank
          cases hBlank
        rcases hOutside hText with ⟨hSome, hJoin⟩
        refine ⟨fun word hWord => ?_, fun _ => ?_⟩
        · rw [wordsFrom, if_pos hBlank, squeezeFrom, if_pos hBlank,
            ← hJoin]
          cases hWords : wordsFrom [] text with
          | nil => exact absurd hWords hSome
          | cons first others =>
              simp [hWord, joinWith, List.intercalate]
        · rw [wordsFrom, if_pos hBlank, squeezeFrom, if_pos hBlank]
          exact ⟨hSome, hJoin⟩
      · refine ⟨fun word hWord => ?_, fun _ => ⟨?_, ?_⟩⟩
        · rw [wordsFrom, if_neg hBlank, squeezeFrom, if_neg hBlank,
            hInside (c :: word) (List.cons_ne_nil c word)]
          simp
        · rw [wordsFrom, if_neg hBlank]
          intro hNone
          have hJoin := hInside [c] (List.cons_ne_nil c [])
          rw [hNone] at hJoin
          cases hJoin
        · rw [wordsFrom, if_neg hBlank, squeezeFrom, if_neg hBlank,
            hInside [c] (List.cons_ne_nil c [])]
          rfl

/- A text without what it ends with of a kind. -/
theorem reverse_dropWhile_reverse
    (test : Char → Bool)
    (text : List Char) :
    ∃ tail, text = (text.reverse.dropWhile test).reverse ++ tail ∧
      (∀ c ∈ tail, test c = true) ∧
      ∀ c, (text.reverse.dropWhile test).reverse.getLast? = some c →
        test c = false := by
  refine ⟨(text.reverse.takeWhile test).reverse, ?_, ?_, ?_⟩
  · rw [← List.reverse_append, List.takeWhile_append_dropWhile,
      List.reverse_reverse]
  · intro c hMem
    exact List.mem_takeWhile_imp (List.mem_reverse.mp hMem)
  · intro c hLast
    rw [List.getLast?_reverse] at hLast
    have hHead := List.head?_dropWhile_not test text.reverse
    rw [hLast] at hHead
    simpa using hHead

/- The words of a text are what it holds besides blanks. -/
theorem joinWith_words
    (text : List Char) :
    joinWith [' '] (words text) = squeezeFrom true (trimEnd text) := by
  rcases reverse_dropWhile_reverse isBlank text with
    ⟨tail, hText, hTail, hLast⟩
  have hTrim : (text.reverse.dropWhile isBlank).reverse = trimEnd text :=
    rfl
  rw [hTrim] at hText hLast
  rw [words]
  nth_rewrite 1 [hText]
  rw [wordsFrom_append hTail]
  by_cases hNil : trimEnd text = []
  · rw [hNil]
    rfl
  · exact ((joinWith_wordsFrom hLast).2 hNil).2

/- A text that stays as it is has no blanks to be left out. -/
theorem squeezeFrom_eq_self
    (hSame : joinWith [' '] (words text) = text)
    (hHead : ∀ c, text.head? = some c → isBlank c = false) :
    squeezeFrom blank text = text := by
  rw [joinWith_words] at hSame
  have hTrim : trimEnd text = text := by
    rcases reverse_dropWhile_reverse isBlank text with
      ⟨tail, hText, _⟩
    have hShort := @length_squeezeFrom_le true (trimEnd text)
    have hLength := congrArg List.length hText
    rw [hSame] at hShort
    rw [List.length_append] at hLength
    have hTail : tail = [] := by
      rw [← List.length_eq_zero_iff]
      unfold trimEnd at hShort
      omega
    rw [hTail, List.append_nil] at hText
    exact hText.symm
  rw [hTrim] at hSame
  cases text with
  | nil => rfl
  | cons c text =>
      rw [squeezeFrom_cons (hHead c rfl)] at hSame ⊢
      exact hSame

/-
  A text on one line without final commas, told by the part
  before the commas and the blanks that it ends with.
-/
theorem trimEndChar_joinWith_words
    (text : List Char) :
    ∃ piece tail, text = piece ++ tail ∧
      (∀ c ∈ tail, isBlank c = true ∨ c = ',') ∧
      trimEndChar ',' (joinWith [' '] (words text)) =
        squeezeFrom true piece := by
  rcases reverse_dropWhile_reverse isBlank text with
    ⟨blanks, hText, hBlanks, _⟩
  rcases reverse_dropWhile_reverse (· == ',') (trimEnd text) with
    ⟨commas, hTrim, hCommas, hLast⟩
  generalize ((trimEnd text).reverse.dropWhile (· == ',')).reverse = piece
    at hTrim hLast
  refine ⟨piece, commas ++ blanks, ?_, ?_, ?_⟩
  · rw [← List.append_assoc, ← hTrim]
    exact hText
  · intro c hMem
    rcases List.mem_append.mp hMem with hComma | hBlank
    · exact Or.inr (eq_of_beq (hCommas c hComma))
    · exact Or.inl (hBlanks c hBlank)
  · have hSolid : ∀ c ∈ commas, isBlank c = false := by
      intro c hMem
      rw [eq_of_beq (hCommas c hMem)]
      decide +kernel
    rw [joinWith_words, hTrim, squeezeFrom_append,
      squeezeFrom_of_solid hSolid, trimEndChar, List.reverse_append,
      List.dropWhile_append_of_pos (by simpa using hCommas)]
    -- What is left does not end with a comma.
    have hEnd :
        ∀ c, (squeezeFrom true piece).reverse.head? = some c →
          (c == ',') = false := by
      intro c hHead
      rw [List.head?_reverse] at hHead
      rw [Bool.eq_false_iff]
      intro hComma
      have hNe : c ≠ ' ' := by
        rintro rfl
        cases hComma
      rw [hLast c (getLast?_of_squeezeFrom hHead hNe)] at hComma
      cases hComma
    cases hReverse : (squeezeFrom true piece).reverse with
    | nil =>
        rw [List.reverse_eq_nil_iff.mp hReverse]
        rfl
    | cons c others =>
        rw [List.dropWhile_cons_of_neg
          (by rw [hEnd c (by rw [hReverse]; rfl)]; exact
            Bool.false_ne_true), ← hReverse, List.reverse_reverse]

end Text

------------------------------------------------------------
-- Cutting Off
------------------------------------------------------------

namespace Lexeme

theorem textsAll_append
    (first second : List Lexeme) :
    textsAll (first ++ second) = textsAll first ++ textsAll second :=
  List.flatMap_append

/- Blanks and commas end every token. -/
theorem endsToken_of_tail
    {tail : List Char}
    (hTail : ∀ c ∈ tail, isBlank c = true ∨ c = ',') :
    EndsToken tail := by
  cases tail with
  | nil => exact endsToken_nil
  | cons c tail =>
      refine endsToken_cons ?_ tail
      rcases hTail c List.mem_cons_self with hBlank | rfl
      · exact not_goesOn_of_isBlank hBlank
      · rintro (hContinue | hSign)
        · exact absurd hContinue (by decide)
        · exact absurd hSign (by decide)

/-
  Lexemes of which the first ones are what a piece yields and
  the others what the text after it spells.
-/
def Parts
    (piece tail : List Char)
    (lexemes : List Lexeme) : Prop :=
  ∃ before after, lexemes = before ++ after ∧ Spells tail after ∧
    Yields piece (textsAll before)

namespace Parts

variable {piece piece' tail : List Char}
variable {lexemes : List Lexeme}

theorem nil
    (hSpells : Spells tail lexemes) :
    Parts [] tail lexemes :=
  ⟨[], lexemes, rfl, hSpells, .nil⟩

theorem imp
    (hYields : ∀ written, Yields piece written → Yields piece' written)
    (hParts : Parts piece tail lexemes) :
    Parts piece' tail lexemes := by
  rcases hParts with ⟨before, after, hLexemes, hAfter, hBefore⟩
  exact ⟨before, after, hLexemes, hAfter, hYields _ hBefore⟩

theorem lexeme
    {lexeme : Lexeme}
    (hYields :
      ∀ written, Yields piece written →
        Yields piece' (lexeme.texts ++ written))
    (hParts : Parts piece tail lexemes) :
    Parts piece' tail (lexeme :: lexemes) := by
  rcases hParts with ⟨before, after, rfl, hAfter, hBefore⟩
  exact ⟨lexeme :: before, after, rfl, hAfter, hYields _ hBefore⟩

end Parts

namespace Spells

variable {piece tail : List Char}
variable {lexemes : List Lexeme}

/- Blanks and commas spell commas. -/
theorem texts_of_tail
    (hTail : ∀ c ∈ tail, isBlank c = true ∨ c = ',')
    (hSpells : Spells tail lexemes) :
    ∃ count, textsAll lexemes = List.replicate count "," ∧
      ((∀ c ∈ tail, isBlank c = true) → count = 0) := by
  induction hSpells with
  | nil => exact ⟨0, rfl, fun _ => rfl⟩
  | @gap text length lexemes hGap hRest ih =>
      have hDrop : ∀ c ∈ text.drop length, c ∈ text :=
        fun c hMem => List.mem_of_mem_drop hMem
      rcases ih fun c hMem => hTail c (hDrop c hMem) with
        ⟨count, hTexts, hNone⟩
      exact ⟨count, hTexts, fun hBlank => hNone fun c hMem =>
        hBlank c (hDrop c hMem)⟩
  | @lexeme text length build lexemes hGap hFirst hRest ih =>
      cases text with
      | nil => cases hFirst
      | cons c text =>
          have hComma : c = ',' := by
            rcases hTail c List.mem_cons_self with hBlank | hComma
            · have hSeparator : Gap.isSeparator c = true := by
                simp [Gap.isSeparator, hBlank]
              rw [Gap.length_of_separator hSeparator] at hGap
              cases hGap
            · exact hComma
          subst hComma
          have hToken :=
            (first?_of_mark (c := ',') (by decide) (by decide) (by decide)
              text).2
          rw [hToken] at hFirst
          cases hFirst
          have hDrop : ∀ c ∈ text, c ∈ ',' :: text :=
            fun c hMem => List.mem_cons_of_mem _ hMem
          rcases ih fun c hMem => hTail c (hDrop c hMem) with
            ⟨count, hTexts, _⟩
          refine ⟨count + 1, ?_, fun hBlank => ?_⟩
          · rw [textsAll_cons, hTexts, List.replicate_succ]
            rfl
          · exact absurd (hBlank ',' List.mem_cons_self)
              (by decide +kernel)

/-
  What stands before blanks and commas is read in the same
  way before other texts, unless it ends with a line comment.
-/
theorem cut
    (hTail : ∀ c ∈ tail, isBlank c = true ∨ c = ',')
    (hSpells : Spells (piece ++ tail) lexemes)
    (hLine : ¬ Reaches Comment.OpenLine piece) :
    Parts piece tail lexemes := by
  generalize hText : piece ++ tail = text at hSpells
  induction hSpells generalizing piece with
  | nil =>
      rcases List.append_eq_nil_iff.mp hText with ⟨rfl, rfl⟩
      exact .nil .nil
  | @gap text length lexemes hGap hRest ih =>
      subst hText
      by_cases hNil : piece = []
      · subst hNil
        exact .nil (.gap hGap hRest)
      · have hInside : length ≤ piece.length := by
          by_contra hPast
          exact hLine (.here ((Gap.closes_length hGap).openLine hNil hTail
            (by omega)))
        have hStays :=
          gap_of_piece hGap hInside fun hOpen =>
            absurd (Reaches.here hOpen) hLine
        have hAlone := hStays []
        rw [List.append_nil] at hAlone
        have hParts :=
          ih (fun hReach => hLine (.gap hAlone hReach))
            (drop_append_of_le hInside).symm
        exact hParts.imp fun _ => .gap hStays hInside
  | @lexeme text length build lexemes hGap hFirst hRest ih =>
      subst hText
      by_cases hNil : piece = []
      · subst hNil
        exact .nil (.lexeme hGap hFirst hRest)
      · have hInside : length ≤ piece.length := by
          by_contra hPast
          exact hLine (.here ((closes_first? hFirst).openLine hNil hTail
            (by omega)))
        have hStays := fun rest (hEnds : EndsPiece rest) =>
          first?_of_piece (endsToken_of_tail hTail) hGap hFirst hInside
            (fun hOpen => absurd (Reaches.here hOpen) hLine) hEnds
        have hAlone := hStays [] endsPiece_nil
        rw [List.append_nil] at hAlone
        rcases hAlone with ⟨hGap', _, hFirst', _⟩
        have hParts :=
          ih (fun hReach => hLine (.lexeme hGap' hFirst' hReach))
            (drop_append_of_le hInside).symm
        exact hParts.lexeme fun _ => .lexeme hStays hInside

end Spells

end Lexeme

------------------------------------------------------------
-- Block Comments
------------------------------------------------------------

namespace Comment

open Text

/- The first character that is left is the first one or a space. -/
theorem head?_squeezeFrom
    {c : Char}
    {text rest : List Char}
    (hHead : (squeezeFrom false text ++ rest).head? = some c)
    (hText : text ≠ [])
    (hSpace : c ≠ ' ') :
    text.head? = some c := by
  cases text with
  | nil => exact absurd rfl hText
  | cons d text =>
      rw [squeezeFrom] at hHead
      split at hHead
      · rw [if_neg Bool.false_ne_true] at hHead
        exact absurd (Option.some.inj hHead).symm hSpace
      · exact hHead

/- Reducing blanks makes no new pair of characters. -/
theorem blockLength_cons_squeezeFrom
    {depth : Nat}
    {blank : Bool}
    {c first : Char}
    {text : List Char}
    (hText : text ≠ [])
    (hOpens : ∀ others, c = '/' → text ≠ '*' :: others)
    (hCloses : ∀ others, c = '*' → text ≠ '/' :: others)
    (hFirst : first = ' ' ∨ first = c ∧ blank = false)
    (rest : List Char) :
    blockLength depth (first :: (squeezeFrom blank text ++ rest)) =
      (blockLength depth (squeezeFrom blank text ++ rest)).map
        (· + 1) := by
  have hNext :
      ∀ next others, first ≠ ' ' → next ≠ ' ' →
        squeezeFrom blank text ++ rest = next :: others →
        first = c ∧ ∃ others, text = next :: others := by
    intro next others hNe hSpace hEq
    rcases hFirst with hIs | ⟨hIs, rfl⟩
    · exact absurd hIs hNe
    · have hHead :
          (squeezeFrom false text ++ rest).head? = some next := by
        rw [hEq]
        rfl
      exact ⟨hIs, List.head?_eq_some_iff.mp
        (head?_squeezeFrom hHead hText hSpace)⟩
  apply blockLength_cons
  · rintro others rfl hEq
    rcases hNext '*' others (by decide) (by decide) hEq with
      ⟨hSame, others, hText⟩
    exact hOpens others hSame.symm hText
  · rintro others rfl hEq
    rcases hNext '/' others (by decide) (by decide) hEq with
      ⟨hSame, others, hText⟩
    exact hCloses others hSame.symm hText

theorem eq_some_of_map_add
    {found : Option Nat}
    {m n : Nat}
    (hMap : found.map (· + n) = some (m + n)) :
    found = some m := by
  rcases Option.map_eq_some_iff.mp hMap with ⟨k, hFound, hSum⟩
  rw [hFound, Nat.add_right_cancel hSum]

/- A block comment stays one if its blanks are reduced. -/
theorem blockLength_squeezeFrom
    {depth : Nat}
    {text : List Char}
    (hBlock : blockLength depth text = some text.length)
    (blank : Bool)
    (rest : List Char) :
    blockLength depth (squeezeFrom blank text ++ rest) =
      some (squeezeFrom blank text).length := by
  have hSlash : isBlank '/' = false := by decide +kernel
  have hStar : isBlank '*' = false := by decide +kernel
  fun_induction blockLength depth text generalizing blank with
  | case1 depth text ih =>
      rw [squeezeFrom_cons hSlash, squeezeFrom_cons hStar,
        List.cons_append, List.cons_append, blockLength,
        ih (eq_some_of_map_add hBlock) false]
      rfl
  | case2 depth text hDepth =>
      have hNil : text = [] := by simpa using hBlock
      rw [squeezeFrom_cons hStar, squeezeFrom_cons hSlash,
        List.cons_append, List.cons_append, blockLength,
        if_pos hDepth, hNil]
      rfl
  | case3 depth text hDepth ih =>
      rw [squeezeFrom_cons hStar, squeezeFrom_cons hSlash,
        List.cons_append, List.cons_append, blockLength,
        if_neg hDepth, ih (eq_some_of_map_add hBlock) false]
      rfl
  | case4 depth c text hOpens hCloses ih =>
      have hInner := eq_some_of_map_add hBlock
      have hText : text ≠ [] := by
        rintro rfl
        cases hInner
      rw [squeezeFrom]
      split
      · split
        · exact ih hInner true
        · rw [List.cons_append,
            blockLength_cons_squeezeFrom hText hOpens hCloses
              (Or.inl rfl),
            ih hInner true]
          rfl
      · rw [List.cons_append,
          blockLength_cons_squeezeFrom hText hOpens hCloses
            (Or.inr ⟨rfl, rfl⟩),
          ih hInner false]
        rfl
  | case5 depth => cases hBlock

/- A plain block comment stays plain. -/
theorem isPlainBlock_squeezeFrom
    {text rest : List Char}
    (hPlain : isPlainBlock ('/' :: '*' :: text) = true)
    (hLength : 2 ≤ text.length) :
    isPlainBlock ('/' :: '*' :: (squeezeFrom false text ++ rest)) =
      true := by
  have hSlash : isBlank '/' = false := by decide +kernel
  have hStar : isBlank '*' = false := by decide +kernel
  rcases text with _ | ⟨c, _ | ⟨d, text⟩⟩
  · simp at hLength
  · simp at hLength
  · by_cases hFirst : c = '*'
    · subst hFirst
      rw [squeezeFrom_cons hStar]
      by_cases hSecond : d = '/'
      · subst hSecond
        rw [squeezeFrom_cons hSlash]
        rfl
      · by_cases hThird : d = '*'
        · subst hThird
          rw [squeezeFrom_cons hStar]
          rfl
        · simp [isPlainBlock, hSecond, hThird] at hPlain
    · have hBang : c ≠ '!' := by
        rintro rfl
        cases hPlain
      rw [squeezeFrom]
      split
      · rfl
      · simp [isPlainBlock, hFirst, hBang]

end Comment

------------------------------------------------------------
-- Lexemes on One Line
------------------------------------------------------------

namespace Lexeme

open Text

variable {text : List Char}

/-
  What does not stay the same if it is put on one line: a
  comment up to the end of its line, and a lexeme that holds
  other blanks than single spaces.
-/
def Uneven
    (text : List Char) : Prop :=
  (∃ others, text = '/' :: '/' :: others) ∨
    Gap.length text = none ∧
      ∃ length build, first? text = some (length, build) ∧
        joinWith [' '] (words (text.take length)) ≠ text.take length

instance :
    DecidablePred Uneven :=
  fun text =>
    decidable_of_iff
      (['/', '/'] <+: text ∨
        Gap.length text = none ∧
          ((first? text).any fun found =>
            decide (joinWith [' '] (words (text.take found.1)) ≠
              text.take found.1)) = true)
      (by simp [Uneven, List.IsPrefix, Option.any_eq_true,
        @eq_comm _ text])

/- Where no gap is there is no blank. -/
theorem isBlank_of_gap
    {c : Char}
    (hGap : Gap.length (c :: text) = none) :
    isBlank c = false := by
  rw [Bool.eq_false_iff]
  intro hBlank
  have hSeparator : Gap.isSeparator c = true := by
    simp [Gap.isSeparator, hBlank]
  rw [Gap.length_of_separator hSeparator] at hGap
  cases hGap

/- A lexeme does not end with a blank, unless its line does. -/
theorem isBlank_of_getLast?
    {length : Nat}
    {build : Span → Lexeme}
    (hGap : Gap.length text = none)
    (hFirst : first? text = some (length, build))
    (hLine : ∀ others, text ≠ '/' :: '/' :: others)
    (c : Char)
    (hLast : (text.take length).getLast? = some c) :
    isBlank c = false := by
  cases closes_first? hFirst with
  | single hLength =>
      subst hLength
      cases text with
      | nil => cases hLast
      | cons d text =>
          cases hLast
          exact isBlank_of_gap hGap
  | line others hText => exact absurd hText (hLine others)
  | last i d hLength hChar hBlank =>
      have hInside : i < text.length :=
        (List.getElem?_eq_some_iff.mp hChar).1
      rw [List.getLast?_eq_getElem?, List.length_take,
        Nat.min_eq_left (by omega), List.getElem?_take_of_lt (by omega),
        hLength, Nat.add_sub_cancel, hChar] at hLast
      cases hLast
      exact hBlank

/- What is reduced to single spaces ends a piece. -/
theorem endsPiece_squeezeFrom
    {text rest : List Char}
    (hText : ∀ c, text.head? = some c → isBlank c = true)
    (hRest : EndsPiece rest) :
    EndsPiece (squeezeFrom false text ++ rest) := by
  cases text with
  | nil => exact hRest
  | cons c text =>
      rw [squeezeFrom, hText c rfl, if_pos rfl,
        if_neg Bool.false_ne_true]
      have hSpace : isBlank ' ' = true := by decide +kernel
      refine ⟨endsToken_cons (not_goesOn_of_isBlank hSpace) _, ?_⟩
      rintro d ⟨⟩
      decide

/- What stands up to the first blank is not changed. -/
theorem exists_squeezeFrom_eq_append
    (text : List Char) :
    ∃ solid blanks, text = solid ++ blanks ∧
      squeezeFrom false text = solid ++ squeezeFrom false blanks ∧
      ∀ c, blanks.head? = some c → isBlank c = true := by
  refine ⟨text.takeWhile (!isBlank ·), text.dropWhile (!isBlank ·),
    List.takeWhile_append_dropWhile.symm, ?_, ?_⟩
  · have hSolid :
        ∀ c ∈ text.takeWhile (!isBlank ·), isBlank c = false := by
      intro c hMem
      simpa using List.mem_takeWhile_imp hMem
    nth_rewrite 1 [← List.takeWhile_append_dropWhile
      (p := (!isBlank ·)) (l := text)]
    rw [squeezeFrom_append, squeezeFrom_of_solid hSolid]
    congr 2
    cases hLast : (text.takeWhile (!isBlank ·)).getLast? with
    | none => rfl
    | some last => exact hSolid last (List.mem_of_getLast? hLast)
  · intro c hHead
    have hNot := List.head?_dropWhile_not (!isBlank ·) text
    rw [hHead] at hNot
    simpa using hNot

section

variable {piece tail : List Char}
variable {length : Nat}
variable {build : Span → Lexeme}

/-
  The first lexeme of a text is kept, and a blank after it is
  seen to be the first one.
-/
theorem squeezeFrom_of_first?
    (hGap : Gap.length (piece ++ tail) = none)
    (hFirst : first? (piece ++ tail) = some (length, build))
    (hLength : length ≤ piece.length)
    (hEven : ¬ Uneven (piece ++ tail))
    (blank : Bool) :
    squeezeFrom blank piece =
      piece.take length ++ squeezeFrom false (piece.drop length) := by
  have hPos := first?_pos hFirst
  have hTake : (piece ++ tail).take length = piece.take length :=
    List.take_append_of_le_length hLength
  have hSame :
      joinWith [' '] (words (piece.take length)) = piece.take length := by
    by_contra hNe
    refine hEven (Or.inr ⟨hGap, length, build, hFirst, ?_⟩)
    rwa [hTake]
  have hHead :
      ∀ c, (piece.take length).head? = some c → isBlank c = false := by
    intro c hHead
    cases piece with
    | nil => simp at hHead
    | cons d piece =>
        cases length with
        | zero => omega
        | succ length =>
            cases hHead
            exact isBlank_of_gap hGap
  have hSome : piece.take length ≠ [] := by
    rw [ne_eq, List.take_eq_nil_iff]
    rintro (hZero | rfl)
    · omega
    · rw [List.length_nil] at hLength
      omega
  rcases Option.isSome_iff_exists.mp
      (List.getLast?_isSome.mpr hSome) with
    ⟨last, hLast⟩
  have hSolid : isBlank last = false :=
    isBlank_of_getLast? hGap hFirst
      (fun others hEq => hEven (Or.inl ⟨others, hEq⟩)) last
      (by rw [hTake, hLast])
  nth_rewrite 1 [← List.take_append_drop length piece]
  rw [squeezeFrom_append, hLast, squeezeFrom_eq_self hSame hHead]
  simp [hSolid]

/-
  Reducing the blanks that follow a lexeme does not change
  the lexeme.
-/
theorem first?_squeezeFrom
    (hTail : ∀ c ∈ tail, isBlank c = true ∨ c = ',')
    (hGap : Gap.length (piece ++ tail) = none)
    (hFirst : first? (piece ++ tail) = some (length, build))
    (hLength : length ≤ piece.length)
    (hEven : ¬ Uneven (piece ++ tail))
    (blank : Bool)
    (rest : List Char)
    (hRest : EndsPiece rest) :
    Gap.length (squeezeFrom blank piece ++ rest) = none ∧
      ∃ build', first? (squeezeFrom blank piece ++ rest) =
          some (length, build') ∧
        SameTexts build build' := by
  rw [squeezeFrom_of_first? hGap hFirst hLength hEven]
  -- What stands up to the next blank is not changed either.
  rcases exists_squeezeFrom_eq_append (piece.drop length) with
    ⟨solid, blanks, hDrop, hSqueezed, hBlanks⟩
  have hBefore :
      piece ++ tail =
        (piece.take length ++ solid) ++ (blanks ++ tail) := by
    rw [List.append_assoc, ← List.append_assoc solid, ← hDrop,
      ← List.append_assoc, List.take_append_drop]
  rw [hBefore] at hGap hFirst
  rw [hSqueezed, ← List.append_assoc, List.append_assoc]
  refine first?_of_append ?_ (endsPiece_squeezeFrom hBlanks hRest) hGap
    hFirst ?_ ?_
  · cases blanks with
    | nil => exact endsToken_of_tail hTail
    | cons c blanks =>
        exact endsToken_cons (not_goesOn_of_isBlank (hBlanks c rfl)) _
  · rw [List.length_append, List.length_take]
    omega
  · rintro _ others hEq
    exact hEven (Or.inl ⟨others ++ (blanks ++ tail), by
      rw [hBefore, hEq]
      rfl⟩)

end

/- A block comment with fewer blanks is still a gap. -/
theorem gap_squeezeFrom
    {piece tail others : List Char}
    {length : Nat}
    (hText : piece ++ tail = '/' :: '*' :: others)
    (hPlain : Comment.isPlainBlock (piece ++ tail) = true)
    (hBlock : Comment.blockLength 0 (piece ++ tail) = some length)
    (hLength : length ≤ piece.length)
    (blank : Bool) :
    ∃ comment,
      squeezeFrom blank piece =
          comment ++ squeezeFrom false (piece.drop length) ∧
        ∀ rest, Gap.length (comment ++ rest) = some comment.length := by
  have hSlash : isBlank '/' = false := by decide +kernel
  have hStar : isBlank '*' = false := by decide +kernel
  have hTake : (piece ++ tail).take length = piece.take length :=
    List.take_append_of_le_length hLength
  have hLast := (Comment.getElem?_of_blockLength hBlock).2.2
  have hFour : 4 ≤ length := by
    rw [hText] at hBlock
    exact Comment.four_le_of_blockLength hBlock
  have hSize : (piece.take length).length = length := by
    rw [List.length_take]
    omega
  have hAlone := Comment.blockLength_take hBlock
  rw [hTake] at hAlone
  refine ⟨squeezeFrom blank (piece.take length), ?_, ?_⟩
  · have hEnd : (piece.take length).getLast? = some '/' := by
      rw [← hTake, List.getLast?_eq_getElem?, hTake, hSize, ← hTake,
        List.getElem?_take_of_lt (by omega), hLast]
    nth_rewrite 1 [← List.take_append_drop length piece]
    rw [squeezeFrom_append, hEnd]
    simp [hSlash]
  · intro rest
    have hShape :
        ∃ inner more, piece.take length = '/' :: '*' :: inner ∧
          piece ++ tail = '/' :: '*' :: (inner ++ more) := by
      rw [← hTake, hText]
      rcases length with _ | _ | length
      · omega
      · omega
      · exact ⟨others.take length, others.drop length, rfl,
          by rw [List.take_append_drop]⟩
    have hBlock' := Comment.blockLength_squeezeFrom hAlone blank rest
    rcases hShape with ⟨inner, more, hInner, hWhole⟩
    have hTwo : 2 ≤ inner.length := by
      rw [hInner] at hSize
      simp only [List.length_cons] at hSize
      omega
    rw [hWhole] at hPlain
    have hPlain' : Comment.isPlainBlock ('/' :: '*' :: inner) = true := by
      have hAlone : Comment.isPlainBlock ('/' :: '*' :: (inner ++ [])) = true :=
        (Comment.isPlainBlock_append hTwo).trans hPlain
      rwa [List.append_nil] at hAlone
    rw [hInner, squeezeFrom_cons hSlash, squeezeFrom_cons hStar]
      at hBlock' ⊢
    have hStays :
        Comment.isPlainBlock
            ('/' :: '*' :: (squeezeFrom false inner ++ rest)) = true :=
      Comment.isPlainBlock_squeezeFrom hPlain' hTwo
    have hNoLine :
        Comment.isPlainLine
            ('/' :: '*' :: (squeezeFrom false inner ++ rest)) = false :=
      rfl
    unfold Gap.length
    rw [← hBlock', List.cons_append, List.cons_append, hNoLine,
      if_neg Bool.false_ne_true, if_pos hStays]

/- A blank or a separator is reduced. -/
theorem Yields.squeezeFrom_cons
    {blank : Bool}
    {c : Char}
    {written : List String}
    (hSeparator : Gap.isSeparator c = true)
    (hRest : Yields (squeezeFrom (isBlank c) text) written) :
    Yields (squeezeFrom blank (c :: text)) written := by
  rw [squeezeFrom]
  split
  · next hBlank =>
      rw [hBlank] at hRest
      split
      · exact hRest
      · exact hRest.blank (by decide +kernel)
  · next hBlank =>
      rw [Bool.not_eq_true] at hBlank
      rw [hBlank] at hRest
      exact .gap (fun _ => Gap.length_of_separator hSeparator _)
        (by simp) hRest

namespace Spells

/-
  What stands before blanks and commas may be put on one line
  before other texts.
-/
theorem squeeze
    {piece tail : List Char}
    {lexemes : List Lexeme}
    (hTail : ∀ c ∈ tail, isBlank c = true ∨ c = ',')
    (hSpells : Spells (piece ++ tail) lexemes)
    (hEven : ¬ Reaches Uneven (piece ++ tail))
    (blank : Bool) :
    Parts (squeezeFrom blank piece) tail lexemes := by
  generalize hText : piece ++ tail = text at hSpells hEven
  induction hSpells generalizing piece blank with
  | nil =>
      rcases List.append_eq_nil_iff.mp hText with ⟨rfl, rfl⟩
      exact .nil .nil
  | @gap text length lexemes hGap hRest ih =>
      have hInner := fun hReach => hEven (.gap hGap hReach)
      subst hText
      by_cases hNil : piece = []
      · subst hNil
        exact .nil (.gap hGap hRest)
      · rcases Gap.length_cases hGap with
          ⟨c, others, hText, hSeparator, rfl⟩ | ⟨others, hText, _⟩ |
            ⟨others, hText, hPlain, hBlock⟩
        · cases piece with
          | nil => exact absurd rfl hNil
          | cons d piece =>
              cases hText
              exact (ih (isBlank c) rfl hInner).imp
                fun _ => .squeezeFrom_cons hSeparator
        · exact absurd (Reaches.here (Or.inl ⟨others, hText⟩)) hEven
        · have hInside : length ≤ piece.length := by
            by_contra hPast
            rcases (Gap.closes_length hGap).openLine hNil hTail (by omega)
              with ⟨⟨more, rfl⟩, _⟩
            cases hText
          rcases gap_squeezeFrom hText hPlain hBlock hInside blank with
            ⟨comment, hSplit, hComment⟩
          have hParts := ih false (drop_append_of_le hInside).symm hInner
          have hGapRest :
              ∀ rest,
                Gap.length (squeezeFrom blank piece ++ rest) =
                  some comment.length := by
            intro rest
            rw [hSplit, List.append_assoc, hComment]
          refine hParts.imp fun _ hYields => .gap hGapRest ?_ ?_
          · simp [hSplit]
          · rwa [hSplit, List.drop_left]
  | @lexeme text length build lexemes hGap hFirst hRest ih =>
      have hInner := fun hReach => hEven (.lexeme hGap hFirst hReach)
      subst hText
      by_cases hNil : piece = []
      · subst hNil
        exact .nil (.lexeme hGap hFirst hRest)
      · have hHere : ¬ Uneven (piece ++ tail) :=
          fun hUneven => hEven (.here hUneven)
        have hInside : length ≤ piece.length := by
          by_contra hPast
          rcases (closes_first? hFirst).openLine hNil hTail (by omega) with
            ⟨⟨others, rfl⟩, _⟩
          exact hHere (Or.inl ⟨others ++ tail, rfl⟩)
        have hSplit :=
          squeezeFrom_of_first? hGap hFirst hInside hHere blank
        have hParts := ih false (drop_append_of_le hInside).symm hInner
        have hSize : (piece.take length).length = length := by
          rw [List.length_take]
          omega
        refine hParts.lexeme fun _ hYields => .lexeme
          (first?_squeezeFrom hTail hGap hFirst hInside hHere blank) ?_ ?_
        · rw [hSplit, List.length_append, hSize]
          omega
        · rw [hSplit]
          nth_rewrite 1 [← hSize]
          rwa [List.drop_left]

end Spells

end Lexeme

end Nullary
