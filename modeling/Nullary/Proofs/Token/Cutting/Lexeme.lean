import Nullary.Proofs.Token.Cutting.Literal
import Nullary.Proofs.Token.Texts

/-
  Comments and lexemes that are cut out of a text.

  A line comment has no end of its own: a piece that ends
  with one is not read in the same way before other texts.
  Every other gap or lexeme that lies in a piece is.

  Main declarations:
    * `Comment.blockLength_of_append`
    * `Gap.length_of_append`
    * `Lexeme.token?_of_append`
    * `Lexeme.first?_of_append`
-/

namespace Nullary

------------------------------------------------------------
-- Comments
------------------------------------------------------------

namespace Comment

variable {text rest rest' : List Char}
variable {length : Nat}
variable {depth : Nat}

theorem blockLength_le
    (hBlock : blockLength depth text = some length) :
    length ≤ text.length :=
  (getElem?_of_blockLength hBlock).2.1

/- A character of a block comment that starts and ends none. -/
theorem blockLength_cons
    {c : Char}
    (hOpens : ∀ others, c = '/' → text ≠ '*' :: others)
    (hCloses : ∀ others, c = '*' → text ≠ '/' :: others) :
    blockLength depth (c :: text) =
      (blockLength depth text).map (· + 1) := by
  conv => lhs; unfold blockLength
  split
  · next hEq =>
      cases hEq
      exact absurd rfl (hOpens _ rfl)
  · next hEq =>
      cases hEq
      exact absurd rfl (hCloses _ rfl)
  · next hEq =>
      cases hEq
      rfl
  · next hEq => cases hEq

theorem blockLength_of_append
    (hBlock : blockLength depth (text ++ rest) = some length)
    (hLength : length ≤ text.length) :
    blockLength depth (text ++ rest') = some length := by
  have hTwo := (getElem?_of_blockLength hBlock).1
  fun_induction blockLength depth text generalizing length with
  | case1 depth text ih =>
      rw [List.cons_append, List.cons_append, blockLength] at hBlock ⊢
      rcases Option.map_eq_some_iff.mp hBlock with ⟨inner, hInner, rfl⟩
      simp only [List.length_cons] at hLength
      rw [ih hInner (by omega) (getElem?_of_blockLength hInner).1]
      rfl
  | case2 depth text hDepth =>
      rw [List.cons_append, List.cons_append, blockLength,
        if_pos hDepth] at hBlock ⊢
      exact hBlock
  | case3 depth text hDepth ih =>
      rw [List.cons_append, List.cons_append, blockLength,
        if_neg hDepth] at hBlock ⊢
      rcases Option.map_eq_some_iff.mp hBlock with ⟨inner, hInner, rfl⟩
      simp only [List.length_cons] at hLength
      rw [ih hInner (by omega) (getElem?_of_blockLength hInner).1]
      rfl
  | case4 depth c text hOpens hCloses ih =>
      have hCons :
          ∀ more,
            blockLength depth (c :: (text ++ more)) =
              (blockLength depth (text ++ more)).map (· + 1) := by
        intro more
        cases text with
        | nil =>
            rw [List.length_singleton] at hLength
            omega
        | cons d text =>
            apply blockLength_cons
            · rintro others hC ⟨⟩
              exact hOpens text hC rfl
            · rintro others hC ⟨⟩
              exact hCloses text hC rfl
      rw [List.cons_append, hCons] at hBlock ⊢
      rcases Option.map_eq_some_iff.mp hBlock with ⟨inner, hInner, rfl⟩
      rw [List.length_cons] at hLength
      rw [ih hInner (by omega) (getElem?_of_blockLength hInner).1]
      rfl
  | case5 =>
      rw [List.length_nil] at hLength
      omega

/- The characters that open a comment stand in a piece that is long enough. -/
theorem exists_cons_cons
    {c d : Char}
    {others : List Char}
    (hText : text ++ rest = c :: d :: others)
    (hLength : 2 ≤ text.length) :
    ∃ more, text = c :: d :: more ∧ others = more ++ rest := by
  rcases text with _ | ⟨_, _ | ⟨_, more⟩⟩
  · cases hLength
  · exact absurd hLength (by simp)
  · cases hText
    exact ⟨more, rfl, rfl⟩

/- A block comment by itself. -/
theorem blockLength_take
    (hBlock : blockLength depth text = some length) :
    blockLength depth (text.take length) =
      some (text.take length).length := by
  have hLe := blockLength_le hBlock
  rw [← List.take_append_drop length text] at hBlock
  have hCut : blockLength depth (text.take length ++ []) = some length :=
    blockLength_of_append hBlock (by rw [List.length_take]; omega)
  rw [List.append_nil] at hCut
  rw [hCut, List.length_take, Nat.min_eq_left hLe]

/- A block comment has an opening and a closing. -/
theorem four_le_of_blockLength
    {others : List Char}
    {found : Nat}
    (hBlock : blockLength 0 ('/' :: '*' :: others) = some found) :
    4 ≤ found := by
  rw [blockLength] at hBlock
  rcases Option.map_eq_some_iff.mp hBlock with ⟨inner, hInner, rfl⟩
  have hTwo := (getElem?_of_blockLength hInner).1
  omega

/- A line that ends in a piece. -/
theorem lineLength_append
    (hFeed : '\n' ∈ text) :
    lineLength (text ++ rest') = lineLength (text ++ rest) := by
  have hPart :
      (text.takeWhile (· != '\n')).length ≠ text.length := by
    intro hAll
    have hSame :=
      (List.takeWhile_prefix (· != '\n')).eq_of_length hAll
    rw [← hSame] at hFeed
    simpa using List.mem_takeWhile_imp hFeed
  rw [lineLength, lineLength, List.takeWhile_append,
    List.takeWhile_append, if_neg hPart, if_neg hPart]

theorem feed_mem_of_lineLength
    (hLength : lineLength (text ++ rest) < text.length) :
    '\n' ∈ text := by
  by_contra hFeed
  have hAll : ∀ c ∈ text, (c != '\n') = true := by
    intro c hMem
    rw [bne_iff_ne]
    rintro rfl
    exact hFeed hMem
  rw [lineLength, List.takeWhile_append_of_pos hAll,
    List.length_append] at hLength
  omega

theorem lineLength_le
    (text : List Char) :
    lineLength text ≤ text.length :=
  (List.takeWhile_prefix _).length_le

theorem lineContent_cons
    {c : Char}
    (hFeed : c ≠ '\n')
    (hReturn : c = '\r' → text.head? ≠ some '\n') :
    lineContent (c :: text) = c :: lineContent text := by
  conv => lhs; unfold lineContent
  split
  · next hEq => cases hEq
  · next hEq =>
      cases hEq
      exact absurd rfl hFeed
  · next hEq =>
      cases hEq
      exact absurd rfl (hReturn rfl)
  · next hEq =>
      cases hEq
      rfl

theorem lineContent_of_append
    (hFeed : '\n' ∈ text) :
    lineContent (text ++ rest') = lineContent (text ++ rest) := by
  induction text with
  | nil => cases hFeed
  | cons c text ih =>
      rw [List.cons_append, List.cons_append]
      by_cases hC : c = '\n'
      · subst hC
        rfl
      · have hText : '\n' ∈ text := by
          rcases List.mem_cons.mp hFeed with hEq | hMem
          · exact absurd hEq.symm hC
          · exact hMem
        cases text with
        | nil => cases hText
        | cons d text =>
            by_cases hReturn : c = '\r' ∧ d = '\n'
            · rcases hReturn with ⟨rfl, rfl⟩
              rfl
            · have hPlain :
                  ∀ more : List Char,
                    lineContent (c :: (d :: text ++ more)) =
                      c :: lineContent (d :: text ++ more) := by
                intro more
                refine lineContent_cons hC ?_
                intro hEq hHead
                cases hHead
                exact hReturn ⟨hEq, rfl⟩
              rw [hPlain, hPlain, ih hText]

theorem cons_of_isPlainLine
    (hLine : isPlainLine text = true) :
    ∃ others, text = '/' :: '/' :: others := by
  unfold isPlainLine at hLine
  split at hLine
  · exact ⟨_, rfl⟩
  · cases hLine
  · cases hLine
  · exact ⟨_, rfl⟩
  · cases hLine

theorem cons_of_isPlainBlock
    (hBlock : isPlainBlock text = true) :
    ∃ others, text = '/' :: '*' :: others := by
  unfold isPlainBlock at hBlock
  split at hBlock
  · exact ⟨_, rfl⟩
  · exact ⟨_, rfl⟩
  · cases hBlock
  · cases hBlock
  · exact ⟨_, rfl⟩
  · cases hBlock

/- The first characters of a line comment. -/
theorem isPlainLine_append
    (hFeed : '\n' ∈ text) :
    isPlainLine ('/' :: '/' :: (text ++ rest')) =
      isPlainLine ('/' :: '/' :: (text ++ rest)) := by
  rcases text with _ | ⟨c, text⟩
  · cases hFeed
  · by_cases hThird : c = '/'
    · subst hThird
      rcases text with _ | ⟨d, text⟩
      · exact absurd hFeed (by decide)
      · by_cases hFourth : d = '/'
        · subst hFourth
          rfl
        · simp [isPlainLine, hFourth]
    · by_cases hBang : c = '!'
      · subst hBang
        rfl
      · simp [isPlainLine, hThird, hBang]

/- The first characters of a block comment. -/
theorem isPlainBlock_append
    (hText : 2 ≤ text.length) :
    isPlainBlock ('/' :: '*' :: (text ++ rest')) =
      isPlainBlock ('/' :: '*' :: (text ++ rest)) := by
  rcases text with _ | ⟨c, _ | ⟨d, text⟩⟩
  · cases hText
  · exact absurd hText (by simp)
  · by_cases hThird : c = '*'
    · subst hThird
      by_cases hSlash : d = '/'
      · subst hSlash
        rfl
      · by_cases hStar : d = '*'
        · subst hStar
          rfl
        · simp [isPlainBlock, hSlash, hStar]
    · by_cases hBang : c = '!'
      · subst hBang
        rfl
      · simp [isPlainBlock, hThird, hBang]

/- A slash that starts no comment. -/
theorem no_comment_of_slash
    (hText : text.head? ≠ some '/')
    (hText' : text.head? ≠ some '*') :
    isPlainLine ('/' :: text) = false ∧
      isPlainBlock ('/' :: text) = false ∧
      doc? ('/' :: text) = none := by
  cases text with
  | nil => exact ⟨rfl, rfl, rfl⟩
  | cons c text =>
      have hSlash : c ≠ '/' := fun hEq => hText (by rw [hEq]; rfl)
      have hStar : c ≠ '*' := fun hEq => hText' (by rw [hEq]; rfl)
      simp [isPlainLine, isPlainBlock, doc?, hSlash, hStar]

theorem doc?_line_append
    (hFeed : '\n' ∈ text) :
    doc? ('/' :: '/' :: (text ++ rest')) =
      doc? ('/' :: '/' :: (text ++ rest)) := by
  have hLine :
      lineLength ('/' :: '/' :: (text ++ rest')) =
        lineLength ('/' :: '/' :: (text ++ rest)) := by
    have hFeed' : '\n' ∈ '/' :: '/' :: text := by simp [hFeed]
    exact lineLength_append hFeed'
  rcases text with _ | ⟨c, text⟩
  · cases hFeed
  · rw [List.cons_append, List.cons_append] at *
    by_cases hBang : c = '!'
    · subst hBang
      have hText : '\n' ∈ text := by simpa using hFeed
      rw [doc?, doc?, hLine, lineContent_of_append hText]
    · by_cases hSlash : c = '/'
      · subst hSlash
        have hText : '\n' ∈ text := by simpa using hFeed
        have hHead :
            (text ++ rest').head? = (text ++ rest).head? := by
          cases text with
          | nil => cases hText
          | cons d text => rfl
        rw [doc?, doc?, hLine, lineContent_of_append hText, hHead]
      · simp [doc?, hBang, hSlash]

theorem doc?_block_append
    {inner : Bool}
    {content : List Char}
    (hDoc :
      doc? ('/' :: '*' :: (text ++ rest)) =
        some (length, inner, content))
    (hLength : length ≤ text.length + 2) :
    doc? ('/' :: '*' :: (text ++ rest')) =
      some (length, inner, content) := by
  have hBlock :
      ∀ found, found ≤ text.length + 2 →
        blockLength 0 ('/' :: '*' :: (text ++ rest)) = some found →
        2 ≤ text.length ∧
          blockLength 0 ('/' :: '*' :: (text ++ rest')) = some found := by
    intro found hFound hBlock
    have hStable :
        blockLength 0 ('/' :: '*' :: text ++ rest') = some found :=
      blockLength_of_append hBlock (by simpa using hFound)
    rw [blockLength] at hBlock
    rcases Option.map_eq_some_iff.mp hBlock with ⟨inner, hInner, rfl⟩
    have hTwo := (getElem?_of_blockLength hInner).1
    exact ⟨by omega, hStable⟩
  have hContent :
      ∀ found, found ≤ text.length + 2 → 2 ≤ text.length →
        blockContent ('/' :: '*' :: (text ++ rest')) found =
          blockContent ('/' :: '*' :: (text ++ rest)) found := by
    intro found hFound hTwo
    cases text with
    | nil => cases hTwo
    | cons c text =>
        rw [List.length_cons] at hFound
        have hInside : found - 5 ≤ text.length := by omega
        simp only [blockContent, List.cons_append, List.drop_succ_cons,
          List.drop_zero, List.take_append_of_le_length hInside]
  unfold doc? at hDoc
  split at hDoc
  · next hEq => cases hEq
  · next hEq => cases hEq
  · next more hEq =>
      rcases Option.bind_eq_some_iff.mp hDoc with
        ⟨found, hFound, hPair⟩
      cases hPair
      rcases hBlock _ hLength hFound with ⟨hTwo, hStable⟩
      have hSame := hContent _ hLength hTwo
      rcases text with _ | ⟨c, text⟩
      · cases hTwo
      · cases hEq
        rw [List.cons_append] at hStable hSame ⊢
        rw [doc?, hStable, ← hSame]
        rfl
  · next more hEq =>
      split at hDoc
      · cases hDoc
      · next hStar =>
          rcases Option.bind_eq_some_iff.mp hDoc with
            ⟨found, hFound, hPair⟩
          cases hPair
          rcases hBlock _ hLength hFound with ⟨hTwo, hStable⟩
          have hSame := hContent _ hLength hTwo
          rcases text with _ | ⟨c, _ | ⟨d, text⟩⟩
          · cases hTwo
          · exact absurd hTwo (by simp)
          · cases hEq
            rw [List.cons_append, List.cons_append] at hStable hSame ⊢
            rw [doc?, hStable, ← hSame]
            exact if_neg hStar
  · cases hDoc

end Comment

------------------------------------------------------------
-- Gaps
------------------------------------------------------------

namespace Gap

variable {text rest rest' : List Char}
variable {found : Nat}

theorem length_le
    (hGap : Gap.length text = some found) :
    found ≤ text.length := by
  unfold Gap.length at hGap
  split at hGap
  · cases hGap
    exact Comment.lineLength_le text
  · split at hGap
    · exact Comment.blockLength_le hGap
    · split at hGap
      · split at hGap <;> cases hGap
        rw [List.length_cons]
        omega
      · cases hGap

/- A gap is a separator, a line comment, or a block comment. -/
theorem length_cases
    (hGap : Gap.length text = some found) :
    (∃ c others, text = c :: others ∧ isSeparator c = true ∧
        found = 1) ∨
      (∃ others, text = '/' :: '/' :: others ∧
        Comment.isPlainLine text = true ∧
        found = Comment.lineLength text) ∨
      (∃ others, text = '/' :: '*' :: others ∧
        Comment.isPlainBlock text = true ∧
        Comment.blockLength 0 text = some found) := by
  unfold Gap.length at hGap
  split at hGap
  · next hLine =>
      cases hGap
      rcases Comment.cons_of_isPlainLine hLine with ⟨others, hText⟩
      exact Or.inr (Or.inl ⟨others, hText, hLine, rfl⟩)
  · split at hGap
    · next hBlock =>
        rcases Comment.cons_of_isPlainBlock hBlock with ⟨others, hText⟩
        exact Or.inr (Or.inr ⟨others, hText, hBlock, hGap⟩)
    · split at hGap
      · split at hGap <;> cases hGap
        next hSeparator => exact Or.inl ⟨_, _, rfl, hSeparator, rfl⟩
      · cases hGap

/- A gap in a piece is there whatever follows the piece. -/
theorem length_of_append
    (hGap : Gap.length (text ++ rest) = some found)
    (hFound : found ≤ text.length)
    (hLine : found = text.length → ∀ others, text ≠ '/' :: '/' :: others) :
    Gap.length (text ++ rest') = some found := by
  rcases length_cases hGap with
    ⟨c, others, hText, hSeparator, rfl⟩ | ⟨others, hText, hPlain, rfl⟩ |
      ⟨others, hText, hPlain, hBlock⟩
  · cases text with
    | nil => cases hFound
    | cons d text =>
        cases hText
        exact Gap.length_of_separator hSeparator _
  · have hTwo : 2 ≤ Comment.lineLength (text ++ rest) := by
      rw [hText]
      simp [Comment.lineLength]
    rcases Comment.exists_cons_cons hText (by omega) with
      ⟨text, rfl, rfl⟩
    have hShort :
        Comment.lineLength ('/' :: '/' :: text ++ rest) <
          ('/' :: '/' :: text).length := by
      refine Nat.lt_of_le_of_ne hFound fun hEq => ?_
      exact hLine hEq text rfl
    have hFeed := Comment.feed_mem_of_lineLength hShort
    have hText : '\n' ∈ text := by simpa using hFeed
    have hPlain' :
        Comment.isPlainLine ('/' :: '/' :: (text ++ rest')) = true :=
      (Comment.isPlainLine_append hText).trans hPlain
    have hSame :
        Comment.lineLength ('/' :: '/' :: text ++ rest') =
          Comment.lineLength ('/' :: '/' :: text ++ rest) :=
      Comment.lineLength_append hFeed
    unfold Gap.length
    rw [← hSame, List.cons_append, List.cons_append, if_pos hPlain']
  · have hFour := Comment.four_le_of_blockLength (hText ▸ hBlock)
    rcases Comment.exists_cons_cons hText (by omega) with
      ⟨text, rfl, rfl⟩
    have hBlock' :
        Comment.blockLength 0 ('/' :: '*' :: text ++ rest') =
          some found :=
      Comment.blockLength_of_append hBlock hFound
    simp only [List.length_cons] at hFound
    have hPlain' :
        Comment.isPlainBlock ('/' :: '*' :: (text ++ rest')) = true :=
      (Comment.isPlainBlock_append (by omega)).trans hPlain
    have hNoLine :
        Comment.isPlainLine ('/' :: '*' :: (text ++ rest')) = false :=
      rfl
    unfold Gap.length
    rw [← hBlock', List.cons_append, List.cons_append, hNoLine,
      if_neg Bool.false_ne_true, if_pos hPlain']

end Gap

------------------------------------------------------------
-- Lexemes
------------------------------------------------------------

namespace Lexeme

variable {text rest rest' : List Char}
variable {length : Nat}
variable {c : Char}

theorem token?_le
    {build : Span → TokenTree}
    (hToken : token? text = some (length, build)) :
    length ≤ text.length := by
  cases token?_eq_some_iff.mp hToken with
  | literal hLiteral => exact (Literal.length_bounds hLiteral).2
  | lifetime => simp
  | mark => simp
  | word hLiteral hMark hPlain hWord => exact wordLength_le hWord

theorem first?_le
    {build : Span → Lexeme}
    (hFirst : first? text = some (length, build)) :
    length ≤ text.length := by
  cases firstAt_of_first? hFirst with
  | doc hDoc =>
      have hAt : Comment.IsDocAt text 0 (0 + length) :=
        Comment.isDocAt_of_doc? hDoc
      simpa using hAt.stop_le_length
  | error hDoc hError =>
      exact (List.isPrefixOf_iff_prefix.mp hError).length_le
  | opening => simp
  | closing => simp
  | token hToken => exact token?_le hToken

/- What a lexeme is built of but its spans. -/
def SameTexts
    (build build' : Span → Lexeme) : Prop :=
  ∀ span span', (build span).texts = (build' span').texts

theorem startsWithMark_iff :
    startsWithMark (c :: text) = true ↔
      c ∈ markChars ∧
        (c = '/' → text.head? ≠ some '/' ∧ text.head? ≠ some '*') := by
  unfold startsWithMark
  split
  · next hEq =>
      cases hEq
      simp
  · next hEq =>
      cases hEq
      simp
  · next hSlash hStar hEq =>
      cases hEq
      rw [List.contains_iff_mem]
      refine ⟨fun hMem => ⟨hMem, ?_⟩, fun hBoth => hBoth.1⟩
      rintro rfl
      cases text with
      | nil => exact ⟨nofun, nofun⟩
      | cons d text =>
          refine ⟨?_, ?_⟩
          · rintro ⟨⟩
            exact hSlash text rfl rfl
          · rintro ⟨⟩
            exact hStar text rfl rfl
  · next hEq => cases hEq

theorem mem_signs_of_startsWithMark
    (hMark : startsWithMark (c :: text) = true) :
    c ∈ signs ∧ c ≠ '"' := by
  have hSigns : ∀ c ∈ markChars, c ∈ signs ∧ c ≠ '"' :=
    forall_mem_of_all (by decide)
  exact hSigns c (startsWithMark_iff.mp hMark).1

theorem startsWithMark_of_append
    (hEnds : EndsPiece rest')
    (hMark : startsWithMark (c :: (text ++ rest)) = true) :
    startsWithMark (c :: (text ++ rest')) = true := by
  rw [startsWithMark_iff] at hMark ⊢
  refine ⟨hMark.1, fun hSlash => ?_⟩
  have hNext := hMark.2 hSlash
  cases text with
  | nil =>
      refine ⟨fun hHead => ?_, fun hHead => ?_⟩
      · exact hEnds.head _ hHead (by decide)
      · exact hEnds.head _ hHead (by decide)
  | cons d text => exact hNext

theorem start_of_wordLength
    {found : Nat}
    (hLength : wordLength (c :: text) = some found) :
    isIdentifierStart c = true := by
  unfold wordLength at hLength
  split at hLength
  · next hEq =>
      cases hEq
      decide
  · unfold identifierLength at hLength
    dsimp only at hLength
    split at hLength
    · next hStart => exact hStart
    · cases hLength

/- A quote and a letter that no quote follows are no character. -/
theorem character_eq_none_iff
    (hStart : isIdentifierStart c = true) :
    Literal.character ('\'' :: c :: text) = none ↔
      text.head? ≠ some '\'' := by
  have hEscape : c ≠ '\\' := by
    rintro rfl
    exact absurd hStart (by decide)
  have hBody :
      Literal.characterBody .text (c :: text) = some 1 := by
    simp [Literal.characterBody]
  rw [Literal.character, Option.map_eq_none_iff, Literal.quotedCharacter,
    hBody]
  simp only [Option.bind_eq_bind, Option.bind_some, List.drop_succ_cons,
    List.drop_zero]
  split
  · simp [Literal.withSuffix]
  · next hOther =>
      refine ⟨fun _ hHead => ?_, fun _ => rfl⟩
      cases text with
      | nil => cases hHead
      | cons d text =>
          cases hHead
          exact hOther text rfl

theorem length_quote_iff
    (hStart : isIdentifierStart c = true) :
    Literal.length ('\'' :: c :: text) = none ↔
      text.head? ≠ some '\'' := by
  have hNumber : Literal.number ('\'' :: c :: text) = none := by
    cases hFound : Literal.number ('\'' :: c :: text) with
    | none => rfl
    | some found =>
        rcases Literal.isDigit_of_number hFound with
          ⟨d, others, hEq, hDigit⟩
        cases hEq
        exact absurd hDigit (by decide)
  rw [← character_eq_none_iff hStart]
  have hString : Literal.string ('\'' :: c :: text) = none := rfl
  simp [Literal.length, hString, hNumber]

theorem length_quote_of_append
    (hEnds : EndsToken rest')
    (hLifetime : startsLifetime text = true)
    (hLiteral : Literal.length ('\'' :: (text ++ rest)) = none) :
    Literal.length ('\'' :: (text ++ rest')) = none := by
  cases text with
  | nil => cases hLifetime
  | cons c text =>
      have hStart : isIdentifierStart c = true := by
        unfold startsLifetime at hLifetime
        split at hLifetime
        · cases hLifetime
        · next hLength => exact start_of_wordLength hLength
      rw [List.cons_append, length_quote_iff hStart] at hLiteral ⊢
      cases text with
      | nil =>
          intro hHead
          exact hEnds.ne hHead (Or.inr (by decide)) rfl
      | cons d text => exact hLiteral

/- A token in a piece is there whatever follows the piece. -/
theorem token?_of_append
    {build : Span → TokenTree}
    (hEnds : EndsToken rest)
    (hEnds' : EndsPiece rest')
    (hToken : token? (text ++ rest) = some (length, build))
    (hLength : length ≤ text.length) :
    ∃ build', token? (text ++ rest') = some (length, build') ∧
      ∀ span span', (build span).texts = (build' span').texts := by
  have hPos := token?_pos hToken
  cases text with
  | nil =>
      rw [List.length_nil] at hLength
      omega
  | cons c text =>
  have hTake :
      ∀ more,
        (c :: (text ++ more)).take length = (c :: text).take length :=
    fun _ => List.take_append_of_le_length hLength
  rw [List.cons_append, token?_eq_some_iff] at hToken
  simp only [List.cons_append, token?_eq_some_iff]
  cases hToken with
  | literal hLiteral =>
      have hLiteral' :
          Literal.length (c :: text ++ rest') = some length :=
        Literal.length_of_append hEnds hEnds'.endsToken hLiteral hLength
      refine ⟨_, .literal hLiteral', fun span span' => ?_⟩
      rw [hTake, hTake, TokenTree.texts_literal, TokenTree.texts_literal]
  | lifetime hLiteral hMark hLifetime =>
      rw [startsLifetime_append_of_ends text hEnds] at hLifetime
      have hLifetime' : startsLifetime (text ++ rest') = true :=
        (startsLifetime_append_of_ends text hEnds'.endsToken).trans
          hLifetime
      have hLiteral' :=
        length_quote_of_append hEnds'.endsToken hLifetime hLiteral
      refine ⟨_, .lifetime hLiteral' (startsWithMark_of_append hEnds' hMark)
        hLifetime', fun span span' => ?_⟩
      rw [TokenTree.texts_mark, TokenTree.texts_mark]
  | mark hLiteral hMark hTick =>
      rcases mem_signs_of_startsWithMark hMark with ⟨hSign, hQuote⟩
      have hLiteral' :=
        Literal.length_eq_none_of_sign hSign hQuote hTick (text ++ rest')
      refine ⟨_, .mark hLiteral' (startsWithMark_of_append hEnds' hMark)
        hTick, fun span span' => ?_⟩
      rw [TokenTree.texts_mark, TokenTree.texts_mark]
  | word hLiteral hMark hPlain hWord =>
      have hStart := start_of_wordLength hWord
      rw [← List.cons_append] at hPlain hWord
      have hPlain' : startsLikeLiteral (c :: text ++ rest') = false :=
        startsLikeLiteral_append_of_ends (List.cons_ne_nil c text)
          hEnds'.endsToken (startsLikeLiteral_of_append hPlain)
      have hMark' : startsWithMark (c :: (text ++ rest')) = false := by
        rw [Bool.eq_false_iff]
        intro hMark'
        exact not_mem_signs_of_start hStart
          (mem_signs_of_startsWithMark hMark').1
      have hWord' : wordLength (c :: text ++ rest') = some length := by
        rw [wordLength_append_of_ends _ hEnds] at hWord
        rw [wordLength_append_of_ends _ hEnds'.endsToken, hWord]
      refine ⟨_, .word (Literal.length_eq_none_of_start hStart hPlain')
        hMark' hPlain' hWord', fun span span' => ?_⟩
      rw [hTake, hTake, TokenTree.texts_word, TokenTree.texts_word]

/- The text of an erroneous literal is found in a piece alone. -/
theorem errorLiteral_isPrefixOf_append
    (hText : text ≠ [])
    (hEnds : EndsPiece rest)
    (hError : errorLiteral.isPrefixOf (text ++ rest) = true) :
    errorLiteral <+: text := by
  have hChars :
      ∃ tail, errorLiteral = '(' :: tail ∧
        ∀ c ∈ tail, isIdentifierContinue c = true ∨
          c ∈ ['/', '*', ')'] :=
    ⟨"/*ERROR*/)".toList, by decide,
      forall_mem_of_all (by decide)⟩
  rw [List.isPrefixOf_iff_prefix] at hError
  rcases hChars with ⟨tail, hCons, hTail⟩
  rw [hCons] at hError ⊢
  cases text with
  | nil => exact absurd rfl hText
  | cons c text =>
      rw [List.cons_append, List.cons_prefix_cons] at hError
      rw [List.cons_prefix_cons]
      refine ⟨hError.1, prefix_of_prefix_append ?_ hError.2⟩
      intro d hMem hHead
      rcases hTail d hMem with hContinue | hSign
      · exact hEnds.endsToken.ne hHead (Or.inl hContinue) rfl
      · exact hEnds.head d hHead hSign

/- A lexeme that starts with no slash. -/
theorem first?_of_append_ne
    {build : Span → Lexeme}
    (hSlash : c ≠ '/')
    (hEnds : EndsToken rest)
    (hEnds' : EndsPiece rest')
    (hFirst : first? (c :: text ++ rest) = some (length, build))
    (hLength : length ≤ (c :: text).length) :
    ∃ build', first? (c :: text ++ rest') = some (length, build') ∧
      SameTexts build build' := by
  simp only [first?, List.cons_append,
    Comment.doc?_of_ne hSlash] at hFirst ⊢
  split at hFirst
  · next hError =>
      cases hFirst
      have hInside : errorLiteral <+: c :: text :=
        List.prefix_of_prefix_length_le
          (List.isPrefixOf_iff_prefix.mp hError)
          (List.prefix_append (c :: text) rest) hLength
      have hError' :
          errorLiteral.isPrefixOf (c :: (text ++ rest')) = true :=
        List.isPrefixOf_iff_prefix.mpr
          (hInside.trans (List.prefix_append (c :: text) rest'))
      refine ⟨_, if_pos hError', ?_⟩
      intro span span'
      simp [texts]
  · next hError =>
      have hError' :
          ¬ errorLiteral.isPrefixOf (c :: (text ++ rest')) = true := by
        intro hError'
        have hInside : errorLiteral <+: c :: text :=
          errorLiteral_isPrefixOf_append (List.cons_ne_nil c text)
            hEnds' hError'
        exact hError (List.isPrefixOf_iff_prefix.mpr
          (hInside.trans (List.prefix_append (c :: text) rest)))
      rw [if_neg hError']
      split at hFirst
      · cases hFirst
        exact ⟨_, rfl, fun _ _ => rfl⟩
      · cases hFirst
        exact ⟨_, rfl, fun _ _ => rfl⟩
      · rcases Option.bind_eq_some_iff.mp hFirst with
          ⟨⟨found, inner⟩, hToken, hPair⟩
        cases hPair
        rcases token?_of_append hEnds hEnds' hToken hLength with
          ⟨inner', hToken', hSame⟩
        rw [List.cons_append] at hToken'
        refine ⟨fun span => .trees [inner' span], ?_, ?_⟩
        · rw [hToken']
          rfl
        · intro span span'
          simpa [texts] using hSame span span'

end Lexeme

/- A documentation comment is a line or a block. -/
theorem Comment.doc?_cases
    {text content : List Char}
    {length : Nat}
    {inner : Bool}
    (hDoc : doc? text = some (length, inner, content)) :
    (∃ others, text = '/' :: '/' :: others ∧
        length = lineLength text) ∨
      ∃ others, text = '/' :: '*' :: others ∧
        blockLength 0 text = some length := by
  unfold doc? at hDoc
  split at hDoc
  · cases hDoc
    exact Or.inl ⟨_, rfl, rfl⟩
  · split at hDoc <;> cases hDoc
    exact Or.inl ⟨_, rfl, rfl⟩
  · rcases Option.bind_eq_some_iff.mp hDoc with ⟨found, hFound, hPair⟩
    cases hPair
    exact Or.inr ⟨_, rfl, hFound⟩
  · split at hDoc
    · cases hDoc
    · rcases Option.bind_eq_some_iff.mp hDoc with
        ⟨found, hFound, hPair⟩
      cases hPair
      exact Or.inr ⟨_, rfl, hFound⟩
  · cases hDoc

/- Where a comment documents something, no gap starts. -/
theorem Gap.length_eq_none_of_slash
    {text : List Char}
    (hLine : Comment.isPlainLine ('/' :: text) = false)
    (hBlock : Comment.isPlainBlock ('/' :: text) = false) :
    Gap.length ('/' :: text) = none := by
  have hSeparator : Gap.isSeparator '/' = false := by decide +kernel
  simp [Gap.length, hLine, hBlock, hSeparator]

namespace Lexeme

variable {text rest rest' : List Char}
variable {length : Nat}

/- A comment that documents something reads so anywhere. -/
theorem doc?_of_append
    {inner : Bool}
    {content : List Char}
    (rest' : List Char)
    (hGap : Gap.length (text ++ rest) = none)
    (hDoc : Comment.doc? (text ++ rest) = some (length, inner, content))
    (hLength : length ≤ text.length)
    (hLine : length = text.length → ∀ others, text ≠ '/' :: '/' :: others) :
    Gap.length (text ++ rest') = none ∧
      Comment.doc? (text ++ rest') = some (length, inner, content) := by
  rcases Comment.doc?_cases hDoc with
    ⟨others, hText, hFound⟩ | ⟨others, hText, hFound⟩
  · have hTwo : 2 ≤ length := by
      rw [hFound, hText]
      simp [Comment.lineLength]
    rcases Comment.exists_cons_cons hText (by omega) with
      ⟨text, rfl, rfl⟩
    have hShort : length < ('/' :: '/' :: text).length :=
      Nat.lt_of_le_of_ne hLength fun hEq => hLine hEq text rfl
    rw [hFound] at hShort
    have hFeed : '\n' ∈ text := by
      simpa using Comment.feed_mem_of_lineLength hShort
    have hPlain :
        Comment.isPlainLine ('/' :: '/' :: (text ++ rest)) = false := by
      rw [Bool.eq_false_iff]
      intro hPlain
      simp [Gap.length, hPlain] at hGap
    refine ⟨Gap.length_eq_none_of_slash ?_ rfl, ?_⟩
    · exact (Comment.isPlainLine_append hFeed).trans hPlain
    · exact (Comment.doc?_line_append hFeed).trans hDoc
  · have hFour := Comment.four_le_of_blockLength (hText ▸ hFound)
    rcases Comment.exists_cons_cons hText (by omega) with
      ⟨text, rfl, rfl⟩
    simp only [List.length_cons] at hLength
    have hPlain :
        Comment.isPlainBlock ('/' :: '*' :: (text ++ rest)) =
          false := by
      rw [Bool.eq_false_iff]
      intro hPlain
      have hNoLine :
          Comment.isPlainLine ('/' :: '*' :: (text ++ rest)) = false :=
        rfl
      rw [List.cons_append, List.cons_append] at hGap hFound
      simp [Gap.length, hPlain, hNoLine, hFound] at hGap
    refine ⟨Gap.length_eq_none_of_slash rfl ?_, ?_⟩
    · exact (Comment.isPlainBlock_append (by omega)).trans hPlain
    · exact Comment.doc?_block_append hDoc hLength

/- A slash that is a mark. -/
theorem startsWithMark_of_token?
    {build : Span → TokenTree}
    (hToken : token? ('/' :: text) = some (length, build)) :
    startsWithMark ('/' :: text) = true := by
  have hLiteral :=
    Literal.length_eq_none_of_sign (c := '/') (by decide) (by decide)
      (by decide) text
  by_contra hMark
  rw [Bool.not_eq_true] at hMark
  have hLike : startsLikeLiteral ('/' :: text) = false := rfl
  have hWord : wordLength ('/' :: text) = none := rfl
  simp [token?, hLiteral, hMark, hLike, hWord] at hToken

/- What reads as a lexeme and not as a gap reads so anywhere. -/
theorem first?_of_append
    {build : Span → Lexeme}
    (hEnds : EndsToken rest)
    (hEnds' : EndsPiece rest')
    (hGap : Gap.length (text ++ rest) = none)
    (hFirst : first? (text ++ rest) = some (length, build))
    (hLength : length ≤ text.length)
    (hLine : length = text.length → ∀ others, text ≠ '/' :: '/' :: others) :
    Gap.length (text ++ rest') = none ∧
      ∃ build', first? (text ++ rest') = some (length, build') ∧
        SameTexts build build' := by
  have hPos := first?_pos hFirst
  cases text with
  | nil =>
      rw [List.length_nil] at hLength
      omega
  | cons c text =>
  by_cases hSlash : c = '/'
  · subst hSlash
    cases hDoc : Comment.doc? ('/' :: text ++ rest) with
    | some found =>
        rcases found with ⟨found, inner, content⟩
        simp only [first?, hDoc] at hFirst
        split at hFirst
        · cases hFirst
        · next hReturn =>
            cases hFirst
            rcases doc?_of_append rest' hGap hDoc hLength hLine with
              ⟨hGap', hDoc'⟩
            refine ⟨hGap',
              fun span => .trees (Comment.docTokens inner content span),
              ?_, ?_⟩
            · simp only [first?, hDoc', if_neg hReturn]
            · intro span span'
              cases inner <;> simp [texts, Comment.docTokens]
    | none =>
        have hError :
            ∀ more : List Char,
              errorLiteral.isPrefixOf ('/' :: more) = false :=
          fun more => errorLiteral_isPrefixOf (Or.inl (by decide))
        have hOpened : openedBy '/' = none := rfl
        have hClosed : closedBy '/' = none := rfl
        simp only [first?, hDoc] at hFirst
        simp only [List.cons_append, hError, hOpened, hClosed,
          Bool.false_eq_true, if_false] at hFirst
        rcases Option.bind_eq_some_iff.mp hFirst with
          ⟨⟨found, inner⟩, hToken, hPair⟩
        cases hPair
        rw [← List.cons_append] at hToken
        rcases token?_of_append hEnds hEnds' hToken hLength with
          ⟨inner', hToken', hSame⟩
        rw [List.cons_append] at hToken' ⊢
        have hMark := startsWithMark_of_token? hToken'
        have hNext := (startsWithMark_iff.mp hMark).2 rfl
        rcases Comment.no_comment_of_slash hNext.1 hNext.2 with
          ⟨hNoLine, hNoBlock, hNoDoc⟩
        refine ⟨Gap.length_eq_none_of_slash hNoLine hNoBlock,
          fun span => .trees [inner' span], ?_, ?_⟩
        · simp only [first?, hNoDoc, hError, hOpened, hClosed, hToken',
            Bool.false_eq_true, if_false]
          rfl
        · intro span span'
          simpa [texts] using hSame span span'
  · have hSeparator : Gap.isSeparator c = false := by
      simpa [Gap.length, Comment.isPlainLine_of_ne hSlash,
        Comment.isPlainBlock_of_ne hSlash] using hGap
    exact ⟨Gap.length_eq_none hSlash hSeparator _,
      first?_of_append_ne hSlash hEnds hEnds' hFirst hLength⟩

end Lexeme

end Nullary
