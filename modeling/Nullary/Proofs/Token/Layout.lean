import Nullary.Grammar.Source
import Nullary.Proofs.Source.Position

/-
  Where the token trees of a text stand in it.

  The trees of a text stand one after the other, the content
  of a group between its delimiters.  Only the attribute that
  a documentation comment stands for has all of its trees in
  one place.

  Main declarations:
    * `Comment.IsDocAt`
    * `Laid`
    * `Lexeme.TokenAt`
    * `Lexeme.FirstAt`
    * `Tokens.exists_start_of_dropInterpreterLine`
    * `Laid.of_dropInterpreterLine`
    * `Remain`
    * `Remain.of_suffix`
-/

namespace Nullary

open SourceText

variable {text : List Char}

namespace SourceText

/- The span between two offsets. -/
def spanAt
    (text : List Char)
    (start : Nat)
    (stop : Nat) : Span :=
  ⟨positionAt text start, positionAt text stop⟩

theorem spanAt_min
    (text : List Char)
    (start stop : Nat) :
    spanAt text start (min stop text.length) =
      spanAt text start stop := by
  unfold spanAt
  rw [positionAt_min]

/- No line feed stands between two offsets. -/
def OneLine
    (text : List Char)
    (start : Nat)
    (stop : Nat) : Prop :=
  ∀ i, start ≤ i → i < stop → text[i]? ≠ some '\n'

/- A line ends at an offset, or the text does. -/
def EndsLine
    (text : List Char)
    (offset : Nat) : Prop :=
  ∀ c, text[offset]? = some c → c = '\n'

end SourceText

------------------------------------------------------------
-- Documentation Comments
------------------------------------------------------------

namespace Comment

variable {text : List Char}
variable {length : Nat}
variable {start : Nat}

/-
  A documentation comment stands between two offsets: a
  block, or the rest of a line.
-/
structure IsDocAt
    (text : List Char)
    (start : Nat)
    (stop : Nat) : Prop where
  start_lt_stop : start < stop
  stop_le_length : stop ≤ text.length
  head : text[start]? = some '/'
  tail :
    text[stop - 1]? = some '/' ∨
      OneLine text start stop ∧ EndsLine text stop

/- A block comment ends with a slash. -/
theorem getElem?_of_blockLength
    {depth : Nat}
    (hLength : blockLength depth text = some length) :
    2 ≤ length ∧ length ≤ text.length ∧
      text[length - 1]? = some '/' := by
  fun_induction blockLength depth text generalizing length with
  | case1 depth rest ih | case3 depth rest hDepth ih =>
      rcases Option.map_eq_some_iff.mp hLength with
        ⟨inner, hInner, rfl⟩
      have hRest := ih hInner
      have hIndex : inner + 2 - 1 = inner - 1 + 2 := by omega
      refine ⟨by omega, by simp; omega, ?_⟩
      rw [hIndex]
      simpa using hRest.2.2
  | case2 depth rest hDepth =>
      cases hLength
      simp
  | case4 depth c rest hOpen hClose ih =>
      rcases Option.map_eq_some_iff.mp hLength with
        ⟨inner, hInner, rfl⟩
      have hRest := ih hInner
      have hIndex : inner + 1 - 1 = inner - 1 + 1 := by omega
      refine ⟨by omega, by simp; omega, ?_⟩
      rw [hIndex]
      simpa using hRest.2.2
  | case5 depth => cases hLength

/- The rest of a line holds no line feed and stops at its end. -/
theorem oneLine_lineLength
    (text : List Char)
    (start : Nat) :
    OneLine text start (start + lineLength (text.drop start)) ∧
      EndsLine text
        (start + lineLength (text.drop start)) := by
  constructor
  · intro i hStart hStop hNewline
    have hIndex :
        i - start <
          ((text.drop start).takeWhile (· != '\n')).length := by
      unfold lineLength at hStop
      omega
    rcases exists_getElem?_of_lt_takeWhile hIndex with
      ⟨c, hChar, hTest⟩
    rw [List.getElem?_drop, Nat.add_sub_cancel' hStart,
      hNewline] at hChar
    cases hChar
    simp at hTest
  · intro c hChar
    rw [← List.getElem?_drop] at hChar
    simpa using not_of_getElem?_length_takeWhile hChar

/- A documentation comment that runs to the end of its line. -/
theorem IsDocAt.of_line
    {rest : List Char}
    (hText : text.drop start = '/' :: '/' :: rest) :
    IsDocAt text start
      (start + lineLength (text.drop start)) := by
  have hPositive : 0 < lineLength (text.drop start) := by
    rw [hText]
    simp [lineLength]
  have hLength :
      lineLength (text.drop start) ≤ (text.drop start).length :=
    (List.takeWhile_prefix _).length_le
  rw [List.length_drop] at hLength
  refine ⟨by omega, by omega, ?_,
    Or.inr (oneLine_lineLength text start)⟩
  rw [← Nat.add_zero start, ← List.getElem?_drop, hText]
  rfl

/- A documentation comment between its own borders. -/
theorem IsDocAt.of_block
    {rest : List Char}
    (hText : text.drop start = '/' :: rest)
    (hLength :
      blockLength 0 (text.drop start) = some length) :
    IsDocAt text start (start + length) := by
  rcases getElem?_of_blockLength hLength with
    ⟨hTwo, hLe, hLast⟩
  rw [List.length_drop] at hLe
  refine ⟨by omega, by omega, ?_, Or.inl ?_⟩
  · rw [← Nat.add_zero start, ← List.getElem?_drop, hText]
    rfl
  · rw [List.getElem?_drop] at hLast
    rw [← hLast]
    congr 1
    omega

theorem isDocAt_of_doc?
    {inner : Bool}
    {content : List Char}
    (hDoc :
      doc? (text.drop start) = some (length, inner, content)) :
    IsDocAt text start (start + length) := by
  unfold doc? at hDoc
  split at hDoc
  · next rest hText =>
      cases hDoc
      exact .of_line hText
  · next rest hText =>
      split at hDoc
      · cases hDoc
      · cases hDoc
        exact .of_line hText
  · next rest hText =>
      rcases Option.bind_eq_some_iff.mp hDoc with
        ⟨found, hFound, hPair⟩
      cases hPair
      exact .of_block hText hFound
  · next rest hText =>
      split at hDoc
      · cases hDoc
      · rcases Option.bind_eq_some_iff.mp hDoc with
          ⟨found, hFound, hPair⟩
        cases hPair
        exact .of_block hText hFound
  · cases hDoc

end Comment

------------------------------------------------------------
-- Trees in a Text
------------------------------------------------------------

namespace Delimiter

/- The character that closes a group. -/
def closer : Delimiter → Char
  | parenthesis => ')'
  | bracket => ']'
  | brace => '\x7d'

theorem eq_closer_of_closedBy
    {c : Char}
    {delimiter : Delimiter}
    (hClosed : closedBy c = some delimiter) :
    c = delimiter.closer := by
  unfold closedBy at hClosed
  split at hClosed
  · cases hClosed
    rfl
  · cases hClosed
    rfl
  · cases hClosed
    rfl
  · cases hClosed

end Delimiter

/-
  Trees that stand between two offsets of a text, in their
  order.
-/
inductive Laid
    (text : List Char) : Nat → Nat → Tokens → Prop where
  | nil
      {low high : Nat}
      (hOrder : low ≤ high) :
      Laid text low high []
  | word
      {low start stop high : Nat}
      {name : String}
      {rest : Tokens}
      (hLow : low ≤ start)
      (hOrder : start < stop)
      (hRest : Laid text stop high rest) :
      Laid text low high
        (.word name (spanAt text start stop) :: rest)
  | literal
      {low start stop high : Nat}
      {name : String}
      {rest : Tokens}
      (hLow : low ≤ start)
      (hOrder : start ≤ stop)
      (hRest : Laid text stop high rest) :
      Laid text low high
        (.literal name (spanAt text start stop) :: rest)
  | mark
      {low start high : Nat}
      {c : Char}
      {joint : Bool}
      {rest : Tokens}
      (hLow : low ≤ start)
      (hChar : text[start]? = some c)
      (hRest : Laid text (start + 1) high rest) :
      Laid text low high
        (.mark c joint (spanAt text start (start + 1)) :: rest)
  | group
      {low start stop high : Nat}
      {delimiter : Delimiter}
      {content rest : Tokens}
      (hLow : low ≤ start)
      (hContent : Laid text (start + 1) stop content)
      (hClose : text[stop]? = some delimiter.closer)
      (hRest : Laid text (stop + 1) high rest) :
      Laid text low high
        (.group delimiter content
          (spanAt text start (stop + 1)) :: rest)
  | doc
      {low start stop high : Nat}
      {inner : Bool}
      {content : List Char}
      {trees rest : Tokens}
      (hLow : low ≤ start)
      (hDoc : Comment.IsDocAt text start stop)
      (hTrees :
        trees =
          Comment.docTokens inner content
            (spanAt text start stop) ++ rest)
      (hRest : Laid text stop high rest) :
      Laid text low high trees

namespace Laid

theorem low_le_high
    {low high : Nat}
    {trees : Tokens}
    (hLaid : Laid text low high trees) :
    low ≤ high := by
  induction hLaid with
  | nil hOrder => exact hOrder
  | word hLow hOrder hRest ih => omega
  | literal hLow hOrder hRest ih => omega
  | mark hLow hChar hRest ih => omega
  | group hLow hContent hClose hRest ihContent ih => omega
  | doc hLow hDoc hTrees hRest ih =>
      have hStart := hDoc.start_lt_stop
      omega

/- Trees may be given more room before them. -/
theorem of_le
    {low low' high : Nat}
    {trees : Tokens}
    (hLaid : Laid text low high trees)
    (hLow : low' ≤ low) :
    Laid text low' high trees := by
  induction hLaid generalizing low' with
  | nil hOrder => exact .nil (by omega)
  | word hStart hOrder hRest ih =>
      exact .word (by omega) hOrder hRest
  | literal hStart hOrder hRest ih =>
      exact .literal (by omega) hOrder hRest
  | mark hStart hChar hRest ih =>
      exact .mark (by omega) hChar hRest
  | group hStart hContent hClose hRest ihContent ih =>
      exact .group (by omega) hContent hClose hRest
  | doc hStart hDoc hTrees hRest ih =>
      exact .doc (by omega) hDoc hTrees hRest

/- Trees that stand one after the other. -/
theorem append
    {low middle high : Nat}
    {first second : Tokens}
    (hFirst : Laid text low middle first)
    (hSecond : Laid text middle high second) :
    Laid text low high (first ++ second) := by
  induction hFirst with
  | nil hOrder => exact hSecond.of_le hOrder
  | word hLow hOrder hRest ih =>
      exact .word hLow hOrder (ih hSecond)
  | literal hLow hOrder hRest ih =>
      exact .literal hLow hOrder (ih hSecond)
  | mark hLow hChar hRest ih =>
      exact .mark hLow hChar (ih hSecond)
  | group hLow hContent hClose hRest ihContent ih =>
      exact .group hLow hContent hClose (ih hSecond)
  | doc hLow hDoc hTrees hRest ih =>
      subst hTrees
      exact .doc hLow hDoc (List.append_assoc _ _ _)
        (ih hSecond)

end Laid

------------------------------------------------------------
-- Lexemes in a Text
------------------------------------------------------------

theorem identifierLength_pos
    {found : Nat}
    (hLength : identifierLength text = some found) :
    0 < found := by
  unfold identifierLength at hLength
  split at hLength
  · cases hLength
  · split at hLength <;> cases hLength
    exact Nat.succ_pos _

theorem wordLength_pos
    {found : Nat}
    (hLength : wordLength text = some found) :
    0 < found := by
  unfold wordLength at hLength
  split at hLength
  · rcases Option.bind_eq_some_iff.mp hLength with
      ⟨inner, _, hFound⟩
    dsimp only at hFound
    split at hFound <;> cases hFound
    exact Nat.succ_pos _
  · exact identifierLength_pos hLength

namespace Lexeme

variable {text : List Char}
variable {lexemes : List Lexeme}
variable {length : Nat}
variable {start : Nat}

/- A lexeme that stands between two offsets of a text. -/
inductive Stands
    (text : List Char) : Nat → Nat → Lexeme → Prop where
  | opening
      {start : Nat}
      {delimiter : Delimiter} :
      Stands text start (start + 1)
        (.opening delimiter (spanAt text start (start + 1)))
  | closing
      {start : Nat}
      {delimiter : Delimiter}
      (hClose : text[start]? = some delimiter.closer) :
      Stands text start (start + 1)
        (.closing delimiter (spanAt text start (start + 1)))
  | trees
      {start stop : Nat}
      {trees : Tokens}
      (hLaid : Laid text start stop trees) :
      Stands text start stop (.trees trees)

/- Lexemes that stand one after the other from an offset on. -/
def AllStand
    (text : List Char) : Nat → List Lexeme → Prop
  | low, [] => low ≤ text.length
  | low, lexeme :: rest =>
      ∃ start stop, low ≤ start ∧
        Stands text start stop lexeme ∧ AllStand text stop rest

theorem AllStand.of_le
    {low low' : Nat}
    (hStand : AllStand text low lexemes)
    (hLow : low' ≤ low) :
    AllStand text low' lexemes := by
  cases lexemes with
  | nil => exact Nat.le_trans hLow hStand
  | cons lexeme rest =>
      rcases hStand with ⟨start, stop, hStart, hRest⟩
      exact ⟨start, stop, Nat.le_trans hLow hStart, hRest⟩

/- What a token at the start of a text is. -/
inductive TokenAt : List Char → Nat → (Span → TokenTree) → Prop where
  | literal
      {text : List Char}
      {length : Nat}
      (hLiteral : Literal.length text = some length) :
      TokenAt text length (.literal (String.ofList (text.take length)))
  | lifetime
      {rest : List Char}
      (hLiteral : Literal.length ('\'' :: rest) = none)
      (hMark : startsWithMark ('\'' :: rest) = true)
      (hLifetime : startsLifetime rest = true) :
      TokenAt ('\'' :: rest) 1 (.mark '\'' true)
  | mark
      {c : Char}
      {rest : List Char}
      (hLiteral : Literal.length (c :: rest) = none)
      (hMark : startsWithMark (c :: rest) = true)
      (hTick : c ≠ '\'') :
      TokenAt (c :: rest) 1 (.mark c (startsWithMark rest))
  | word
      {c : Char}
      {rest : List Char}
      {length : Nat}
      (hLiteral : Literal.length (c :: rest) = none)
      (hMark : startsWithMark (c :: rest) = false)
      (hPlain : startsLikeLiteral (c :: rest) = false)
      (hWord : wordLength (c :: rest) = some length) :
      TokenAt (c :: rest) length
        (.word (String.ofList ((c :: rest).take length)))

theorem token?_eq_some_iff
    {build : Span → TokenTree} :
    token? text = some (length, build) ↔ TokenAt text length build := by
  constructor
  · intro hToken
    unfold token? at hToken
    split at hToken
    · next hLiteral =>
        cases hToken
        exact .literal hLiteral
    · next hLiteral =>
        split at hToken
        · cases hToken
        · split at hToken
          · next hMark =>
              split at hToken
              · next hTick =>
                  subst hTick
                  split at hToken <;> cases hToken
                  next hLifetime => exact .lifetime hLiteral hMark hLifetime
              · next hTick =>
                  cases hToken
                  exact .mark hLiteral hMark hTick
          · next hMark =>
              split at hToken
              · cases hToken
              · next hPlain =>
                  rw [Bool.not_eq_true] at hMark hPlain
                  rcases Option.bind_eq_some_iff.mp hToken with
                    ⟨found, hWord, hPair⟩
                  cases hPair
                  exact .word hLiteral hMark hPlain hWord
  · intro hToken
    cases hToken with
    | literal hLiteral => simp only [token?, hLiteral]
    | lifetime hLiteral hMark hLifetime =>
        simp only [token?, hLiteral, hMark, hLifetime, if_true]
    | mark hLiteral hMark hTick =>
        simp only [token?, hLiteral, hMark, if_true, if_neg hTick]
    | word hLiteral hMark hPlain hWord =>
        simp only [token?, hLiteral, hMark, hPlain, hWord,
          Bool.false_eq_true, if_false, Option.bind_eq_bind,
          Option.bind_some]
        rfl

/- What a lexeme at the start of a text is. -/
inductive FirstAt : List Char → Nat → (Span → Lexeme) → Prop where
  | doc
      {text content : List Char}
      {length : Nat}
      {inner : Bool}
      (hDoc : Comment.doc? text = some (length, inner, content))
      (hReturn : Comment.hasBareReturn content = false) :
      FirstAt text length fun span =>
        .trees (Comment.docTokens inner content span)
  | error
      {text : List Char}
      (hDoc : Comment.doc? text = none)
      (hError : errorLiteral.isPrefixOf text = true) :
      FirstAt text errorLiteral.length fun span =>
        .trees [.literal (String.ofList errorLiteral) span]
  | opening
      {c : Char}
      {rest : List Char}
      {delimiter : Delimiter}
      (hOpened : openedBy c = some delimiter) :
      FirstAt (c :: rest) 1 (.opening delimiter)
  | closing
      {c : Char}
      {rest : List Char}
      {delimiter : Delimiter}
      (hClosed : closedBy c = some delimiter) :
      FirstAt (c :: rest) 1 (.closing delimiter)
  | token
      {text : List Char}
      {length : Nat}
      {build : Span → TokenTree}
      (hToken : token? text = some (length, build)) :
      FirstAt text length fun span => .trees [build span]

theorem firstAt_of_first?
    {build : Span → Lexeme}
    (hFirst : first? text = some (length, build)) :
    FirstAt text length build := by
  unfold first? at hFirst
  split at hFirst
  · next hDoc =>
      split at hFirst <;> cases hFirst
      next hReturn => exact .doc hDoc (by simpa using hReturn)
  · next hDoc =>
      split at hFirst
      · next hError =>
          cases hFirst
          exact .error hDoc hError
      · split at hFirst
        · cases hFirst
        · split at hFirst
          · next hOpened =>
              cases hFirst
              exact .opening hOpened
          · next hClosed =>
              cases hFirst
              exact .closing hClosed
          · rcases Option.bind_eq_some_iff.mp hFirst with
              ⟨⟨found, inner⟩, hToken, hPair⟩
            cases hPair
            exact .token hToken

/- The token at an offset stands there. -/
theorem laid_of_token?
    {build : Span → TokenTree}
    (hInside : start < text.length)
    (hToken :
      token? (text.drop start) = some (length, build)) :
    Laid text start (min (start + length) text.length)
      [build (spanAt text start (start + length))] := by
  have hOrder : start ≤ min (start + length) text.length := by
    omega
  -- A mark is the character that stands at its offset.
  have hMark :
      ∀ c rest joint, text.drop start = c :: rest →
        Laid text start (min (start + 1) text.length)
          [.mark c joint (spanAt text start (start + 1))] := by
    intro c rest joint hText
    have hChar : text[start]? = some c := by
      rw [← Nat.add_zero start, ← List.getElem?_drop, hText]
      rfl
    exact .mark (Nat.le_refl start) hChar (.nil (by omega))
  rw [token?_eq_some_iff] at hToken
  generalize hText : text.drop start = left at hToken
  cases hToken with
  | literal hLiteral =>
      rw [← spanAt_min]
      exact .literal (Nat.le_refl start) hOrder (.nil (Nat.le_refl _))
  | lifetime => exact hMark _ _ true hText
  | mark => exact hMark _ _ _ hText
  | word hLiteral hMark hPlain hWord =>
      have hPositive := wordLength_pos hWord
      rw [← spanAt_min]
      exact .word (Nat.le_refl start) (by omega) (.nil (Nat.le_refl _))

/- The lexeme at an offset stands there. -/
theorem stands_of_first?
    {build : Span → Lexeme}
    (hInside : start < text.length)
    (hFirst :
      first? (text.drop start) = some (length, build)) :
    Stands text start (min (start + length) text.length)
      (build (spanAt text start (start + length))) := by
  have hOrder : start ≤ min (start + length) text.length := by
    omega
  have hStop : min (start + 1) text.length = start + 1 := by
    omega
  have hAt := firstAt_of_first? hFirst
  generalize hText : text.drop start = left at hAt
  cases hAt with
  | doc hDoc =>
      subst hText
      have hAt := Comment.isDocAt_of_doc? hDoc
      rw [Nat.min_eq_left hAt.stop_le_length]
      exact .trees
        (.doc (Nat.le_refl start) hAt
          (List.append_nil _).symm (.nil (Nat.le_refl _)))
  | error =>
      rw [← spanAt_min]
      exact .trees
        (.literal (Nat.le_refl start) hOrder (.nil (Nat.le_refl _)))
  | opening =>
      rw [hStop]
      exact .opening
  | @closing c rest delimiter hClosed =>
      have hChar : text[start]? = some c := by
        rw [← Nat.add_zero start, ← List.getElem?_drop, hText]
        rfl
      rw [hStop]
      exact .closing (Delimiter.eq_closer_of_closedBy hClosed ▸ hChar)
  | token hToken =>
      subst hText
      exact .trees (laid_of_token? hInside hToken)

/-
  The lexemes of a text from an offset on stand there, if
  they are read from the position of that offset.
-/
theorem allStand_ofTextFrom
    {fuel : Nat}
    (hStart : start ≤ text.length)
    (hLexemes :
      ofTextFrom fuel (positionAt text start)
        (text.drop start) = some lexemes) :
    AllStand text start lexemes := by
  induction fuel generalizing start lexemes with
  | zero =>
      unfold ofTextFrom at hLexemes
      split at hLexemes
      · cases hLexemes
        exact hStart
      · cases hLexemes
      · next hFuel hEnd => cases hFuel
  | succ fuel ih =>
      unfold ofTextFrom at hLexemes
      split at hLexemes
      · cases hLexemes
        exact hStart
      · cases hLexemes
      · next hFuel hEnd =>
          cases hFuel
          have hInside : start < text.length := by
            rw [← not_le, ← List.drop_eq_nil_iff]
            exact hEnd
          -- A gap or a lexeme may be said to be longer than
          -- the text, and then it ends with the text.
          have hRest :
              ∀ length lexemes,
                ofTextFrom fuel
                    ((positionAt text start).after
                      ((text.drop start).take length))
                    ((text.drop start).drop length) =
                  some lexemes →
                AllStand text
                  (min (start + length) text.length) lexemes := by
            intro length lexemes hLexemes
            apply ih (Nat.min_le_right _ _)
            rw [positionAt_min, positionAt_add, ← hLexemes,
              List.drop_drop]
            congr 1
            rcases Nat.le_total (start + length) text.length
              with hLe | hLe
            · rw [Nat.min_eq_left hLe]
            · rw [Nat.min_eq_right hLe, List.drop_length,
                List.drop_eq_nil_of_le hLe]
          split at hLexemes
          · next length hGap =>
              exact (hRest length lexemes hLexemes).of_le
                (by omega)
          · rcases Option.bind_eq_some_iff.mp hLexemes with
              ⟨⟨length, build⟩, hFirst, hTail⟩
            rcases Option.bind_eq_some_iff.mp hTail with
              ⟨tail, hTail', hPair⟩
            cases hPair
            refine ⟨start, min (start + length) text.length,
              Nat.le_refl start, ?_, hRest length tail hTail'⟩
            have hStands := stands_of_first? hInside hFirst
            unfold spanAt at hStands
            rwa [positionAt_add] at hStands

------------------------------------------------------------
-- Nesting
------------------------------------------------------------

/-
  The groups that are open at some point of a text: what
  stands before each of them, and where the innermost one has
  its content.
-/
inductive Open
    (text : List Char) :
    Nat → List (Delimiter × Span × Tokens) → Prop where
  | outermost :
      Open text 0 []
  | inside
      {low start : Nat}
      {delimiter : Delimiter}
      {before : Tokens}
      {outer : List (Delimiter × Span × Tokens)}
      (hOuter : Open text low outer)
      (hBefore : Laid text low start before.reverse) :
      Open text (start + 1)
        ((delimiter, spanAt text start (start + 1), before) ::
          outer)

/- Trees stand where the lexemes do that they are made of. -/
theorem laid_of_nestFrom
    {low position : Nat}
    {outer : List (Delimiter × Span × Tokens)}
    {current : Tokens}
    {trees : Tokens}
    (hOpen : Open text low outer)
    (hCurrent : Laid text low position current.reverse)
    (hStand : AllStand text position lexemes)
    (hNest : nestFrom outer current lexemes = some trees) :
    Laid text 0 text.length trees := by
  induction lexemes generalizing
    low position outer current with
  | nil =>
      unfold nestFrom at hNest
      split at hNest
      · next hOuter =>
          cases hNest
          cases hOpen with
          | outermost =>
              have hAll := hCurrent.append (.nil hStand)
              rwa [List.append_nil] at hAll
          | inside hOuter' hBefore => simp at hOuter
      · cases hNest
  | cons lexeme rest ih =>
      rcases hStand with ⟨start, stop, hLow, hStands, hRest⟩
      have hUpTo : Laid text low start current.reverse := by
        have hAll := hCurrent.append (.nil hLow)
        rwa [List.append_nil] at hAll
      cases hStands with
      | opening =>
          exact ih (.inside hOpen hUpTo)
            (.nil (Nat.le_refl _)) hRest hNest
      | closing hClose =>
          cases hOpen with
          | outermost => cases hNest
          | inside hOuter hBefore =>
              simp only [nestFrom] at hNest
              split at hNest
              · next hSame =>
                  refine ih hOuter ?_ hRest hNest
                  rw [List.reverse_cons]
                  exact hBefore.append
                    (.group (Nat.le_refl _) hUpTo hClose
                      (.nil (Nat.le_refl _)))
              · cases hNest
      | trees hLaid =>
          refine ih hOpen ?_ hRest hNest
          rw [List.reverse_append, List.reverse_reverse]
          exact hUpTo.append hLaid

/- The trees that are read from an offset on stand in the text. -/
theorem laid_of_ofTextFrom
    {fuel : Nat}
    (start : Nat)
    {trees : Tokens}
    (hStart : start ≤ text.length)
    (hTrees :
      ofTextFrom fuel (positionAt text start)
          (text.drop start) >>= nest =
        some trees) :
    Laid text 0 text.length trees := by
  rcases Option.bind_eq_some_iff.mp hTrees with
    ⟨lexemes, hLexemes, hNest⟩
  have hStand := allStand_ofTextFrom hStart hLexemes
  exact laid_of_nestFrom .outermost (.nil (Nat.le_refl 0))
    (hStand.of_le (Nat.zero_le start)) hNest

end Lexeme

------------------------------------------------------------
-- The Trees of a Text
------------------------------------------------------------

namespace Tokens

/- The trees of a text are read from some offset of it on. -/
theorem exists_start_of_ofText?
    {trees : Tokens}
    (hTrees : ofText? text = some trees) :
    ∃ start fuel, start ≤ text.length ∧
      Lexeme.ofTextFrom fuel (positionAt text start)
          (text.drop start) >>= Lexeme.nest =
        some trees := by
  unfold ofText? at hTrees
  split at hTrees
  · next hMark =>
      rcases List.head?_eq_some_iff.mp (eq_of_beq hMark) with
        ⟨rest, rfl⟩
      exact ⟨1, rest.length, by simp, hTrees⟩
  · exact ⟨0, text.length, Nat.zero_le _, hTrees⟩

/-
  A first line that is left out keeps its place: the trees
  after it are read where they stand in the whole text.
-/
theorem exists_start_of_dropInterpreterLine
    {trees : Tokens}
    (hTrees : ofText? (dropInterpreterLine text) = some trees) :
    ∃ start fuel, start ≤ text.length ∧
      Lexeme.ofTextFrom fuel (positionAt text start)
          (text.drop start) >>= Lexeme.nest =
        some trees := by
  unfold dropInterpreterLine at hTrees
  split at hTrees
  · next rest =>
      split at hTrees
      · exact exists_start_of_ofText? hTrees
      · have hSplit :=
          List.takeWhile_append_dropWhile
            (p := (· != '\n')) (l := rest)
        have hLine :
            '\n' ∉ '#' :: '!' :: rest.takeWhile (· != '\n') := by
          intro hMem
          have hInside : '\n' ∈ rest.takeWhile (· != '\n') := by
            simpa using hMem
          simpa using List.mem_takeWhile_imp hInside
        cases hRest : rest.dropWhile (· != '\n') with
        | nil =>
            rw [hRest] at hTrees
            refine ⟨_, 0, Nat.le_refl _, ?_⟩
            rw [List.drop_length]
            exact hTrees
        | cons c tail =>
            have hNewline : c = '\n' := by
              have hHead :=
                List.head?_dropWhile_not (· != '\n') rest
              rw [hRest] at hHead
              simpa using hHead
            subst hNewline
            rw [hRest] at hTrees hSplit
            -- The line feed that starts the rest is a gap.
            have hTail :
                Lexeme.ofTextFrom tail.length
                    (Position.first.after ['\n']) tail >>=
                  Lexeme.nest = some trees :=
              hTrees
            have hText :
                '#' :: '!' :: rest =
                  ('#' :: '!' :: rest.takeWhile (· != '\n')) ++
                    '\n' :: tail := by
              simp [hSplit]
            rw [hText]
            generalize '#' :: '!' :: rest.takeWhile (· != '\n') =
              line at hLine
            refine ⟨line.length + 1, tail.length, by simp, ?_⟩
            rw [positionAt_append_newline hLine tail]
            simpa using hTail
  · exact exists_start_of_ofText? hTrees

end Tokens

namespace Laid

theorem of_dropInterpreterLine
    {text : List Char}
    {trees : Tokens}
    (hTrees :
      Tokens.ofText? (dropInterpreterLine text) =
        some trees) :
    Laid text 0 text.length trees := by
  rcases Tokens.exists_start_of_dropInterpreterLine hTrees with
    ⟨start, fuel, hStart, hRead⟩
  exact Lexeme.laid_of_ofTextFrom start hStart hRead

end Laid

------------------------------------------------------------
-- What Remains of Trees
------------------------------------------------------------

namespace Comment

/-
  A tree that can stand after the first one of a
  documentation comment.
-/
def isContinuation : TokenTree → Bool
  | .mark c _ _ => c == '!'
  | .group delimiter _ _ => delimiter == .bracket
  | _ => false

theorem docTokens_eq_cons
    (inner : Bool)
    (content : List Char)
    (span : Span) :
    ∃ tail, docTokens inner content span =
        .mark '#' false span :: tail ∧
      ∀ tree ∈ tail, isContinuation tree = true := by
  cases inner with
  | false =>
      refine ⟨_, rfl, ?_⟩
      simp [isContinuation]
  | true =>
      refine ⟨_, rfl, ?_⟩
      simp [isContinuation]

/-
  A comment that reads as an attribute has one span for all
  of it.
-/
theorem span_of_docTokens_eq
    {inner joint : Bool}
    {span first last : Span}
    {bang content rest rest' : Tokens}
    (hBang :
      bang = [] ∨ ∃ joint span, bang = [.mark '!' joint span])
    (hTrees :
      .mark '#' joint first ::
          (bang ++ .group .bracket content last :: rest) =
        docTokens inner text span ++ rest') :
    first = span ∧ last = span ∧ rest = rest' := by
  rcases hBang with rfl | ⟨joint', span', rfl⟩
  · cases inner with
    | false =>
        simp only [docTokens, Bool.false_eq_true, if_false,
          List.nil_append, List.cons_append, List.cons.injEq,
          TokenTree.mark.injEq, TokenTree.group.injEq] at hTrees
        exact ⟨hTrees.1.2.2, hTrees.2.1.2.2, hTrees.2.2⟩
    | true => simp [docTokens] at hTrees
  · cases inner with
    | false => simp [docTokens] at hTrees
    | true =>
        simp only [docTokens, if_true, List.nil_append,
          List.cons_append, List.cons.injEq,
          TokenTree.mark.injEq, TokenTree.group.injEq] at hTrees
        exact ⟨hTrees.1.2.2, hTrees.2.2.1.2.2, hTrees.2.2.2⟩

end Comment

namespace Laid

/- A group stands around its content. -/
theorem of_group
    {low high : Nat}
    {delimiter : Delimiter}
    {content rest : Tokens}
    {span : Span}
    (hLaid :
      Laid text low high
        (.group delimiter content span :: rest)) :
    ∃ start stop, low ≤ start ∧
      span = spanAt text start (stop + 1) ∧
      Laid text (start + 1) stop content ∧
      text[stop]? = some delimiter.closer ∧
      Laid text (stop + 1) high rest := by
  cases hLaid with
  | group hLow hContent hClose hRest =>
      exact ⟨_, _, hLow, rfl, hContent, hClose, hRest⟩
  | @doc _ start stop _ inner content' _ _ hLow hDoc hTrees =>
      rcases Comment.docTokens_eq_cons inner content'
        (spanAt text start stop) with ⟨tail, hCons, _⟩
      rw [hCons] at hTrees
      simp at hTrees

/- A mark is the character that stands where it does. -/
theorem of_mark
    {low high : Nat}
    {c : Char}
    {joint : Bool}
    {span : Span}
    {rest : Tokens}
    (hChar : c ≠ '#')
    (hLaid :
      Laid text low high (.mark c joint span :: rest)) :
    ∃ start, low ≤ start ∧
      span = spanAt text start (start + 1) ∧
      text[start]? = some c ∧
      Laid text (start + 1) high rest := by
  cases hLaid with
  | mark hLow hAt hRest =>
      exact ⟨_, hLow, rfl, hAt, hRest⟩
  | @doc _ start stop _ inner content' _ _ hLow hDoc hTrees =>
      rcases Comment.docTokens_eq_cons inner content'
        (spanAt text start stop) with ⟨tail, hCons, _⟩
      rw [hCons] at hTrees
      simp [hChar] at hTrees

end Laid

/-
  Trees that stand between two offsets, except that the first
  of them may be left over from a documentation comment.
-/
def Remain
    (text : List Char)
    (low high : Nat)
    (trees : Tokens) : Prop :=
  ∃ skipped rest, trees = skipped ++ rest ∧
    (∀ tree ∈ skipped, Comment.isContinuation tree = true) ∧
    Laid text low high rest

theorem Laid.remain
    {low high : Nat}
    {trees : Tokens}
    (hLaid : Laid text low high trees) :
    Remain text low high trees :=
  ⟨[], trees, rfl, by simp, hLaid⟩

/- Every end of a sequence of trees stands after some offset. -/
theorem Laid.remain_of_suffix
    {low high : Nat}
    {trees rest : Tokens}
    (hLaid : Laid text low high trees)
    (hSuffix : rest <:+ trees) :
    ∃ middle, low ≤ middle ∧ Remain text middle high rest := by
  induction hLaid with
  | nil hOrder =>
      rw [List.suffix_nil] at hSuffix
      subst hSuffix
      exact ⟨_, Nat.le_refl _, (Laid.nil hOrder).remain⟩
  | word hLow hOrder hRest ih =>
      rcases List.suffix_cons_iff.mp hSuffix with rfl | hShort
      · exact ⟨_, Nat.le_refl _,
          (Laid.word hLow hOrder hRest).remain⟩
      · rcases ih hShort with ⟨middle, hMiddle, hRemain⟩
        exact ⟨middle, by omega, hRemain⟩
  | literal hLow hOrder hRest ih =>
      rcases List.suffix_cons_iff.mp hSuffix with rfl | hShort
      · exact ⟨_, Nat.le_refl _,
          (Laid.literal hLow hOrder hRest).remain⟩
      · rcases ih hShort with ⟨middle, hMiddle, hRemain⟩
        exact ⟨middle, by omega, hRemain⟩
  | mark hLow hChar hRest ih =>
      rcases List.suffix_cons_iff.mp hSuffix with rfl | hShort
      · exact ⟨_, Nat.le_refl _,
          (Laid.mark hLow hChar hRest).remain⟩
      · rcases ih hShort with ⟨middle, hMiddle, hRemain⟩
        exact ⟨middle, by omega, hRemain⟩
  | group hLow hContent hClose hRest ihContent ih =>
      rcases List.suffix_cons_iff.mp hSuffix with rfl | hShort
      · exact ⟨_, Nat.le_refl _,
          (Laid.group hLow hContent hClose hRest).remain⟩
      · have hInside := hContent.low_le_high
        rcases ih hShort with ⟨middle, hMiddle, hRemain⟩
        exact ⟨middle, by omega, hRemain⟩
  | @doc low start stop high inner content trees rest'
      hLow hDoc hTrees hRest ih =>
      have hOrder := hDoc.start_lt_stop
      rcases Comment.docTokens_eq_cons inner content
        (spanAt text start stop) with ⟨tail, hCons, hTail⟩
      rcases hSuffix with ⟨used, hUsed⟩
      cases used with
      | nil =>
          rw [List.nil_append] at hUsed
          subst hUsed
          exact ⟨low, Nat.le_refl _,
            (Laid.doc hLow hDoc hTrees hRest).remain⟩
      | cons first used =>
          -- Some of the comment is gone; what is left of it
          -- is passed over.
          rw [hTrees, hCons, List.cons_append,
            List.cons_append] at hUsed
          have hAppend : used ++ rest = tail ++ rest' :=
            (List.cons.inj hUsed).2
          rcases List.append_eq_append_iff.mp hAppend with
            ⟨surplus, hSurplus, hLeft⟩ | ⟨surplus, hSurplus, hLeft⟩
          · refine ⟨stop, by omega, surplus, rest', hLeft, ?_,
              hRest⟩
            intro tree hMem
            exact hTail tree
              (hSurplus ▸ List.mem_append_right used hMem)
          · rcases ih ⟨surplus, hLeft.symm⟩ with
              ⟨middle, hMiddle, hRemain⟩
            exact ⟨middle, by omega, hRemain⟩

namespace Remain

variable {low high : Nat}

theorem of_suffix
    {trees rest : Tokens}
    (hRemain : Remain text low high trees)
    (hSuffix : rest <:+ trees) :
    ∃ middle, low ≤ middle ∧ Remain text middle high rest := by
  rcases hRemain with ⟨skipped, laid, rfl, hSkipped, hLaid⟩
  rcases hSuffix with ⟨used, hUsed⟩
  rcases List.append_eq_append_iff.mp hUsed with
    ⟨surplus, hSurplus, hLeft⟩ | ⟨surplus, hSurplus, hLeft⟩
  · refine ⟨low, Nat.le_refl low, surplus, laid, hLeft, ?_, hLaid⟩
    intro tree hMem
    exact hSkipped tree
      (hSurplus ▸ List.mem_append_right used hMem)
  · exact hLaid.remain_of_suffix ⟨surplus, hLeft.symm⟩

theorem low_le_high
    {trees : Tokens}
    (hRemain : Remain text low high trees) :
    low ≤ high := by
  rcases hRemain with ⟨skipped, laid, hTrees, hSkipped, hLaid⟩
  exact hLaid.low_le_high

/- A tree that starts no leftover stands where it should. -/
theorem laid
    {tree : TokenTree}
    {rest : Tokens}
    (hRemain : Remain text low high (tree :: rest))
    (hTree : Comment.isContinuation tree = false) :
    Laid text low high (tree :: rest) := by
  rcases hRemain with ⟨skipped, laid, hTrees, hSkipped, hLaid⟩
  cases skipped with
  | nil =>
      rw [List.nil_append] at hTrees
      rwa [hTrees]
  | cons first skipped =>
      have hSame : tree = first := (List.cons.inj hTrees).1
      have hTrue := hSkipped first List.mem_cons_self
      rw [← hSame, hTree] at hTrue
      cases hTrue

end Remain

end Nullary
