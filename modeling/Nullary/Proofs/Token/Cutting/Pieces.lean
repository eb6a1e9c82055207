import Nullary.Proofs.Token.Cutting.Between

/-
  Pieces of text that spell their tokens before whatever may
  follow them.

  What stands between two offsets of a text spells the trees
  that are read there, unless a comment up to the end of its
  line is the last thing in it.  Pieces are put together from
  left to right.  A piece has to be followed by something
  that no token goes on into, which blanks, commas and
  brackets are.

  Main declarations:
    * `Lexeme.Reaches`
    * `Lexeme.Between.spells`
    * `Lexeme.Yields`
    * `Lexeme.Yields.append`
    * `Lexeme.Yields.word`
    * `Lexeme.Yields.lifetime`
    * `Lexeme.Yields.exists_ofText`
-/

namespace Nullary

open SourceText

------------------------------------------------------------
-- Cutting
------------------------------------------------------------

namespace Lexeme

/-
  Reading a text comes to a place where something is true of
  what is left.
-/
inductive Reaches
    (goal : List Char → Prop) : List Char → Prop where
  | here
      {text : List Char}
      (hGoal : goal text) :
      Reaches goal text
  | gap
      {text : List Char}
      {length : Nat}
      (hGap : Gap.length text = some length)
      (hRest : Reaches goal (text.drop length)) :
      Reaches goal text
  | lexeme
      {text : List Char}
      {length : Nat}
      {build : Span → Lexeme}
      (hGap : Gap.length text = none)
      (hFirst : first? text = some (length, build))
      (hRest : Reaches goal (text.drop length)) :
      Reaches goal text

namespace Reaches

variable {goal : List Char → Prop}

theorem imp
    {goal' : List Char → Prop}
    (hGoal : ∀ text, goal text → goal' text)
    {text : List Char}
    (hReaches : Reaches goal text) :
    Reaches goal' text := by
  induction hReaches with
  | here h => exact .here (hGoal _ h)
  | gap hGap _ ih => exact .gap hGap ih
  | lexeme hGap hFirst _ ih => exact .lexeme hGap hFirst ih

/- Read a text, at most `fuel` gaps and lexemes of it, up to a place. -/
def within
    (goal : List Char → Prop)
    [DecidablePred goal] : Nat → List Char → Bool
  | 0, text => decide (goal text)
  | fuel + 1, text =>
      decide (goal text) ||
        match Gap.length text, first? text with
        | some length, _ => within goal fuel (text.drop length)
        | none, some (length, _) => within goal fuel (text.drop length)
        | none, none => false

/- Every step takes a character, so that the length is enough. -/
theorem within_eq_true_iff
    [DecidablePred goal]
    {fuel : Nat}
    {text : List Char}
    (hFuel : text.length ≤ fuel) :
    within goal fuel text = true ↔ Reaches goal text := by
  induction fuel generalizing text with
  | zero =>
      have hNil : text = [] :=
        List.eq_nil_of_length_eq_zero (Nat.le_zero.mp hFuel)
      subst hNil
      rw [within, decide_eq_true_eq]
      refine ⟨.here, fun hReaches => ?_⟩
      cases hReaches with
      | here hGoal => exact hGoal
      | gap hGap => cases hGap
      | lexeme _ hFirst => cases hFirst
  | succ fuel ih =>
      have hShort : ∀ length, 0 < length →
          (text.drop length).length ≤ fuel := by
        intro length hPos
        rw [List.length_drop]
        omega
      rw [within, Bool.or_eq_true, decide_eq_true_eq]
      constructor
      · rintro (hGoal | hRest)
        · exact .here hGoal
        · split at hRest
          · next hGap =>
              exact .gap hGap
                ((ih (hShort _ (Gap.length_pos hGap))).mp hRest)
          · next hGap hFirst =>
              exact .lexeme hGap hFirst
                ((ih (hShort _ (first?_pos hFirst))).mp hRest)
          · cases hRest
      · intro hReaches
        cases hReaches with
        | here hGoal => exact Or.inl hGoal
        | gap hGap hRest =>
            right
            rw [hGap]
            exact (ih (hShort _ (Gap.length_pos hGap))).mpr hRest
        | lexeme hGap hFirst hRest =>
            right
            rw [hGap, hFirst]
            exact (ih (hShort _ (first?_pos hFirst))).mpr hRest

instance
    [DecidablePred goal]
    (text : List Char) :
    Decidable (Reaches goal text) :=
  decidable_of_iff _ (within_eq_true_iff (Nat.le_refl text.length))

end Reaches

theorem endsPiece_nil :
    EndsPiece [] :=
  ⟨endsToken_nil, nofun⟩

/- Two slashes start a comment that goes on up to the line feed. -/
theorem gap_of_slashes
    {others : List Char}
    {length : Nat}
    (hGap : Gap.length ('/' :: '/' :: others) = some length) :
    length = Comment.lineLength ('/' :: '/' :: others) := by
  have hSlash : Gap.isSeparator '/' = false := by decide +kernel
  rcases Gap.length_cases hGap with
    ⟨c, _, hText, hSeparator, _⟩ | ⟨_, _, _, hLine⟩ | ⟨_, hText, _⟩
  · cases hText
    rw [hSlash] at hSeparator
    cases hSeparator
  · exact hLine
  · cases hText

theorem first?_of_slashes
    {others : List Char}
    {length : Nat}
    {build : Span → Lexeme}
    (hFirst : first? ('/' :: '/' :: others) = some (length, build)) :
    length = Comment.lineLength ('/' :: '/' :: others) := by
  cases firstAt_of_first? hFirst with
  | doc hDoc =>
      rcases Comment.doc?_cases hDoc with ⟨_, _, hLine⟩ | ⟨_, hText, _⟩
      · exact hLine
      · cases hText
  | error hDoc hError => cases hError
  | opening hOpened => cases hOpened
  | closing hClosed => cases hClosed
  | token hToken =>
      have hMark := startsWithMark_of_token? hToken
      cases hMark

/- Where a comment ends with a piece, so does its line. -/
theorem openLine_of_lineLength
    {others rest : List Char}
    (hLength :
      ('/' :: '/' :: others).length =
        Comment.lineLength ('/' :: '/' :: others ++ rest)) :
    Comment.OpenLine ('/' :: '/' :: others) ∧
      ∀ c, rest.head? = some c → c = '\n' := by
  generalize hPiece : '/' :: '/' :: others = piece at *
  have hAll : ∀ c ∈ piece, c ≠ '\n' := by
    intro c hMem
    have hPrefix : piece <+: (piece ++ rest).takeWhile (· != '\n') := by
      refine List.prefix_of_prefix_length_le
        (List.prefix_append piece rest) (List.takeWhile_prefix _) ?_
      rw [Comment.lineLength] at hLength
      omega
    simpa using List.mem_takeWhile_imp (hPrefix.subset hMem)
  refine ⟨⟨⟨others, hPiece.symm⟩, fun hFeed => hAll _ hFeed rfl⟩, ?_⟩
  intro c hHead
  rcases List.head?_eq_some_iff.mp hHead with ⟨more, rfl⟩
  have hTest : ∀ d ∈ piece, (d != '\n') = true := by simpa using hAll
  rw [Comment.lineLength, List.takeWhile_append_of_pos hTest,
    List.length_append] at hLength
  by_contra hNe
  rw [List.takeWhile_cons_of_pos (by simpa using hNe),
    List.length_cons] at hLength
  omega

section Pieces

variable {piece rest : List Char}
variable {length : Nat}

/- A gap that lies in a piece is there whatever follows the piece. -/
theorem gap_of_piece
    (hGap : Gap.length (piece ++ rest) = some length)
    (hLength : length ≤ piece.length)
    (hLine :
      Comment.OpenLine piece → ∃ c, rest.head? = some c ∧ c ≠ '\n')
    (rest' : List Char) :
    Gap.length (piece ++ rest') = some length := by
  refine Gap.length_of_append hGap hLength ?_
  rintro hAll others rfl
  rcases openLine_of_lineLength
      (hAll.symm.trans (gap_of_slashes hGap)) with
    ⟨hOpen, hFeed⟩
  rcases hLine hOpen with ⟨c, hHead, hNe⟩
  exact hNe (hFeed c hHead)

/- A lexeme that lies in a piece is there whatever follows it. -/
theorem first?_of_piece
    {build : Span → Lexeme}
    (hEnds : EndsToken rest)
    (hGap : Gap.length (piece ++ rest) = none)
    (hFirst : first? (piece ++ rest) = some (length, build))
    (hLength : length ≤ piece.length)
    (hLine :
      Comment.OpenLine piece → ∃ c, rest.head? = some c ∧ c ≠ '\n')
    {rest' : List Char}
    (hEnds' : EndsPiece rest') :
    Gap.length (piece ++ rest') = none ∧
      ∃ build', first? (piece ++ rest') = some (length, build') ∧
        SameTexts build build' := by
  refine first?_of_append hEnds hEnds' hGap hFirst hLength ?_
  rintro hAll others rfl
  rcases openLine_of_lineLength
      (hAll.symm.trans (first?_of_slashes hFirst)) with
    ⟨hOpen, hFeed⟩
  rcases hLine hOpen with ⟨c, hHead, hNe⟩
  exact hNe (hFeed c hHead)

end Pieces

theorem textsAll_cons
    (lexeme : Lexeme)
    (lexemes : List Lexeme) :
    textsAll (lexeme :: lexemes) = lexeme.texts ++ textsAll lexemes :=
  rfl

/-
  What stands between two offsets spells what is read there,
  if no token goes on behind it.  A line comment that it ends
  with must end there in the whole text as well.
-/
theorem Between.spells
    {text : List Char}
    {start stop : Nat}
    {lexemes : List Lexeme}
    (hBetween : Between text start stop lexemes)
    {piece : List Char}
    (hPiece : text.drop start = piece ++ text.drop stop)
    (hEnds : EndsToken (text.drop stop))
    (hLine :
      Reaches Comment.OpenLine piece →
        ∃ c, text[stop]? = some c ∧ c ≠ '\n') :
    ∃ found, Spells piece found ∧ textsAll found = textsAll lexemes := by
  have hHead : (text.drop stop).head? = text[stop]? := by
    rw [List.head?_drop]
  -- The piece is as long as the offsets are apart.
  have hSize :
      ∀ {first last : Nat} {lexemes : List Lexeme} {piece : List Char},
        Between text first last lexemes →
        text.drop first = piece ++ text.drop last →
        first + piece.length = last := by
    intro first last lexemes piece hFound hText
    have hLe := hFound.le
    have hLength := congrArg List.length hText
    rw [List.length_append, List.length_drop, List.length_drop] at hLength
    omega
  induction hBetween generalizing piece with
  | nil hStart =>
      have hNil : piece = [] := List.append_left_eq_self.mp hPiece.symm
      rw [hNil]
      exact ⟨[], .nil, rfl⟩
  | @gap start length stop lexemes hGap hRest ih =>
      have hLength : length ≤ piece.length := by
        have hWhole := hSize (.gap hGap hRest) hPiece
        have hLe := hRest.le
        omega
      have hAlone : Gap.length piece = some length := by
        rw [hPiece] at hGap
        have hAlone :=
          gap_of_piece hGap hLength
            (fun hOpen => hHead ▸ hLine (.here hOpen)) []
        rwa [List.append_nil] at hAlone
      have hLeft :
          text.drop (start + length) =
            piece.drop length ++ text.drop stop := by
        rw [← List.drop_drop, hPiece, drop_append_of_le hLength]
      rcases ih hLeft hEnds (fun hReach => hLine (.gap hAlone hReach))
          hHead with
        ⟨found, hFound, hTexts⟩
      exact ⟨found, .gap hAlone hFound, hTexts⟩
  | @lexeme start length stop build lexemes hGap hFirst hRest ih =>
      have hLength : length ≤ piece.length := by
        have hWhole := hSize (.lexeme hGap hFirst hRest) hPiece
        have hLe := hRest.le
        omega
      rw [hPiece] at hGap hFirst
      have hAlone :=
        first?_of_piece hEnds hGap hFirst hLength
          (fun hOpen => hHead ▸ hLine (.here hOpen)) endsPiece_nil
      rw [List.append_nil] at hAlone
      rcases hAlone with ⟨hGap', build', hFirst', hSame⟩
      have hLeft :
          text.drop (start + length) =
            piece.drop length ++ text.drop stop := by
        rw [← List.drop_drop, hPiece, drop_append_of_le hLength]
      rcases ih hLeft hEnds
          (fun hReach => hLine (.lexeme hGap' hFirst' hReach)) hHead with
        ⟨found, hFound, hTexts⟩
      refine ⟨_, .lexeme hGap' hFirst' hFound, ?_⟩
      rw [textsAll_cons, textsAll_cons, hTexts, hSame _ .nowhere]

end Lexeme

------------------------------------------------------------
-- What May Follow a Piece
------------------------------------------------------------

theorem EndsToken.endsWord
    {rest : List Char}
    (hEnds : EndsToken rest) :
    EndsWord rest := by
  intro c hHead
  refine ⟨(hEnds c hHead).1, ?_, ?_, ?_⟩
  · exact hEnds.ne hHead (Or.inr (by decide))
  · exact hEnds.ne hHead (Or.inr (by decide))
  · exact hEnds.ne hHead (Or.inr (by decide))

/- The characters that end a piece in a list. -/
theorem endsPiece_cons
    {c : Char}
    (hChar : c ∈ [' ', ',', '<', '>', '\x7b'])
    (rest : List Char) :
    EndsPiece (c :: rest) := by
  have hAll :
      ∀ c ∈ [' ', ',', '<', '>', '\x7b'],
        isIdentifierContinue c = false ∧
          c ∉ ['"', '\'', '#', '.', '+', '-'] ∧
          c ∉ ['/', '*', ')'] :=
    forall_mem_of_all (by decide)
  rcases hAll c hChar with ⟨hContinue, hSign, hComment⟩
  refine ⟨?_, ?_⟩
  · intro d hHead
    cases hHead
    exact ⟨hContinue, hSign⟩
  · intro d hHead
    cases hHead
    exact hComment

namespace Lexeme

------------------------------------------------------------
-- Pieces
------------------------------------------------------------

/- A text spells tokens before whatever may follow a piece. -/
def Yields
    (text : List Char)
    (written : List String) : Prop :=
  ∀ rest others, EndsPiece rest → Spells rest others →
    ∃ found, Spells (text ++ rest) (found ++ others) ∧
      textsAll found = written

namespace Yields

variable {text : List Char}
variable {written : List String}

theorem nil :
    Yields [] [] :=
  fun _ _ _ hRest => ⟨[], hRest, rfl⟩

theorem append
    {text' : List Char}
    {written' : List String}
    (hFirst : Yields text written)
    (hSecond : Yields text' written')
    (hNext : ∀ rest, EndsPiece rest → EndsPiece (text' ++ rest)) :
    Yields (text ++ text') (written ++ written') := by
  intro rest others hEnds hRest
  rcases hSecond rest others hEnds hRest with ⟨found', hFound', rfl⟩
  rcases hFirst (text' ++ rest) (found' ++ others) (hNext rest hEnds)
      hFound' with
    ⟨found, hFound, rfl⟩
  refine ⟨found ++ found', ?_, by simp [textsAll]⟩
  rw [List.append_assoc, List.append_assoc]
  exact hFound

/- Blanks count for nothing. -/
theorem blank
    {c : Char}
    (hBlank : isBlank c = true)
    (hText : Yields text written) :
    Yields (c :: text) written := by
  intro rest others hEnds hRest
  rcases hText rest others hEnds hRest with ⟨found, hFound, hTexts⟩
  exact ⟨found, hFound.blank hBlank, hTexts⟩

/- So does a gap at the start of a text. -/
theorem gap
    {length : Nat}
    (hGap : ∀ rest, Gap.length (text ++ rest) = some length)
    (hLength : length ≤ text.length)
    (hRest : Yields (text.drop length) written) :
    Yields text written := by
  intro rest others hEnds hOthers
  rcases hRest rest others hEnds hOthers with ⟨found, hFound, hTexts⟩
  rw [← drop_append_of_le hLength] at hFound
  exact ⟨found, .gap (hGap rest) hFound, hTexts⟩

/- A lexeme that is the first one before all that may follow. -/
theorem lexeme
    {length : Nat}
    {build : Span → Lexeme}
    (hFirst :
      ∀ rest, EndsPiece rest →
        Gap.length (text ++ rest) = none ∧
          ∃ build', first? (text ++ rest) = some (length, build') ∧
            SameTexts build build')
    (hLength : length ≤ text.length)
    (hRest : Yields (text.drop length) written) :
    Yields text ((build .nowhere).texts ++ written) := by
  intro rest others hEnds hOthers
  rcases hRest rest others hEnds hOthers with ⟨found, hFound, rfl⟩
  rcases hFirst rest hEnds with ⟨hGap, build', hBuild, hSame⟩
  rw [← drop_append_of_le hLength] at hFound
  refine ⟨build' .nowhere :: found, .lexeme hGap hBuild hFound, ?_⟩
  rw [textsAll_cons, hSame .nowhere .nowhere]

/- A mark stands for itself. -/
theorem mark
    {c : Char}
    (hMark : c ∈ markChars)
    (hTick : c ≠ '\'')
    (hSlash : c ≠ '/')
    (hText : Yields text written) :
    Yields (c :: text) (c.toString :: written) := by
  intro rest others hEnds hRest
  rcases hText rest others hEnds hRest with ⟨found, hFound, rfl⟩
  refine ⟨_ :: found, hFound.mark hMark hTick hSlash, ?_⟩
  simp [textsAll, texts]

theorem word
    {word : String}
    (hWord : IsIdentifier word.toList) :
    Yields word.toList [word] := by
  intro rest others hEnds hRest
  refine ⟨[.trees [.word word .nowhere]], ?_, by simp [textsAll, texts]⟩
  exact .word hWord hEnds.endsToken.endsWord hRest

/- A quote before a word that is alone starts a lifetime. -/
theorem startsLifetime_of_isIdentifier
    {name rest : List Char}
    (hName : IsIdentifier name)
    (hEnds : EndsToken rest) :
    startsLifetime (name ++ rest) = true := by
  rw [startsLifetime_append_of_ends name hEnds]
  unfold startsLifetime
  rw [hName]
  simp

/- No character literal starts with a word that is alone. -/
theorem length_quote_of_isIdentifier
    {name rest : List Char}
    (hName : IsIdentifier name)
    (hEnds : EndsToken rest) :
    Literal.length ('\'' :: (name ++ rest)) = none := by
  have hTick :
      ∀ tail : List Char,
        (∀ c, tail.head? = some c → c ≠ '\'') →
        (tail ++ rest).head? ≠ some '\'' := by
    intro tail hTail hHead
    cases tail with
    | nil => exact hEnds.ne hHead (Or.inr (by decide)) rfl
    | cons d others => exact hTail d rfl (Option.some.inj hHead)
  rcases hName.cases with hPlain | ⟨raw, rfl, _, _⟩
  · rcases hPlain.start with ⟨c, tail, rfl, hStart⟩
    rw [List.cons_append, length_quote_iff hStart]
    apply hTick
    rintro d hHead rfl
    have hContinue :=
      hPlain.all '\'' (List.mem_cons_of_mem c (List.mem_of_head? hHead))
    exact absurd hContinue (by decide)
  · rw [List.cons_append, length_quote_iff (by decide)]
    exact nofun

theorem lifetime
    {word : String}
    (hWord : IsIdentifier word.toList) :
    Yields ('\'' :: word.toList) ["'", word] := by
  intro rest others hEnds hRest
  have hSpells := hRest.word hWord hEnds.endsToken.endsWord
  have hToken :
      token? ('\'' :: (word.toList ++ rest)) =
        some (1, .mark '\'' true) := by
    have hStarts :
        startsWithMark ('\'' :: (word.toList ++ rest)) = true :=
      rfl
    simp [token?, length_quote_of_isIdentifier hWord hEnds.endsToken,
      hStarts, startsLifetime_of_isIdentifier hWord hEnds.endsToken]
  have hFirst :=
    first?_of_token? (by decide) rfl rfl hToken
  have hGap : Gap.length ('\'' :: (word.toList ++ rest)) = none :=
    Gap.length_eq_none (by decide)
      (isSeparator_of_mem_signs (by decide)) _
  refine ⟨[.trees [.mark '\'' true .nowhere],
    .trees [.word word .nowhere]], ?_, by simp [textsAll, texts]⟩
  exact .lexeme hGap hFirst hSpells

end Yields

/- A piece before a brace is read as its tokens and the brace. -/
theorem Yields.exists_ofText
    {text : List Char}
    {written : List String}
    (hText : Yields text written)
    (position : Position) :
    ∃ lexemes, ofText position (text ++ " \x7b".toList) = some lexemes ∧
      textsAll lexemes = written ++ ["\x7b"] := by
  have hBrace :
      Spells ['\x7b'] [.opening .brace .nowhere] :=
    .opening rfl nofun .nil
  rcases hText " \x7b".toList _ (endsPiece_cons (by decide) ['\x7b'])
      (hBrace.blank (by decide)) with
    ⟨found, hFound, rfl⟩
  rcases exists_ofTextFrom_of_spells hFound (Nat.le_refl _) position with
    ⟨lexemes, hLexemes, hBare⟩
  refine ⟨lexemes, hLexemes, ?_⟩
  rw [← textsAll_map_bare, hBare]
  simp [textsAll, texts, Delimiter.openText]

end Lexeme

end Nullary
