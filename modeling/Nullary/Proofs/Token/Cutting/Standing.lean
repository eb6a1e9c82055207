import Nullary.Proofs.Token.Cutting.Between

/-
  What stands at the offsets between which trees are read.

  A word that is read is an identifier.  A mark that starts no
  documentation stands where it is read, and so does a
  delimiter; some of them end every token before them.

  Main declarations:
    * `Tokens.Between.isIdentifier`
    * `Tokens.Between.exists_mark`
    * `Tokens.Stops`
    * `Tokens.Between.endsToken`
-/

namespace Nullary

open SourceText

variable {text : List Char}
variable {length : Nat}

------------------------------------------------------------
-- Words
------------------------------------------------------------

theorem identifierLength_take
    (hLength : identifierLength text = some length) :
    identifierLength (text.take length) = some length := by
  unfold identifierLength at hLength
  split at hLength
  · cases hLength
  · next c rest =>
      split at hLength
      · next hStart =>
          cases hLength
          have hTaken :
              rest.take (rest.takeWhile isIdentifierContinue).length =
                rest.takeWhile isIdentifierContinue :=
            (List.prefix_iff_eq_take.mp
              (List.takeWhile_prefix isIdentifierContinue)).symm
          rw [List.take_succ_cons, hTaken, identifierLength,
            if_pos hStart, List.takeWhile_takeWhile]
          simp
      · cases hLength

/- A word is read in the same way if nothing follows it. -/
theorem wordLength_take
    (hLength : wordLength text = some length) :
    wordLength (text.take length) = some length := by
  by_cases hRaw : ∃ others, text = 'r' :: '#' :: others
  · rcases hRaw with ⟨others, rfl⟩
    rw [wordLength] at hLength
    rcases Option.bind_eq_some_iff.mp hLength with
      ⟨inner, hInner, hFound⟩
    dsimp only at hFound
    split at hFound
    · cases hFound
    · next hAllowed =>
        cases hFound
        have hTake := identifierLength_take hInner
        rw [List.take_succ_cons, List.take_succ_cons, wordLength, hTake]
        simp only [Option.bind_eq_bind, Option.bind_some, List.take_take,
          Nat.min_self, if_neg hAllowed]
        rfl
  · have hText : ∀ others, text ≠ 'r' :: '#' :: others :=
      fun others hEq => hRaw ⟨others, hEq⟩
    have hTake : ∀ others, text.take length ≠ 'r' :: '#' :: others := by
      intro others hEq
      refine hText (others ++ text.drop length) ?_
      nth_rewrite 1 [← List.take_append_drop length text]
      rw [hEq]
      rfl
    rw [wordLength_eq_identifierLength hText] at hLength
    rw [wordLength_eq_identifierLength hTake]
    exact identifierLength_take hLength

namespace Lexeme

variable {span : Span}
variable {name : String}

theorem isIdentifier_of_token?
    {length : Nat}
    {build : Span → TokenTree}
    (hToken : token? text = some (length, build))
    {span' : Span}
    (hWord : build span = .word name span') :
    IsIdentifier name.toList := by
  cases token?_eq_some_iff.mp hToken with
  | literal => cases hWord
  | lifetime => cases hWord
  | mark => cases hWord
  | word hLiteral hMark hPlain hFound =>
      cases hWord
      rw [IsIdentifier, String.toList_ofList, wordLength_take hFound,
        List.length_take, Nat.min_eq_left (wordLength_le hFound)]

/- A word among the trees of a lexeme is all of it. -/
theorem isIdentifier_of_first?
    {length : Nat}
    {build : Span → Lexeme}
    (hFirst : first? text = some (length, build))
    {span' : Span}
    {found : Tokens}
    (hFound : build span = .trees found)
    (hWord : .word name span' ∈ found) :
    IsIdentifier name.toList := by
  cases firstAt_of_first? hFirst with
  | @doc _ _ _ inner =>
      cases hFound
      cases inner <;> simp [Comment.docTokens] at hWord
  | error =>
      cases hFound
      simp at hWord
  | opening => cases hFound
  | closing => cases hFound
  | token hToken =>
      cases hFound
      exact isIdentifier_of_token? hToken
        (List.mem_singleton.mp hWord).symm

theorem Between.isIdentifier
    {start stop : Nat}
    {lexemes : List Lexeme}
    (hBetween : Between text start stop lexemes)
    {found : Tokens}
    (hFound : .trees found ∈ lexemes)
    (hWord : .word name span ∈ found) :
    IsIdentifier name.toList := by
  induction hBetween with
  | nil => cases hFound
  | gap _ _ ih => exact ih hFound
  | lexeme _ hFirst _ ih =>
      rcases List.mem_cons.mp hFound with hHere | hThere
      · exact isIdentifier_of_first? hFirst hHere.symm hWord
      · exact ih hThere

theorem Nesting.exists_trees
    {lexemes : List Lexeme}
    {trees : Tokens}
    (hNesting : Nesting lexemes trees)
    (hWord : .word name span ∈ trees) :
    ∃ found, .trees found ∈ lexemes ∧ .word name span ∈ found := by
  induction hNesting with
  | nil => cases hWord
  | trees found _ ih =>
      rcases List.mem_append.mp hWord with hHere | hThere
      · exact ⟨found, List.mem_cons_self, hHere⟩
      · rcases ih hThere with ⟨found', hFound, hMem⟩
        exact ⟨found', List.mem_cons_of_mem _ hFound, hMem⟩
  | group _ _ _ ih =>
      rcases List.mem_cons.mp hWord with hHere | hThere
      · cases hHere
      · rcases ih hThere with ⟨found, hFound, hMem⟩
        exact ⟨found, by simp [hFound], hMem⟩

end Lexeme

/- A word that is read is an identifier. -/
theorem Tokens.Between.isIdentifier
    {start stop : Nat}
    {trees : Tokens}
    (hBetween : Between text start stop trees)
    {name : String}
    {span : Span}
    (hWord : .word name span ∈ trees) :
    IsIdentifier name.toList := by
  rcases hBetween with ⟨lexemes, hLexemes, hNesting⟩
  rcases hNesting.exists_trees hWord with ⟨found, hFound, hMem⟩
  exact hLexemes.isIdentifier hFound hMem

------------------------------------------------------------
-- Marks and Delimiters
------------------------------------------------------------

namespace Lexeme

variable {span span' : Span}

/- A token that is a mark stands where it is read. -/
theorem head?_of_token?
    {text : List Char}
    {build : Span → TokenTree}
    (hToken : token? text = some (length, build))
    {c : Char}
    {joint : Bool}
    (hBuild : build span = .mark c joint span') :
    text.head? = some c := by
  cases token?_eq_some_iff.mp hToken with
  | literal => cases hBuild
  | lifetime =>
      cases hBuild
      rfl
  | mark =>
      cases hBuild
      rfl
  | word => cases hBuild

/- A mark that starts no documentation stands where it is read. -/
theorem head?_of_first?
    {text : List Char}
    {build : Span → Lexeme}
    (hFirst : first? text = some (length, build))
    {c : Char}
    {joint : Bool}
    {more : Tokens}
    (hBuild : build span = .trees (.mark c joint span' :: more))
    (hHash : c ≠ '#') :
    text.head? = some c := by
  cases firstAt_of_first? hFirst with
  | doc =>
      rcases Comment.docTokens_eq_cons _ _ span with ⟨tail, hTail, _⟩
      cases hTail.symm.trans (Lexeme.trees.inj hBuild)
      exact absurd rfl hHash
  | error => cases hBuild
  | opening => cases hBuild
  | closing => cases hBuild
  | token hToken =>
      exact head?_of_token? hToken
        (List.cons.inj (Lexeme.trees.inj hBuild)).1

/- A delimiter stands where it is read. -/
theorem openedBy_of_first?
    {text : List Char}
    {build : Span → Lexeme}
    (hFirst : first? text = some (length, build))
    {delimiter : Delimiter}
    (hBuild : build span = .opening delimiter span') :
    ∃ c, text.head? = some c ∧ openedBy c = some delimiter := by
  cases firstAt_of_first? hFirst with
  | doc => cases hBuild
  | error => cases hBuild
  | opening hOpened =>
      cases hBuild
      exact ⟨_, rfl, hOpened⟩
  | closing => cases hBuild
  | token => cases hBuild

end Lexeme

------------------------------------------------------------
-- Stops
------------------------------------------------------------

/- No token goes on into a gap. -/
theorem Gap.endsToken
    (hGap : Gap.length text = some length) :
    EndsToken text := by
  cases text with
  | nil => exact endsToken_nil
  | cons c rest =>
      by_cases hSlash : c = '/'
      · subst hSlash
        exact endsToken_cons (by rw [GoesOn]; decide) rest
      · have hSeparator : Gap.isSeparator c = true := by
          by_contra hNot
          rw [Bool.not_eq_true] at hNot
          rw [Gap.length_eq_none hSlash hNot] at hGap
          cases hGap
        refine endsToken_cons ?_ rest
        rw [Gap.isSeparator, Bool.or_eq_true, Bool.or_eq_true,
          beq_iff_eq, beq_iff_eq] at hSeparator
        rcases hSeparator with (hBlank | hLeft) | hRight
        · exact not_goesOn_of_isBlank hBlank
        · rw [← Char.ofNat_toNat c, hLeft, GoesOn]
          decide +kernel
        · rw [← Char.ofNat_toNat c, hRight, GoesOn]
          decide +kernel

/- A tree that no token before it goes on into. -/
def TokenTree.isStop : TokenTree → Bool
  | .mark c _ _ => [':', '=', ',', '>', ';'].contains c
  | .group delimiter _ _ => delimiter == .brace
  | _ => false

/- A tree comes next that no token goes on into. -/
def Tokens.Stops
    (trees : Tokens) : Prop :=
  ∃ tree more, trees = tree :: more ∧ tree.isStop = true

namespace Tokens.Stops

variable {trees : Tokens}

theorem of_atMark
    {operator : String}
    {c : Char}
    (hOperator : operator.toList = [c])
    (hStop : [':', '=', ',', '>', ';'].contains c = true)
    (hMark : trees.atMark operator = true) :
    Stops trees := by
  rw [atMark, hOperator] at hMark
  cases trees with
  | nil => cases hMark
  | cons tree more =>
      cases tree with
      | mark d joint span =>
          rw [atMarks, beq_iff_eq] at hMark
          exact ⟨_, more, rfl, hMark ▸ hStop⟩
      | word => cases hMark
      | literal => cases hMark
      | group => cases hMark

theorem of_atGroup
    (hGroup : trees.atGroup .brace = true) :
    Stops trees := by
  cases trees with
  | nil => cases hGroup
  | cons tree more =>
      cases tree with
      | group delimiter content span =>
          exact ⟨_, more, rfl, hGroup⟩
      | word => cases hGroup
      | literal => cases hGroup
      | mark => cases hGroup

/- A stop does not belong to an attribute before it. -/
theorem isContinuation
    (hStops : Stops trees)
    (tree : TokenTree)
    (hHead : trees.head? = some tree) :
    Comment.isContinuation tree = false := by
  rcases hStops with ⟨first, more, rfl, hStop⟩
  cases hHead
  cases tree with
  | mark c joint span =>
      have hAll :
          ∀ c ∈ [':', '=', ',', '>', ';'], (c == '!') = false :=
        forall_mem_of_all (by decide)
      exact hAll c (List.contains_iff_mem.mp hStop)
  | group delimiter content span =>
      rw [eq_of_beq hStop]
      rfl
  | word => rfl
  | literal => rfl

end Tokens.Stops

namespace Tokens.Between

open Lexeme

variable {text : List Char}
variable {start place stop : Nat}

/- What ends a token ends it also before gaps. -/
theorem endsToken_of_gaps
    (hBetween : Between text start place [])
    (hEnds : EndsToken (text.drop place)) :
    EndsToken (text.drop start) := by
  rcases hBetween with ⟨lexemes, hLexemes, hNesting⟩
  cases hNesting.eq_nil hLexemes.covers
  cases hLexemes with
  | nil => exact hEnds
  | gap hGap => exact Gap.endsToken hGap

/- The offset at which a mark stands. -/
theorem exists_mark
    {c : Char}
    {joint : Bool}
    {span : Span}
    {rest : Tokens}
    (hBetween : Between text start stop (.mark c joint span :: rest))
    (hHash : c ≠ '#') :
    ∃ place, Between text start place [] ∧
      (text.drop place).head? = some c ∧
      span.start = positionAt text place := by
  rcases hBetween with ⟨lexemes, hLexemes, hNesting⟩
  generalize hTrees : TokenTree.mark c joint span :: rest = trees
    at hNesting
  cases hNesting with
  | nil => cases hTrees
  | trees found hRest =>
      rcases hLexemes.of_cons with
        ⟨place, length, build, hBefore, _, hFirst, hBuild, _⟩
      have hMade : MadeAt (spanAt text place (place + length)) found := by
        have hCovers :=
          covers_of_first? hFirst (spanAt text place (place + length))
        rw [← hBuild] at hCovers
        exact hCovers
      rcases hMade.head with ⟨first, tail, rfl, _⟩
      cases hTrees
      have hSpan := hMade.span _ List.mem_cons_self
      refine ⟨place, ⟨[], hBefore, .nil⟩,
        head?_of_first? hFirst hBuild.symm hHash, ?_⟩
      exact congrArg Span.start hSpan
  | group => cases hTrees

/- No token goes on into what is read as a stop. -/
theorem endsToken
    {trees : Tokens}
    (hBetween : Between text start stop trees)
    (hStops : Stops trees) :
    EndsToken (text.drop start) := by
  rcases hStops with ⟨tree, rest, rfl, hStop⟩
  have hEnds :
      ∀ place c, (text.drop place).head? = some c →
        c ∈ [':', '=', ',', '>', ';', '\x7b'] →
        EndsToken (text.drop place) := by
    intro place c hHead hChar
    rcases List.head?_eq_some_iff.mp hHead with ⟨more, hMore⟩
    rw [hMore]
    refine endsToken_cons ?_ more
    have hAll :
        ∀ c ∈ [':', '=', ',', '>', ';', '\x7b'],
          ¬ (isIdentifierContinue c = true ∨
            c ∈ ['"', '\'', '#', '.', '+', '-']) :=
      forall_mem_of_all (by decide)
    exact hAll c hChar
  cases tree with
  | word => cases hStop
  | literal => cases hStop
  | mark c joint span =>
      have hChar : c ∈ [':', '=', ',', '>', ';'] := by
        simpa [TokenTree.isStop] using hStop
      have hHash : c ≠ '#' := by
        rintro rfl
        exact absurd hChar (by decide)
      rcases hBetween.exists_mark hHash with ⟨place, hGaps, hHead, _⟩
      exact hGaps.endsToken_of_gaps
        (hEnds place c hHead (List.mem_append_left ['\x7b'] hChar))
  | group delimiter content span =>
      have hBrace : delimiter = .brace := by
        simpa [TokenTree.isStop] using hStop
      subst hBrace
      rcases hBetween with ⟨lexemes, hLexemes, hNesting⟩
      rcases hNesting.of_group hLexemes.covers with
        ⟨opening, inner, closing, others, rfl, _⟩
      rcases hLexemes.of_cons with
        ⟨place, length, build, hBefore, _, hFirst, hBuild, _⟩
      rcases openedBy_of_first? hFirst hBuild.symm with
        ⟨c, hHead, hOpened⟩
      have hChar : c = '\x7b' := by
        unfold openedBy at hOpened
        split at hOpened <;> cases hOpened
        rfl
      have hGaps : Between text start place [] := ⟨[], hBefore, .nil⟩
      exact hGaps.endsToken_of_gaps
        (hEnds place c hHead (by rw [hChar]; decide))

end Tokens.Between

end Nullary
