import Nullary.Proofs.Token.Cutting.Tail

/-
  What is read between two offsets of a text.

  A reading comes to rest after every gap and after every
  lexeme.  Trees that stand next to each other in a sequence
  are therefore read between two such offsets.

  Main declarations:
    * `Lexeme.Between`
    * `Lexeme.nesting_of_nest`
    * `Tokens.Between`
    * `Tokens.Between.split`
    * `Tokens.Between.tight`
-/

namespace Nullary

open SourceText

------------------------------------------------------------
-- Lexemes
------------------------------------------------------------

namespace Lexeme

/- Reading a text from one offset up to another gives lexemes. -/
inductive Between
    (text : List Char) : Nat → Nat → List Lexeme → Prop where
  | nil
      {start : Nat}
      (hStart : start ≤ text.length) :
      Between text start start []
  | gap
      {start length stop : Nat}
      {lexemes : List Lexeme}
      (hGap : Gap.length (text.drop start) = some length)
      (hRest : Between text (start + length) stop lexemes) :
      Between text start stop lexemes
  | lexeme
      {start length stop : Nat}
      {build : Span → Lexeme}
      {lexemes : List Lexeme}
      (hGap : Gap.length (text.drop start) = none)
      (hFirst : first? (text.drop start) = some (length, build))
      (hRest : Between text (start + length) stop lexemes) :
      Between text start stop
        (build (spanAt text start (start + length)) :: lexemes)

namespace Between

variable {text : List Char}
variable {start middle stop : Nat}
variable {lexemes lexemes' : List Lexeme}

theorem le
    (hBetween : Between text start stop lexemes) :
    start ≤ stop ∧ stop ≤ text.length := by
  induction hBetween with
  | nil hStart => exact ⟨Nat.le_refl _, hStart⟩
  | gap _ _ ih => exact ⟨by omega, ih.2⟩
  | lexeme _ _ _ ih => exact ⟨by omega, ih.2⟩

theorem append
    (hFirst : Between text start middle lexemes)
    (hSecond : Between text middle stop lexemes') :
    Between text start stop (lexemes ++ lexemes') := by
  induction hFirst with
  | nil => exact hSecond
  | gap hGap _ ih => exact .gap hGap (ih hSecond)
  | lexeme hGap hFound _ ih => exact .lexeme hGap hFound (ih hSecond)

/- A reading comes to rest between any two of its lexemes. -/
theorem of_append
    (hBetween : Between text start stop (lexemes ++ lexemes')) :
    ∃ middle, Between text start middle lexemes ∧
      Between text middle stop lexemes' := by
  generalize hAll : lexemes ++ lexemes' = all at hBetween
  induction hBetween generalizing lexemes with
  | nil hStart =>
      rcases List.append_eq_nil_iff.mp hAll with ⟨rfl, rfl⟩
      exact ⟨_, .nil hStart, .nil hStart⟩
  | gap hGap _ ih =>
      rcases ih hAll with ⟨middle, hFirst, hSecond⟩
      exact ⟨middle, .gap hGap hFirst, hSecond⟩
  | lexeme hGap hFound hRest ih =>
      cases lexemes with
      | nil =>
          rw [List.nil_append] at hAll
          subst hAll
          have hWhole := lexeme hGap hFound hRest
          exact ⟨_, .nil (Nat.le_trans hWhole.le.1 hWhole.le.2),
            hWhole⟩
      | cons first lexemes =>
          cases hAll
          rcases ih rfl with ⟨middle, hFirst, hSecond⟩
          exact ⟨middle, .lexeme hGap hFound hFirst, hSecond⟩

/- The first lexeme stands after the gaps before it. -/
theorem of_cons
    {first : Lexeme}
    (hBetween : Between text start stop (first :: lexemes)) :
    ∃ place length build,
      Between text start place [] ∧
      Gap.length (text.drop place) = none ∧
      first? (text.drop place) = some (length, build) ∧
      first = build (spanAt text place (place + length)) ∧
      Between text (place + length) stop lexemes := by
  generalize hAll : first :: lexemes = all at hBetween
  induction hBetween with
  | nil => cases hAll
  | gap hGap _ ih =>
      rcases ih hAll with ⟨place, length, build, hBefore, hFound⟩
      exact ⟨place, length, build, .gap hGap hBefore, hFound⟩
  | @lexeme place length _ build _ hGap hFound hRest =>
      cases hAll
      have hPlace : place ≤ text.length := by
        have hLe := hRest.le
        omega
      exact ⟨place, length, build, .nil hPlace, hGap, hFound, rfl,
        hRest⟩

end Between

/- The lexemes of a text from an offset on. -/
theorem between_of_ofTextFrom
    {text : List Char}
    {fuel start : Nat}
    {lexemes : List Lexeme}
    (hStart : start ≤ text.length)
    (hLexemes :
      ofTextFrom fuel (positionAt text start) (text.drop start) =
        some lexemes) :
    Between text start text.length lexemes := by
  induction fuel generalizing start lexemes with
  | zero =>
      cases hText : text.drop start with
      | nil =>
          rw [hText] at hLexemes
          cases hLexemes
          have hEnd : text.length ≤ start := List.drop_eq_nil_iff.mp hText
          rw [Nat.le_antisymm hStart hEnd]
          exact .nil (Nat.le_refl _)
      | cons c rest =>
          rw [hText] at hLexemes
          cases hLexemes
  | succ fuel ih =>
      cases hGap : Gap.length (text.drop start) with
      | some length =>
          have hLength := Gap.length_le hGap
          rw [List.length_drop] at hLength
          rw [ofTextFrom_of_gap hGap, ← positionAt_add,
            List.drop_drop] at hLexemes
          exact .gap hGap (ih (by omega) hLexemes)
      | none =>
          cases hFirst : first? (text.drop start) with
          | none =>
              cases hText : text.drop start with
              | nil =>
                  rw [hText] at hLexemes
                  cases hLexemes
                  have hEnd : text.length ≤ start :=
                    List.drop_eq_nil_iff.mp hText
                  rw [Nat.le_antisymm hStart hEnd]
                  exact .nil (Nat.le_refl _)
              | cons c rest =>
                  rw [hText] at hLexemes hGap hFirst
                  simp [ofTextFrom, hGap, hFirst] at hLexemes
          | some found =>
              rcases found with ⟨length, build⟩
              have hLength := first?_le hFirst
              rw [List.length_drop] at hLength
              rw [ofTextFrom_of_lexeme hGap hFirst, ← positionAt_add,
                List.drop_drop] at hLexemes
              rcases Option.map_eq_some_iff.mp hLexemes with
                ⟨others, hOthers, rfl⟩
              exact .lexeme hGap hFirst (ih (by omega) hOthers)

end Lexeme

------------------------------------------------------------
-- How Lexemes Are Made
------------------------------------------------------------

/- A mark that starts the attribute of a documentation comment. -/
def TokenTree.isDocMark : TokenTree → Bool
  | .mark c _ _ => c == '#' || c == '!'
  | _ => false

/-
  Trees that are read as one lexeme: a token, or the attribute
  of a documentation comment.
-/
structure Tokens.MadeAt
    (span : Span)
    (found : Tokens) : Prop where
  head :
    ∃ first tail, found = first :: tail ∧
      (∀ delimiter content span, first ≠ .group delimiter content span) ∧
      ∀ tree ∈ tail, Comment.isContinuation tree = true
  span : ∀ tree ∈ found, tree.span = span
  marks : ∀ tree ∈ found.dropLast, tree.isDocMark = true

theorem Tokens.madeAt_singleton
    {tree : TokenTree}
    (hGroup :
      ∀ delimiter content span, tree ≠ .group delimiter content span) :
    MadeAt tree.span [tree] :=
  { head := ⟨tree, [], rfl, hGroup, by simp⟩
    span := by simp
    marks := by simp }

theorem Comment.madeAt_docTokens
    (inner : Bool)
    (content : List Char)
    (span : Span) :
    Tokens.MadeAt span (docTokens inner content span) := by
  rcases docTokens_eq_cons inner content span with
    ⟨tail, hCons, hTail⟩
  refine ⟨⟨_, tail, hCons, nofun, hTail⟩, ?_, ?_⟩
  · cases inner <;> simp [docTokens, TokenTree.span]
  · cases inner <;> simp [docTokens, TokenTree.isDocMark]

/-
  The cut between two parts is not inside the attribute of a
  documentation comment.
-/
def Tokens.Apart
    (first second : Tokens) : Prop :=
  (∀ tree, first.getLast? = some tree → tree.isDocMark = false) ∨
    ∀ tree, second.head? = some tree →
      Comment.isContinuation tree = false

theorem Tokens.Apart.of_append
    (before : Tokens)
    {first second : Tokens}
    (hApart : Apart (before ++ first) second) :
    Apart first second := by
  refine hApart.imp_left fun hLast tree hTree => hLast tree ?_
  rw [List.getLast?_append, hTree]
  rfl

/- What one lexeme gives is not cut there. -/
theorem Tokens.MadeAt.not_apart
    {span : Span}
    {first second : Tokens}
    (hMade : MadeAt span (first ++ second))
    (hFirst : first ≠ [])
    (hSecond : second ≠ [])
    (rest : Tokens) :
    ¬ Apart first (second ++ rest) := by
  rcases List.exists_cons_of_ne_nil hSecond with ⟨next, more, rfl⟩
  rintro (hLast | hNext)
  · rcases Option.isSome_iff_exists.mp
        (List.getLast?_isSome.mpr hFirst) with
      ⟨last, hSome⟩
    have hMark := hMade.marks last (by
      rw [List.dropLast_append_of_ne_nil hSecond]
      exact List.mem_append_left _ (List.mem_of_getLast? hSome))
    rw [hLast last hSome] at hMark
    cases hMark
  · rcases List.exists_cons_of_ne_nil hFirst with ⟨tree, others, rfl⟩
    rcases hMade.head with ⟨head, tail, hCons, _, hTail⟩
    cases hCons
    have hContinues := hTail next (by simp)
    rw [hNext next rfl] at hContinues
    cases hContinues

namespace Lexeme

variable {lexemes : List Lexeme}
variable {text : List Char}

/- A lexeme that was read from a span. -/
def Covers
    (span : Span) : Lexeme → Prop
  | opening _ found => found = span
  | closing _ found => found = span
  | trees found => Tokens.MadeAt span found

theorem Covers.unique
    {span span' : Span}
    {lexeme : Lexeme}
    (hCovers : Covers span lexeme)
    (hCovers' : Covers span' lexeme) :
    span = span' := by
  cases lexeme with
  | opening => exact hCovers.symm.trans hCovers'
  | closing => exact hCovers.symm.trans hCovers'
  | trees found =>
      rcases hCovers.head with ⟨first, tail, rfl, _⟩
      exact (hCovers.span first List.mem_cons_self).symm.trans
        (hCovers'.span first List.mem_cons_self)

theorem covers_of_token?
    {length : Nat}
    {build : Span → TokenTree}
    (hToken : token? text = some (length, build))
    (span : Span) :
    Covers span (.trees [build span]) := by
  have hBuilt :
      (build span).span = span ∧
        ∀ delimiter content other,
          build span ≠ .group delimiter content other := by
    cases token?_eq_some_iff.mp hToken <;> exact ⟨rfl, nofun⟩
  have hMade := Tokens.madeAt_singleton hBuilt.2
  rwa [hBuilt.1] at hMade

theorem covers_of_first?
    {length : Nat}
    {build : Span → Lexeme}
    (hFirst : first? text = some (length, build))
    (span : Span) :
    Covers span (build span) := by
  cases firstAt_of_first? hFirst with
  | doc => exact Comment.madeAt_docTokens _ _ span
  | error =>
      exact @Tokens.madeAt_singleton
        (.literal (String.ofList errorLiteral) span) nofun
  | opening => rfl
  | closing => rfl
  | token hToken => exact covers_of_token? hToken span

/- Every lexeme of a reading was read from some span. -/
theorem Between.covers
    {start stop : Nat}
    (hBetween : Between text start stop lexemes) :
    ∀ lexeme ∈ lexemes, ∃ span, Covers span lexeme := by
  induction hBetween with
  | nil => exact nofun
  | gap _ _ ih => exact ih
  | lexeme _ hFirst _ ih =>
      rw [List.forall_mem_cons]
      exact ⟨⟨_, covers_of_first? hFirst _⟩, ih⟩

------------------------------------------------------------
-- Nesting
------------------------------------------------------------

/-
  Inside of groups the reading goes on up to the delimiter
  that closes the innermost one.
-/
theorem nesting_of_nestFrom
    {outer : List (Delimiter × Span × Tokens)}
    {current : Tokens}
    {trees : Tokens}
    (hNest : nestFrom outer current lexemes = some trees) :
    (outer = [] ∧ ∃ found, Nesting lexemes found ∧
        trees = current.reverse ++ found) ∨
      ∃ delimiter start before others inner content stop rest,
        outer = (delimiter, start, before) :: others ∧
          lexemes = inner ++ .closing delimiter stop :: rest ∧
          Nesting inner content ∧
          nestFrom others
              (.group delimiter (current.reverse ++ content)
                (start.join stop) :: before)
              rest =
            some trees := by
  induction hSize : lexemes.length using Nat.strong_induction_on
    generalizing outer current lexemes with
  | _ size ih =>
  cases lexemes with
  | nil =>
      unfold nestFrom at hNest
      split at hNest
      · next hOuter =>
          cases hNest
          exact Or.inl ⟨List.isEmpty_iff.mp hOuter, [], .nil, by simp⟩
      · cases hNest
  | cons lexeme lexemes =>
      rw [List.length_cons] at hSize
      cases lexeme with
      | trees found =>
          rw [nestFrom] at hNest
          rcases ih lexemes.length (by omega) hNest rfl with
            ⟨hOuter, more, hMore, rfl⟩ |
            ⟨delimiter, start, before, others, inner, content, stop, rest,
              hOuter, rfl, hInner, hRest⟩
          · exact Or.inl ⟨hOuter, found ++ more, .trees found hMore,
              by simp⟩
          · refine Or.inr ⟨delimiter, start, before, others,
              .trees found :: inner, found ++ content, stop, rest, hOuter,
              rfl, .trees found hInner, ?_⟩
            simpa using hRest
      | opening delimiter start =>
          rw [nestFrom] at hNest
          rcases ih lexemes.length (by omega) hNest rfl with
            ⟨hOuter, _⟩ |
            ⟨_, _, _, _, inner, content, stop, rest, hOuter, rfl, hInner,
              hRest⟩
          · cases hOuter
          · cases hOuter
            -- The group is closed; what follows it is shorter.
            have hShort : rest.length < size := by
              rw [List.length_append, List.length_cons] at hSize
              omega
            rcases ih rest.length hShort hRest rfl with
              ⟨hOuter, more, hMore, rfl⟩ |
              ⟨delimiter', start', before, others, inner', content', stop',
                rest', hOuter, rfl, hInner', hRest'⟩
            · refine Or.inl ⟨hOuter, _, .group hInner hMore, ?_⟩
              simp
            · refine Or.inr ⟨delimiter', start', before, others,
                .opening delimiter start ::
                  (inner ++ .closing delimiter stop :: inner'),
                _, stop', rest', hOuter, by simp, .group hInner hInner',
                ?_⟩
              simpa using hRest'
      | closing delimiter stop =>
          unfold nestFrom at hNest
          split at hNest
          · next opened start before others =>
              split at hNest
              · next hSame =>
                  subst hSame
                  refine Or.inr ⟨opened, start, before, others, [], [],
                    stop, lexemes, rfl, rfl, .nil, ?_⟩
                  rwa [List.append_nil]
              · cases hNest
          · cases hNest

theorem nesting_of_nest
    {trees : Tokens}
    (hNest : nest lexemes = some trees) :
    Nesting lexemes trees := by
  rcases nesting_of_nestFrom hNest with
    ⟨_, found, hFound, rfl⟩ | ⟨_, _, _, _, _, _, _, _, hOuter, _⟩
  · exact hFound
  · cases hOuter

namespace Nesting

variable {lexemes : List Lexeme}
variable {first second : Tokens}

theorem eq_nil
    (hCovers : ∀ lexeme ∈ lexemes, ∃ span, Covers span lexeme)
    (hNesting : Nesting lexemes []) :
    lexemes = [] := by
  generalize hTrees : ([] : Tokens) = trees at hNesting
  cases hNesting with
  | nil => rfl
  | trees found hRest =>
      rcases hCovers _ List.mem_cons_self with ⟨span, hMade⟩
      rcases hMade.head with ⟨head, tail, rfl, _⟩
      cases hTrees
  | group => cases hTrees

/-
  Lexemes are told apart where their trees are, save inside
  the attribute of a documentation comment.
-/
theorem split
    (hCovers : ∀ lexeme ∈ lexemes, ∃ span, Covers span lexeme)
    (hNesting : Nesting lexemes (first ++ second))
    (hApart : Tokens.Apart first second) :
    ∃ before after, lexemes = before ++ after ∧
      Nesting before first ∧ Nesting after second := by
  generalize hTrees : first ++ second = trees at hNesting
  induction hNesting generalizing first with
  | nil =>
      rcases List.append_eq_nil_iff.mp hTrees with ⟨rfl, rfl⟩
      exact ⟨[], [], rfl, .nil, .nil⟩
  | @trees lexemes rest found hRest ih =>
      rw [List.forall_mem_cons] at hCovers
      rcases hCovers with ⟨⟨span, hMade⟩, hCovers⟩
      cases first with
      | nil =>
          rw [List.nil_append] at hTrees
          subst hTrees
          exact ⟨[], _, rfl, .nil, .trees found hRest⟩
      | cons tree first =>
      rcases List.append_eq_append_iff.mp hTrees with
        ⟨surplus, hFound, hSecond⟩ | ⟨surplus, hFirst, hRest'⟩
      · cases surplus with
        | nil =>
            rw [List.append_nil] at hFound
            rw [List.nil_append] at hSecond
            subst hSecond
            rw [hFound]
            exact ⟨[.trees (tree :: first)], lexemes, rfl,
              by simpa using Nesting.trees (tree :: first) .nil, hRest⟩
        | cons next surplus =>
            -- A documentation comment would be taken apart here.
            rw [hFound] at hMade
            rw [hSecond] at hApart
            exact absurd hApart (hMade.not_apart
              (List.cons_ne_nil tree first)
              (List.cons_ne_nil next surplus) _)
      · rw [hFirst] at hApart
        rcases ih hCovers (hApart.of_append found) hRest'.symm with
          ⟨before, after, rfl, hBefore, hAfter⟩
        refine ⟨.trees found :: before, after, rfl, ?_, hAfter⟩
        rw [hFirst]
        exact .trees found hBefore
  | @group inner lexemes content rest delimiter start stop hContent hRest
      _ ih =>
      cases first with
      | nil =>
          rw [List.nil_append] at hTrees
          subst hTrees
          exact ⟨[], _, rfl, .nil, .group hContent hRest⟩
      | cons tree first =>
          cases hTrees
          have hOthers : ∀ lexeme ∈ lexemes, ∃ span, Covers span lexeme :=
            fun lexeme hMem => hCovers lexeme (by simp [hMem])
          rcases ih hOthers (hApart.of_append [_]) rfl with
            ⟨before, after, rfl, hBefore, hAfter⟩
          exact ⟨_, after, by simp, .group hContent hBefore, hAfter⟩

/- A group is read from its delimiters and from its content. -/
theorem of_group
    {delimiter : Delimiter}
    {content rest : Tokens}
    {span : Span}
    (hCovers : ∀ lexeme ∈ lexemes, ∃ span, Covers span lexeme)
    (hNesting : Nesting lexemes (.group delimiter content span :: rest)) :
    ∃ start inner stop others,
      lexemes =
        .opening delimiter start ::
          (inner ++ .closing delimiter stop :: others) ∧
      Nesting inner content := by
  generalize hTrees : TokenTree.group delimiter content span :: rest =
    trees at hNesting
  cases hNesting with
  | nil => cases hTrees
  | trees found hRest =>
      rcases hCovers _ List.mem_cons_self with ⟨span', hMade⟩
      rcases hMade.head with ⟨head, tail, rfl, hHead, _⟩
      cases hTrees
      exact absurd rfl (hHead delimiter content span)
  | group hContent hRest =>
      cases hTrees
      exact ⟨_, _, _, _, rfl, hContent⟩

/- The first tree starts where the first lexeme does. -/
theorem start_eq
    {tree : TokenTree}
    {rest : Tokens}
    (hCovers : ∀ lexeme ∈ lexemes, ∃ span, Covers span lexeme)
    (hNesting : Nesting lexemes (tree :: rest)) :
    ∃ lexeme others span, lexemes = lexeme :: others ∧
      Covers span lexeme ∧ tree.span.start = span.start := by
  generalize hTrees : tree :: rest = trees at hNesting
  cases hNesting with
  | nil => cases hTrees
  | trees found hRest =>
      rcases hCovers _ List.mem_cons_self with ⟨span, hMade⟩
      rcases hMade.head with ⟨head, tail, rfl, _⟩
      cases hTrees
      exact ⟨_, _, span, rfl, hMade,
        by rw [hMade.span tree List.mem_cons_self]⟩
  | group hContent hRest =>
      cases hTrees
      exact ⟨_, _, _, rfl, rfl, rfl⟩

/- The last tree stops where the last lexeme does. -/
theorem stop_eq
    {trees : Tokens}
    {tree : TokenTree}
    (hCovers : ∀ lexeme ∈ lexemes, ∃ span, Covers span lexeme)
    (hNesting : Nesting lexemes trees)
    (hLast : trees.getLast? = some tree) :
    ∃ others lexeme span, lexemes = others ++ [lexeme] ∧
      Covers span lexeme ∧ tree.span.stop = span.stop := by
  induction hNesting with
  | nil => cases hLast
  | @trees lexemes rest found hRest ih =>
      rw [List.forall_mem_cons] at hCovers
      rcases hCovers with ⟨⟨span, hMade⟩, hCovers⟩
      cases rest with
      | nil =>
          rw [hRest.eq_nil hCovers]
          rw [List.append_nil] at hLast
          exact ⟨[], _, span, rfl, hMade,
            by rw [hMade.span tree (List.mem_of_getLast? hLast)]⟩
      | cons next rest =>
          rw [List.getLast?_append, List.getLast?_cons,
            Option.some_or] at hLast
          rw [List.getLast?_cons] at ih
          rcases ih hCovers hLast with
            ⟨others, lexeme, span', rfl, hCovers', hStop⟩
          exact ⟨_ :: others, lexeme, span', rfl, hCovers', hStop⟩
  | @group inner lexemes content rest delimiter start stop hContent hRest
      _ ih =>
      have hOthers : ∀ lexeme ∈ lexemes, ∃ span, Covers span lexeme :=
        fun lexeme hMem => hCovers lexeme (by simp [hMem])
      cases rest with
      | nil =>
          rw [hRest.eq_nil hOthers]
          cases hLast
          exact ⟨.opening delimiter start :: inner, _, stop, rfl, rfl,
            rfl⟩
      | cons next rest =>
          rw [List.getLast?_cons_cons] at hLast
          rcases ih hOthers hLast with
            ⟨others, lexeme, span', rfl, hCovers', hStop⟩
          exact ⟨.opening delimiter start ::
              (inner ++ .closing delimiter stop :: others),
            lexeme, span', by simp, hCovers', hStop⟩

end Nesting

end Lexeme

------------------------------------------------------------
-- Trees
------------------------------------------------------------

namespace Tokens

open Lexeme

/- Reading a text from one offset up to another gives trees. -/
def Between
    (text : List Char)
    (start stop : Nat)
    (trees : Tokens) : Prop :=
  ∃ lexemes, Lexeme.Between text start stop lexemes ∧
    Nesting lexemes trees

/- The trees of a text without a first line that is left out. -/
theorem exists_between_of_dropInterpreterLine
    {text : List Char}
    {trees : Tokens}
    (hTrees : ofText? (dropInterpreterLine text) = some trees) :
    ∃ start, Between text start text.length trees := by
  rcases exists_start_of_dropInterpreterLine hTrees with
    ⟨start, fuel, hStart, hRead⟩
  rcases Option.bind_eq_some_iff.mp hRead with
    ⟨lexemes, hLexemes, hNest⟩
  exact ⟨start, lexemes, between_of_ofTextFrom hStart hLexemes,
    nesting_of_nest hNest⟩

namespace Between

variable {text : List Char}
variable {start middle stop : Nat}
variable {trees first second : Tokens}

theorem le
    (hBetween : Between text start stop trees) :
    start ≤ stop ∧ stop ≤ text.length := by
  rcases hBetween with ⟨lexemes, hLexemes, _⟩
  exact hLexemes.le

theorem append
    (hFirst : Between text start middle first)
    (hSecond : Between text middle stop second) :
    Between text start stop (first ++ second) := by
  rcases hFirst with ⟨lexemes, hLexemes, hNesting⟩
  rcases hSecond with ⟨lexemes', hLexemes', hNesting'⟩
  exact ⟨_, hLexemes.append hLexemes', hNesting.append hNesting'⟩

/-
  Trees are read one part after the other, save that the
  attribute of a documentation comment is read at once.
-/
theorem split
    (hBetween : Between text start stop (first ++ second))
    (hApart : Tokens.Apart first second) :
    ∃ middle, Between text start middle first ∧
      Between text middle stop second := by
  rcases hBetween with ⟨lexemes, hLexemes, hNesting⟩
  rcases hNesting.split hLexemes.covers hApart with
    ⟨before, after, rfl, hBefore, hAfter⟩
  rcases hLexemes.of_append with ⟨middle, hFirst, hSecond⟩
  exact ⟨middle, ⟨before, hFirst, hBefore⟩, after, hSecond, hAfter⟩

/- The content of a group is read inside of it. -/
theorem of_group
    {delimiter : Delimiter}
    {content rest : Tokens}
    {span : Span}
    (hBetween :
      Between text start stop (.group delimiter content span :: rest)) :
    ∃ start' stop', Between text start' stop' content := by
  rcases hBetween with ⟨lexemes, hLexemes, hNesting⟩
  rcases hNesting.of_group hLexemes.covers with
    ⟨opening, inner, closing, others, rfl, hInner⟩
  rcases hLexemes.of_cons with ⟨_, _, _, _, _, _, _, hInside⟩
  rcases hInside.of_append with ⟨stop', hContent, _⟩
  exact ⟨_, stop', inner, hContent, hInner⟩

/- Trees stand between gaps, and their span is what is left. -/
theorem tight
    (hBetween : Between text start stop trees)
    (hTrees : trees ≠ []) :
    ∃ start' stop',
      Between text start start' [] ∧
      Between text start' stop' trees ∧
      Between text stop' stop [] ∧
      span trees = spanAt text start' stop' := by
  rcases hBetween with ⟨lexemes, hLexemes, hNesting⟩
  have hCovers := hLexemes.covers
  rcases Option.isSome_iff_exists.mp
      (List.getLast?_isSome.mpr hTrees) with
    ⟨last, hLast⟩
  cases trees with
  | nil => exact absurd rfl hTrees
  | cons first rest =>
  rcases hNesting.start_eq hCovers with
    ⟨_, tail, headSpan, rfl, hHead, hStart⟩
  rcases hNesting.stop_eq hCovers hLast with
    ⟨before, final, lastSpan, hFinal, hLastCovers, hStop⟩
  rcases hLexemes.of_cons with
    ⟨start', length, build, hBefore, hGap, hFirst, rfl, hRest⟩
  have hWhole := Lexeme.Between.lexeme hGap hFirst hRest
  rw [hFinal] at hWhole
  rcases hWhole.of_append with ⟨middle, hUpTo, hEnd⟩
  rcases hEnd.of_cons with
    ⟨place, length', build', hGaps, hGap', hFirst', rfl, hAfter⟩
  have hFinalBetween :
      Lexeme.Between text place (place + length')
        [build' (spanAt text place (place + length'))] :=
    .lexeme hGap' hFirst' (.nil (Nat.le_trans hAfter.le.1 hAfter.le.2))
  have hTight := hUpTo.append (hGaps.append hFinalBetween)
  rw [List.nil_append, ← hFinal] at hTight
  refine ⟨start', place + length', ⟨[], hBefore, .nil⟩,
    ⟨_, hTight, hNesting⟩, ⟨[], hAfter, .nil⟩, ?_⟩
  rw [hHead.unique (covers_of_first? hFirst _)] at hStart
  rw [hLastCovers.unique (covers_of_first? hFirst' _)] at hStop
  simp only [span, hLast, List.head?_cons, Span.join, hStart, hStop,
    spanAt]

end Between

end Tokens

end Nullary
