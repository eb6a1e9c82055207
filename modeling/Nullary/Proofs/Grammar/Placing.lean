import Nullary.Proofs.Token.Layout

/-
  A logic of parsers that keeps the landmarks of what has
  been parsed: the attributes of items and the ends of
  records and implementations.

  `Parser.Places` says what a parser adds to the landmarks
  that have been passed before it.  A parser that adds none
  needs no proof of its own, since every parser leaves an end
  of the trees that it was given.

  Main declarations:
    * `Landmark`
    * `Landmark.At`
    * `Placed`
    * `Reached`
    * `Parser.Places`
    * `Parser.Places.bind`
    * `Parser.Places.skip`
    * `Parser.Places.within`
    * `Parser.Places.many`
-/

namespace Nullary

open SourceText

------------------------------------------------------------
-- Landmarks
------------------------------------------------------------

/- An attribute, or the end of a record or an implementation. -/
inductive Landmark where
  | tag (span : Span)
  | close (stop : Position)

/- An attribute stands between two offsets. -/
structure Attribute.IsAt
    (text : List Char)
    (start : Nat)
    (stop : Nat) : Prop where
  start_lt_stop : start < stop
  stop_le_length : stop ≤ text.length
  head :
    text[start]? = some '#' ∨ text[start]? = some '/'
  tail :
    (text[stop - 1]? = some ']' ∨ text[stop - 1]? = some '/') ∨
      OneLine text start stop ∧ EndsLine text stop

/- A landmark stands between two offsets. -/
inductive Landmark.At
    (text : List Char) : Landmark → Nat → Nat → Prop where
  | tag
      {start stop : Nat}
      (hAt : Attribute.IsAt text start stop) :
      At text (.tag (spanAt text start stop)) start stop
  | close
      {start : Nat}
      (hChar :
        text[start]? = some ';' ∨ text[start]? = some '\x7d') :
      At text (.close (positionAt text (start + 1)))
        start (start + 1)

/- A landmark that stops before another one starts. -/
def Landmark.Before
    (text : List Char)
    (first second : Landmark) : Prop :=
  ∃ start stop start' stop',
    first.At text start stop ∧ second.At text start' stop' ∧
      stop ≤ start'

/- Landmarks that stand in their order before an offset. -/
structure Placed
    (text : List Char)
    (high : Nat)
    (marks : List Landmark) : Prop where
  at_ : ∀ mark ∈ marks, ∃ start stop,
    mark.At text start stop ∧ stop ≤ high
  ordered : marks.Pairwise (Landmark.Before text)

namespace Placed

variable {text : List Char}

theorem nil
    (text : List Char)
    (high : Nat) :
    Placed text high [] :=
  ⟨by simp, List.Pairwise.nil⟩

theorem of_le
    {high high' : Nat}
    {marks : List Landmark}
    (hPlaced : Placed text high marks)
    (hHigh : high ≤ high') :
    Placed text high' marks := by
  refine ⟨?_, hPlaced.ordered⟩
  intro mark hMem
  rcases hPlaced.at_ mark hMem with ⟨start, stop, hAt, hStop⟩
  exact ⟨start, stop, hAt, by omega⟩

theorem sublist
    {high : Nat}
    {marks fewer : List Landmark}
    (hPlaced : Placed text high marks)
    (hFewer : fewer.Sublist marks) :
    Placed text high fewer :=
  ⟨fun mark hMem => hPlaced.at_ mark (hFewer.subset hMem),
    hPlaced.ordered.sublist hFewer⟩

theorem snoc
    {high start stop : Nat}
    {marks : List Landmark}
    {mark : Landmark}
    (hPlaced : Placed text high marks)
    (hStart : high ≤ start)
    (hOrder : start ≤ stop)
    (hAt : mark.At text start stop) :
    Placed text stop (marks ++ [mark]) := by
  refine ⟨?_, ?_⟩
  · intro other hMem
    rcases List.mem_append.mp hMem with hOld | hNew
    · rcases hPlaced.at_ other hOld with
        ⟨first, last, hOther, hLast⟩
      exact ⟨first, last, hOther, by omega⟩
    · cases List.mem_singleton.mp hNew
      exact ⟨start, stop, hAt, Nat.le_refl stop⟩
  · rw [List.pairwise_append]
    refine ⟨hPlaced.ordered, List.pairwise_singleton _ _, ?_⟩
    intro other hOld new hNew
    cases List.mem_singleton.mp hNew
    rcases hPlaced.at_ other hOld with
      ⟨first, last, hOther, hLast⟩
    exact ⟨first, last, start, stop, hOther, hAt, by omega⟩

end Placed

------------------------------------------------------------
-- Points of a Text
------------------------------------------------------------

/-
  A point that parsing has reached: the landmarks before it,
  and the trees that remain up to an offset.
-/
def Reached
    (text : List Char)
    (high : Nat)
    (marks : List Landmark)
    (trees : Tokens) : Prop :=
  ∃ low, Placed text low marks ∧ Remain text low high trees

namespace Reached

variable {text : List Char}
variable {high : Nat}
variable {marks : List Landmark}
variable {rest : Tokens}

/- Trees can be passed over. -/
theorem of_suffix
    {trees : Tokens}
    (hReached : Reached text high marks trees)
    (hSuffix : rest <:+ trees) :
    Reached text high marks rest := by
  rcases hReached with ⟨low, hPlaced, hRemain⟩
  rcases hRemain.of_suffix hSuffix with
    ⟨middle, hMiddle, hRest⟩
  exact ⟨middle, hPlaced.of_le hMiddle, hRest⟩

/- Landmarks can be forgotten. -/
theorem sublist
    {fewer : List Landmark}
    {trees : Tokens}
    (hReached : Reached text high marks trees)
    (hFewer : fewer.Sublist marks) :
    Reached text high fewer trees := by
  rcases hReached with ⟨low, hPlaced, hRemain⟩
  exact ⟨low, hPlaced.sublist hFewer, hRemain⟩

/- A semicolon ends a construct. -/
theorem past_semicolon
    {joint : Bool}
    {span : Span}
    (hReached :
      Reached text high marks (.mark ';' joint span :: rest)) :
    Reached text high (marks ++ [.close span.stop]) rest := by
  rcases hReached with ⟨low, hPlaced, hRemain⟩
  rcases (hRemain.laid rfl).of_mark (by decide) with
    ⟨start, hLow, rfl, hChar, hRest⟩
  exact ⟨_, hPlaced.snoc hLow (Nat.le_succ _)
    (.close (Or.inl hChar)), hRest.remain⟩

/- The content of braces is reached through them. -/
theorem content
    {content : Tokens}
    {span : Span}
    (hReached :
      Reached text high marks
        (.group .brace content span :: rest)) :
    ∃ inside,
      Reached text inside marks content ∧
      ∀ more,
        Reached text inside more [] →
        Reached text high (more ++ [.close span.stop]) rest := by
  rcases hReached with ⟨low, hPlaced, hRemain⟩
  rcases (hRemain.laid rfl).of_group with
    ⟨start, stop, hLow, rfl, hContent, hClose, hRest⟩
  refine ⟨stop, ⟨start + 1, hPlaced.of_le (by omega),
    hContent.remain⟩, ?_⟩
  rintro more ⟨last, hMore, hNothing⟩
  have hLast : last ≤ stop := hNothing.low_le_high
  exact ⟨stop + 1, hMore.snoc hLast (Nat.le_succ stop)
    (.close (Or.inr hClose)), hRest.remain⟩

/- An attribute is a landmark, whether it is a comment or not. -/
theorem past_attribute
    {joint : Bool}
    {first last : Span}
    {bang content : Tokens}
    (hBang :
      bang = [] ∨ ∃ joint span, bang = [.mark '!' joint span])
    (hReached :
      Reached text high marks
        (.mark '#' joint first ::
          (bang ++ .group .bracket content last :: rest))) :
    Reached text high
      (marks ++ [.tag (first.join last)]) rest := by
  rcases hReached with ⟨low, hPlaced, hRemain⟩
  have hLaid := hRemain.laid rfl
  cases hLaid with
  | @mark _ start _ _ _ _ hLow hChar hRest =>
      -- The sign stands by itself, and so does the group.
      have hGroup :
          ∃ open_ stop, start + 1 ≤ open_ ∧
            last = spanAt text open_ (stop + 1) ∧
            Laid text (open_ + 1) stop content ∧
            text[stop]? = some ']' ∧
            Laid text (stop + 1) high rest := by
        rcases hBang with rfl | ⟨joint', span', rfl⟩
        · exact hRest.of_group
        · rcases hRest.of_mark (by decide) with
            ⟨bangAt, hBangAt, rfl, hBangChar, hRest'⟩
          rcases hRest'.of_group with
            ⟨open_, stop, hOpen, hSpan, hParts⟩
          exact ⟨open_, stop, by omega, hSpan, hParts⟩
      rcases hGroup with
        ⟨open_, stop, hOpen, rfl, hContent, hClose, hLeft⟩
      have hInside := hContent.low_le_high
      have hStop : stop < text.length :=
        (List.getElem?_eq_some_iff.mp hClose).1
      have hAt : Attribute.IsAt text start (stop + 1) :=
        ⟨by omega, by omega, Or.inl hChar,
          Or.inl (Or.inl hClose)⟩
      exact ⟨stop + 1, hPlaced.snoc hLow (by omega)
        (.tag hAt), hLeft.remain⟩
  | @doc _ start stop _ inner content' _ rest'
      hLow hDoc hTrees hRest =>
      have hOrder := hDoc.start_lt_stop
      rcases Comment.span_of_docTokens_eq hBang hTrees with
        ⟨rfl, rfl, rfl⟩
      have hAt : Attribute.IsAt text start stop :=
        ⟨hOrder, hDoc.stop_le_length, Or.inr hDoc.head,
          hDoc.tail.imp_left Or.inr⟩
      exact ⟨stop, hPlaced.snoc hLow (Nat.le_of_lt hOrder)
        (.tag hAt), hRest.remain⟩

end Reached

------------------------------------------------------------
-- Parsers and Landmarks
------------------------------------------------------------

namespace Parser

variable {trees rest : Tokens}

/- Parsers that ran one after the other. -/
theorem run_bind_eq_some
    {α β : Type}
    {p : Parser α}
    {next : α → Parser β}
    {value : β}
    (hRun : (p >>= next).run trees = some (value, rest)) :
    ∃ found left, p.run trees = some (found, left) ∧
      (next found).run left = some (value, rest) := by
  change (Parser.bind p next).run trees = _ at hRun
  unfold Parser.bind at hRun
  dsimp only at hRun
  split at hRun
  · next found left hFound =>
      exact ⟨found, left, hFound, hRun⟩
  · cases hRun

/- A parser of all trees takes them all. -/
theorem run_of_parse?
    {α : Type}
    {p : Grammar → Parser α}
    {value : α}
    (hParse : trees.parse? p = some value) :
    (p (.forTokens trees)).run trees = some (value, []) := by
  unfold Tokens.parse? whole at hParse
  split at hParse
  · next hRun => exact Option.some.inj hParse ▸ hRun
  · cases hParse

/- A single tree that was taken. -/
theorem eq_cons_of_run_tree
    {α : Type}
    {read : TokenTree → Option α}
    {value : α}
    (hRun : (tree read).run trees = some (value, rest)) :
    ∃ first, trees = first :: rest ∧ read first = some value := by
  unfold tree at hRun
  dsimp only at hRun
  split at hRun
  · next first left =>
      rcases Option.map_eq_some_iff.mp hRun with
        ⟨found, hFound, hPair⟩
      cases hPair
      exact ⟨first, rfl, hFound⟩
  · cases hRun

/- A group that was taken, with its content. -/
theorem eq_group_of_run_within
    {α : Type}
    {delimiter : Delimiter}
    {p : Parser α}
    {value : α}
    {span : Span}
    (hRun :
      (within delimiter p).run trees =
        some ((value, span), rest)) :
    ∃ content,
      trees = .group delimiter content span :: rest ∧
      p.run content = some (value, []) := by
  rcases eq_cons_of_run_tree hRun with ⟨first, rfl, hRead⟩
  split at hRead
  · next found content span' =>
      split at hRead
      · next hSame =>
          subst hSame
          rcases Option.map_eq_some_iff.mp hRead with
            ⟨value', hWhole, hPair⟩
          cases hPair
          refine ⟨content, rfl, ?_⟩
          unfold whole at hWhole
          split at hWhole
          · next hContent =>
              cases hWhole
              exact hContent
          · cases hWhole
      · cases hRead
  · cases hRead

/- A mark of one character that was taken. -/
theorem eq_mark_of_run_mark
    {operator : String}
    {c : Char}
    (hOperator : operator.toList = [c])
    {value : Tokens}
    (hRun : (mark operator).run trees = some (value, rest)) :
    ∃ joint span, trees = .mark c joint span :: rest ∧
      value = [.mark c false span] := by
  unfold mark at hRun
  rw [hOperator] at hRun
  rcases run_bind_eq_some hRun with
    ⟨found, left, hFound, hPure⟩
  cases hPure
  rcases eq_cons_of_run_tree hFound with ⟨first, rfl, hRead⟩
  split at hRead
  · next d joint span =>
      split at hRead
      · next hSame =>
          cases hRead
          exact ⟨joint, span, by rw [hSame.1], rfl⟩
      · cases hRead
  · cases hRead

/-
  After the given landmarks a parser adds what a condition
  says about its result and the landmarks that have then been
  passed.
-/
def Places
    {α : Type}
    (text : List Char)
    (marks : List Landmark)
    (p : Parser α)
    (post : α → List Landmark → Prop) : Prop :=
  ∀ (high : Nat) (trees : Tokens) (value : α) (rest : Tokens),
    p.run trees = some (value, rest) →
    Reached text high marks trees →
    ∃ more, post value more ∧ Reached text high more rest

namespace Places

variable {α β : Type}
variable {text : List Char}
variable {marks : List Landmark}
variable {p : Parser α}
variable {post middle : α → List Landmark → Prop}

/- A parser that adds no landmarks. -/
theorem skip
    (hPost : ∀ value, post value marks) :
    Places text marks p post := by
  intro high trees value rest hRun hReached
  exact ⟨marks, hPost value,
    hReached.of_suffix (p.suffix_of_run hRun)⟩

/- What holds of more landmarks may be said of fewer. -/
theorem weaken
    {weaker : α → List Landmark → Prop}
    (hPlaces : Places text marks p post)
    (hWeaker :
      ∀ value more, post value more →
        ∃ fewer, fewer.Sublist more ∧ weaker value fewer) :
    Places text marks p weaker := by
  intro high trees value rest hRun hReached
  rcases hPlaces high trees value rest hRun hReached with
    ⟨more, hPost, hMore⟩
  rcases hWeaker value more hPost with
    ⟨fewer, hFewer, hWeak⟩
  exact ⟨fewer, hWeak, hMore.sublist hFewer⟩

/- Landmarks that no longer matter can be left out. -/
theorem of_sublist
    {fewer : List Landmark}
    (hPlaces : Places text fewer p post)
    (hFewer : fewer.Sublist marks) :
    Places text marks p post := by
  intro high trees value rest hRun hReached
  exact hPlaces high trees value rest hRun
    (hReached.sublist hFewer)

theorem pure
    {value : α}
    (hPost : post value marks) :
    Places text marks (Pure.pure value) post := by
  intro high trees found rest hRun hReached
  cases hRun
  exact ⟨marks, hPost, hReached⟩

/- Parsers one after the other. -/
theorem bind
    {next : α → Parser β}
    {post : β → List Landmark → Prop}
    (hFirst : Places text marks p middle)
    (hNext :
      ∀ value more, middle value more →
        Places text more (next value) post) :
    Places text marks (p >>= next) post := by
  intro high trees value rest hRun hReached
  rcases run_bind_eq_some hRun with
    ⟨found, left, hFound, hLeft⟩
  rcases hFirst high trees found left hFound hReached with
    ⟨more, hMiddle, hMore⟩
  exact hNext found more hMiddle high left value rest
    hLeft hMore

/- A parser that adds no landmarks before one that may. -/
theorem skip_bind
    {next : α → Parser β}
    {post : β → List Landmark → Prop}
    (hNext : ∀ value, Places text marks (next value) post) :
    Places text marks (p >>= next) post := by
  have hFirst :
      Places text marks p fun _ more => more = marks :=
    skip fun _ => rfl
  refine bind hFirst ?_
  rintro value more rfl
  exact hNext value

/- A choice between two parsers. -/
theorem branch
    {test : Parser Bool}
    {q : Parser α}
    (hThen : Places text marks p post)
    (hElse : Places text marks q post) :
    Places text marks
      (test >>= fun holds => if holds = true then p else q)
      post := by
  refine skip_bind fun holds => ?_
  cases holds with
  | false => exact hElse
  | true => exact hThen

theorem refuse
    {post : α → List Landmark → Prop} :
    Places text marks Parser.refuse post := by
  intro high trees value rest hRun hReached
  cases hRun

theorem delayed
    {p : Unit → Parser α}
    (hPlaces : Places text marks (p ()) post) :
    Places text marks (Parser.delayed p) post := by
  intro high trees value rest hRun hReached
  exact hPlaces high trees value rest hRun hReached

/- Braces whose content is parsed, with their end as a landmark. -/
theorem within_closed
    (hContent : Places text marks p middle) :
    Places text marks (Parser.within .brace p)
      fun found more =>
        ∃ inside, middle found.1 inside ∧
          more = inside ++ [.close found.2.stop] := by
  rintro high trees ⟨value, span⟩ rest hRun hReached
  rcases eq_group_of_run_within hRun with
    ⟨content, rfl, hRunContent⟩
  rcases hReached.content with ⟨inside, hInside, hOutside⟩
  rcases hContent inside content value [] hRunContent hInside
    with ⟨more, hMiddle, hMore⟩
  exact ⟨_, ⟨more, hMiddle, rfl⟩, hOutside more hMore⟩

/- Braces whose content is parsed. -/
theorem within
    (hContent : Places text marks p middle) :
    Places text marks (Parser.within .brace p)
      fun found more => middle found.1 more := by
  refine (within_closed hContent).weaken ?_
  rintro found more ⟨inside, hMiddle, rfl⟩
  exact ⟨inside, List.sublist_append_left _ _, hMiddle⟩

/- A semicolon ends a construct. -/
theorem semicolon :
    Places text marks (mark ";") fun tokens more =>
      tokens ≠ [] ∧
        more = marks ++ [.close (Tokens.span tokens).stop] := by
  intro high trees value rest hRun hReached
  rcases eq_mark_of_run_mark rfl hRun with
    ⟨joint, span, rfl, rfl⟩
  exact ⟨_, ⟨List.cons_ne_nil _ _, rfl⟩,
    hReached.past_semicolon⟩

/- A parser whose trees are kept as well. -/
theorem written
    (hPlaces : Places text marks p middle) :
    Places text marks (Parser.written p)
      fun found more => middle found.1 more := by
  refine skip_bind fun trees => bind hPlaces ?_
  intro value more hMiddle
  exact skip_bind fun rest => pure hMiddle

/- What one turn of a loop keeps, the whole loop keeps. -/
theorem loop
    {σ : Type}
    {step : σ → Parser (σ × Bool)}
    {kept : σ → List Landmark → Prop}
    (hStep :
      ∀ state more, kept state more →
        Places text more (step state)
          fun next more' => kept next.1 more')
    (fuel : Nat)
    {state : σ}
    (hKept : kept state marks) :
    Places text marks (Parser.loop step fuel state) kept := by
  induction fuel generalizing state marks with
  | zero => exact refuse
  | succ fuel ih =>
      refine bind (hStep state marks hKept) ?_
      rintro ⟨next, more⟩ marks' hNext
      dsimp only at hNext ⊢
      split
      · exact ih hNext
      · exact pure hNext

theorem iterate
    {σ : Type}
    {step : σ → Parser (σ × Bool)}
    {kept : σ → List Landmark → Prop}
    (hStep :
      ∀ state more, kept state more →
        Places text more (step state)
          fun next more' => kept next.1 more')
    {start : σ}
    (hKept : kept start marks) :
    Places text marks (Parser.iterate start step) kept :=
  skip_bind fun count => loop hStep (count + 1) hKept

/- Repetition adds the landmarks of each result in turn. -/
theorem many
    {test : Tokens → Bool}
    {landmarks : α → List Landmark}
    (hPlaces :
      ∀ marks, Places text marks p
        fun value more => more = marks ++ landmarks value) :
    Places text marks (Parser.many test p)
      fun values more =>
        more = marks ++ values.flatMap landmarks := by
  unfold Parser.many
  -- The results are held last one first.
  let kept : List α → List Landmark → Prop :=
    fun found more =>
      more = marks ++ found.reverse.flatMap landmarks
  have hStep :
      ∀ found more, kept found more →
        Places text more
          (do
            if ← sees test then
              return ((← p) :: found, true)
            else
              return (found, false))
          fun next more' => kept next.1 more' := by
    intro found more hKept
    refine skip_bind fun holds => ?_
    split
    · refine bind (hPlaces more) ?_
      rintro value more' rfl
      refine pure ?_
      simp [kept, hKept]
    · exact pure hKept
  have hStart : kept [] marks := by simp [kept]
  refine bind (iterate hStep hStart) ?_
  intro found more hKept
  exact pure hKept

end Places

end Parser

end Nullary
