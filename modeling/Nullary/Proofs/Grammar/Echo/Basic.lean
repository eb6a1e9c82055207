import Nullary.Proofs.Grammar.Reprint

/-
  The parsers of single tokens, groups and lists give back
  the tokens that they take, and so do those of attributes,
  blocks and macro calls.

  Main declarations:
    * `Parser.echoes_mark`
    * `Parser.echoes_word`
    * `Parser.EchoesAs.group`
    * `Parser.EchoesAs.many`
    * `Parser.Listed`
    * `Parser.EchoesAs.listUntil`
    * `Parser.EchoesAs.listWhile`
    * `Grammar.Echoing`
    * `Grammar.echoes_outerAttributes`
-/

namespace Nullary

open Nullary.Tokens

namespace Parser

variable {α β : Type}
variable {strict : Bool}
variable {test : Tokens → Bool}
variable {trees rest value before : Tokens}
variable {p : Parser α}
variable {next : α → Parser β}
variable {print : α → Tokens}
variable {delimiter : Delimiter}
variable {post : β → Tokens → Prop}
variable {print' : α → Tokens}
variable {operator : String}

------------------------------------------------------------
-- Tokens That Were Taken
------------------------------------------------------------

/- What has been required of what follows. -/
theorem of_run_require
    {value : Unit}
    (hRun : (Parser.require test).run trees = some (value, rest)) :
    rest = trees ∧ test trees = true := by
  rcases run_bind_eq_some hRun with ⟨holds, left, hSees, hRun⟩
  cases hSees
  split at hRun
  · next hTest =>
      cases hRun
      exact ⟨rfl, hTest⟩
  · cases hRun

/- An attempt that has succeeded. -/
theorem run_of_run_attempt
    {value : α}
    (hRun : (Parser.attempt p).run trees = some (some value, rest)) :
    p.run trees = some (value, rest) := by
  unfold Parser.attempt at hRun
  dsimp only at hRun
  split at hRun
  · next hFound =>
      cases hRun
      exact hFound
  · cases hRun

/- Two parsers, by what is known, after which both went on alike. -/
theorem run_pick_eq_some
    {condition : Prop}
    [Decidable condition]
    {q : Parser α}
    {value : β}
    (hRun :
      (if condition then p >>= next else q >>= next).run trees =
        some (value, rest)) :
    ∃ found left,
      (if condition then p else q).run trees = some (found, left) ∧
      (next found).run left = some (value, rest) := by
  split at hRun
  · next hHolds =>
      rw [if_pos hHolds]
      exact run_bind_eq_some hRun
  · next hFails =>
      rw [if_neg hFails]
      exact run_bind_eq_some hRun

theorem eq_of_run_anyWord
    {value : TokenTree}
    (hRun : anyWord.run trees = some (value, rest)) :
    ∃ text span, trees = .word text span :: rest ∧
      value = .word text span := by
  rcases eq_cons_of_run_tree hRun with ⟨first, rfl, hRead⟩
  split at hRead
  · next text span =>
      cases hRead
      exact ⟨text, span, rfl, rfl⟩
  · cases hRead

theorem eq_of_run_word
    {text : String}
    (hRun : (word text).run trees = some (value, rest)) :
    ∃ span, trees = .word text span :: rest ∧
      value = [.word text span] := by
  rcases eq_cons_of_run_tree hRun with ⟨first, rfl, hRead⟩
  split at hRead
  · next found span =>
      split at hRead
      · next hSame =>
          cases hRead
          subst hSame
          exact ⟨span, rfl, rfl⟩
      · cases hRead
  · cases hRead

/- A name is a word that is not reserved. -/
theorem eq_of_run_name
    {value : TokenTree}
    (hRun : name.run trees = some (value, rest)) :
    ∃ text span, trees = .word text span :: rest ∧
      value = .word text span ∧ text ∉ reserved := by
  rcases run_bind_eq_some hRun with ⟨_, left, hRequired, hWord⟩
  rcases of_run_require hRequired with ⟨rfl, hTest⟩
  rcases eq_of_run_anyWord hWord with ⟨text, span, rfl, rfl⟩
  exact ⟨text, span, rfl, rfl, by simpa [atName] using hTest⟩

theorem eq_of_run_markChar
    {c : Char}
    {joint : Bool}
    {value : TokenTree}
    (hRun : (markChar c joint).run trees = some (value, rest)) :
    ∃ found span, trees = .mark c found span :: rest ∧
      value = .mark c joint span := by
  rcases eq_cons_of_run_tree hRun with ⟨first, rfl, hRead⟩
  split at hRead
  · next d found span =>
      split at hRead
      · next hSame =>
          cases hRead
          exact ⟨found, span, by rw [hSame.1], rfl⟩
      · cases hRead
  · cases hRead

/- A lifetime is a quote and a word. -/
theorem eq_of_run_lifetime
    (hRun : lifetime.run trees = some (value, rest)) :
    ∃ joint quote text span,
      trees = .mark '\'' joint quote :: .word text span :: rest ∧
      value = [.mark '\'' true quote, .word text span] := by
  rcases run_bind_eq_some hRun with ⟨first, left, hQuote, hTail⟩
  rcases run_bind_eq_some hTail with ⟨second, left', hWord, hPure⟩
  cases hPure
  rcases eq_of_run_markChar hQuote with ⟨joint, quote, rfl, rfl⟩
  rcases eq_of_run_anyWord hWord with ⟨text, span, rfl, rfl⟩
  exact ⟨joint, quote, text, span, rfl, rfl⟩

------------------------------------------------------------
-- Single Tokens
------------------------------------------------------------

/- A tree that is read on its own. -/
theorem EchoesAs.tree
    {read : TokenTree → Option α}
    (hRead :
      ∀ first value after, read first = some value →
        Echo strict after [first] (print value)) :
    EchoesAs strict (Parser.tree read) print := by
  intro trees value rest hRun
  rcases eq_cons_of_run_tree hRun with ⟨first, rfl, hFirst⟩
  exact ⟨[first], rfl, hRead first value _ hFirst⟩

theorem echoes_markChar
    (c : Char)
    (joint : Bool) :
    EchoesAs strict (markChar c joint) fun tree => [tree] := by
  intro trees value rest hRun
  rcases eq_of_run_markChar hRun with ⟨found, span, rfl, rfl⟩
  exact ⟨[_], rfl, .singleton (.refl _ _) rfl rfl⟩

theorem echoes_marks
    (operator : List Char) :
    EchoesAs strict (marks operator) fun tokens => tokens := by
  refine .of_echoes ?_
  induction operator with
  | nil => exact .pure rfl
  | cons c rest ih =>
      cases rest with
      | nil =>
          unfold marks
          exact .bind (echoes_markChar c false) fun tree => .pure rfl
      | cons d others =>
          unfold marks
          refine .bind (echoes_markChar c true) fun tree => ?_
          exact .bind (.of_echoes ih) fun tokens => .pure rfl

theorem echoes_mark
    (operator : String) :
    EchoesAs strict (mark operator) fun tokens => tokens :=
  echoes_marks operator.toList

theorem echoes_anyWord :
    EchoesAs strict anyWord fun tree => [tree] := by
  intro trees value rest hRun
  rcases eq_of_run_anyWord hRun with ⟨text, span, rfl, rfl⟩
  exact ⟨[_], rfl, .singleton (.refl _ _) rfl rfl⟩

theorem echoes_word
    (text : String) :
    EchoesAs strict (word text) fun tokens => tokens := by
  intro trees value rest hRun
  rcases eq_of_run_word hRun with ⟨span, rfl, rfl⟩
  exact ⟨[_], rfl, .singleton (.refl _ _) rfl rfl⟩

theorem echoes_name :
    EchoesAs strict name fun tree => [tree] := by
  refine .of_echoes ?_
  unfold name
  exact .require (.last echoes_anyWord fun tree => rfl)

theorem echoes_lifetime :
    EchoesAs strict lifetime fun tokens => tokens := by
  refine .of_echoes ?_
  unfold lifetime
  refine .bind (echoes_markChar _ _) fun quote => ?_
  exact .bind echoes_anyWord fun word => .pure rfl

/- A construct that may be missing. -/
theorem EchoesAs.when
    {p : Parser Tokens}
    (hEchoes : EchoesAs strict p fun tokens => tokens) :
    EchoesAs strict (Parser.when test p) fun tokens => tokens := by
  refine .of_echoes ?_
  unfold Parser.when
  exact .branch (.last hEchoes fun tokens => rfl) (.pure rfl)

theorem echoes_mark?
    (operator : String) :
    EchoesAs strict (mark? operator) fun tokens => tokens :=
  .when (echoes_mark operator)

theorem echoes_word?
    (text : String) :
    EchoesAs strict (word? text) fun tokens => tokens :=
  .when (echoes_word text)

theorem echoes_lifetime? :
    EchoesAs strict lifetime? fun tokens => tokens :=
  .when echoes_lifetime

theorem echoes_plainLiteral
    (test : String → Bool) :
    EchoesAs false (plainLiteral test) fun tree => [tree] := by
  refine .tree ?_
  intro first value after hRead
  split at hRead
  · split at hRead
    · cases hRead
      exact .refl _
    · cases hRead
  · cases hRead

theorem echoes_literal :
    EchoesAs false literal fun tokens => tokens := by
  refine .of_echoes ?_
  unfold literal
  refine .branch ?_ (.branch ?_ ?_)
  · refine .bind (echoes_markChar _ _) fun minus => ?_
    exact .bind (echoes_plainLiteral _) fun number => .pure rfl
  · refine .require ?_
    exact .bind echoes_anyWord fun word => .pure rfl
  · exact .bind (echoes_plainLiteral _) fun value => .pure rfl

------------------------------------------------------------
-- Groups
------------------------------------------------------------

theorem ends_closeText
    (delimiter : Delimiter)
    (after : List String) :
    Ends (delimiter.closeText :: after) := by
  intro text hText
  cases hText
  cases delimiter <;> decide

/- A group whose content is printed. -/
theorem Echoes.within
    {known : α → Tokens → Prop}
    (hContent : Echoes false [] p known) :
    Echoes strict [] (Parser.within delimiter p) fun found printed =>
      ∃ content, known found.1 content ∧
        printed = [.group delimiter content found.2] := by
  rintro written trees ⟨value, span⟩ rest hEcho hRun
  rcases eq_group_of_run_within hRun with ⟨content, rfl, hRunContent⟩
  rcases hContent [] content value [] .nil hRunContent with
    ⟨taken, printed, rfl, hKnown, hPrinted⟩
  have hInside :
      Reprints (delimiter.closeText :: rest.texts) taken.texts
        printed.texts := by
    refine hPrinted.reprints.of_context (Or.inr ⟨?_, ?_⟩)
    · intro text hText
      rw [texts_nil] at hText
      cases hText
    · exact ends_closeText delimiter _
  have hClosed :
      Reprints rest.texts (taken.texts ++ [delimiter.closeText])
        (printed.texts ++ [delimiter.closeText]) :=
    .append hInside (.same _ _)
  have hGroup :
      Echo strict rest.texts [.group delimiter taken span]
        [.group delimiter printed span] := by
    refine .singleton ?_ rfl rfl
    rw [TokenTree.texts_group, TokenTree.texts_group]
    exact .append (.same _ delimiter.openText) hClosed
  rw [List.append_nil]
  refine ⟨[.group delimiter taken span], [] ++ _, rfl,
    ⟨printed, hKnown, rfl⟩, ?_⟩
  rw [List.append_nil] at hEcho
  exact hEcho.follow hGroup

theorem EchoesAs.within
    (hContent : EchoesAs false p print) :
    EchoesAs strict (Parser.within delimiter p) fun found =>
      [.group delimiter (print found.1) found.2] := by
  have hEchoes :
      Echoes false [] p fun value printed => printed = print value :=
    .last hContent fun _ => rfl
  refine .of_echoes (hEchoes.within.weaken ?_)
  rintro found _ ⟨_, rfl, rfl⟩
  rfl

theorem EchoesAs.group
    {p : Parser Tokens}
    (hContent : EchoesAs false p fun tokens => tokens) :
    EchoesAs strict (Parser.group delimiter p) fun tokens => tokens := by
  refine .of_echoes ?_
  unfold Parser.group
  refine .bind (.within hContent) ?_
  rintro ⟨content, span⟩
  exact .pure rfl

theorem echoes_anyGroup :
    EchoesAs strict anyGroup fun tree => [tree] := by
  refine .tree ?_
  intro first value after hRead
  split at hRead
  · cases hRead
    exact .singleton (.refl _ _) rfl rfl
  · cases hRead

------------------------------------------------------------
-- Results
------------------------------------------------------------

/- A result that is printed as before. -/
theorem EchoesAs.map
    {f : α → β}
    {print' : β → Tokens}
    (hEchoes : EchoesAs strict p print)
    (hPrint : ∀ value, print' (f value) = print value) :
    EchoesAs strict (f <$> p) print' := by
  refine .of_echoes ?_
  change Echoes strict [] (p >>= fun value => pure (f value)) _
  exact .bind hEchoes fun value => .pure (hPrint value).symm

/- Another way to print the results. -/
theorem EchoesAs.congr
    (hEchoes : EchoesAs strict p print)
    (hPrint :
      ∀ trees value rest, p.run trees = some (value, rest) →
        print value = print' value) :
    EchoesAs strict p print' := by
  intro trees value rest hRun
  rw [← hPrint trees value rest hRun]
  exact hEchoes trees value rest hRun

/- Two ways to print the results, by a choice. -/
theorem EchoesAs.either
    (hThen : EchoesAs strict p print)
    (hElse : EchoesAs strict p print')
    (test : α → Bool) :
    EchoesAs strict p fun value =>
      if test value then print value else print' value := by
  intro trees value rest hRun
  dsimp only
  split
  · exact hThen trees value rest hRun
  · exact hElse trees value rest hRun

/- A result that may be missing. -/
theorem EchoesAs.attempt
    (hEchoes : EchoesAs strict p print) :
    EchoesAs strict (Parser.attempt p) fun found =>
      found.elim [] print := by
  intro trees value rest hRun
  unfold Parser.attempt at hRun
  dsimp only at hRun
  split at hRun
  · next found left hFound =>
      cases hRun
      exact hEchoes trees found rest hFound
  · cases hRun
    exact ⟨[], rfl, .nil⟩

theorem EchoesAs.toEnd
    (hEchoes : EchoesAs strict p print) :
    EchoesAs strict (Parser.toEnd p) print := by
  refine .of_echoes ?_
  unfold Parser.toEnd
  exact .bind hEchoes fun value => .require (.pure rfl)

/- The trees that a parser has taken. -/
theorem run_written_eq_some
    {taken : Tokens}
    {value : α}
    (hRun : (Parser.written p).run trees = some ((value, taken), rest)) :
    p.run trees = some (value, rest) ∧ trees = taken ++ rest := by
  unfold Parser.written at hRun
  rcases run_bind_eq_some hRun with ⟨found, left, hFound, hRun⟩
  cases hFound
  rcases run_bind_eq_some hRun with ⟨found, left, hFound, hRun⟩
  rcases run_bind_eq_some hRun with ⟨count, left', hCount, hRun⟩
  cases hCount
  cases hRun
  rcases p.suffix_of_run hFound with ⟨before, rfl⟩
  refine ⟨hFound, ?_⟩
  simp

/- Trees that are kept as written are printed as they are. -/
theorem EchoesAs.written
    (hEchoes : EchoesAs strict p print) :
    EchoesAs strict (Parser.written p) Prod.snd := by
  rintro trees ⟨value, taken⟩ rest hRun
  rcases run_written_eq_some hRun with ⟨hValue, hTrees⟩
  rcases hEchoes trees value rest hValue with ⟨taken', hTrees', hEcho⟩
  cases List.append_cancel_right (hTrees.symm.trans hTrees')
  refine ⟨taken, hTrees, .refl _ _, fun hStrict => ⟨rfl, ?_⟩⟩
  exact (hEcho.sameEnd hStrict).isLiteral

theorem EchoesAs.written_fst
    (hEchoes : EchoesAs strict p print) :
    EchoesAs strict (Parser.written p) fun found => print found.1 := by
  rintro trees ⟨value, taken⟩ rest hRun
  exact hEchoes trees value rest (run_written_eq_some hRun).1

/- Trees that are kept as they were echo in the loose sense. -/
theorem echoes_verbatim
    (p : Parser α) :
    EchoesAs false (Parser.verbatim p) fun tokens => tokens := by
  intro trees value rest hRun
  change (Parser.written p >>= fun found => pure found.2).run trees =
    some (value, rest) at hRun
  rcases run_bind_eq_some hRun with
    ⟨⟨found, taken⟩, left, hFound, hPure⟩
  cases hPure
  rcases run_written_eq_some hFound with ⟨_, hTrees⟩
  exact ⟨taken, hTrees, .refl _⟩

------------------------------------------------------------
-- Repetition
------------------------------------------------------------

theorem EchoesAs.many
    (hEchoes : EchoesAs strict p print) :
    EchoesAs strict (Parser.many test p) fun values =>
      values.flatMap print := by
  refine .of_echoes ?_
  unfold Parser.many
  -- The results are held last one first.
  have hLoop :
      EchoesAs strict
        (Parser.iterate [] fun found => do
          if ← sees test then
            return ((← p) :: found, true)
          else
            return (found, false))
        fun found => found.reverse.flatMap print := by
    refine .of_echoes (.iterate ?_ rfl)
    rintro found _ rfl
    refine .branch ?_ (.pure rfl)
    exact .bind hEchoes fun value => .pure (by simp)
  exact .bind hLoop fun found => .pure rfl

theorem EchoesAs.manyToEnd
    (hEchoes : EchoesAs strict p print) :
    EchoesAs strict (Parser.manyToEnd p) fun values =>
      values.flatMap print :=
  .many hEchoes

/- What one turn of a loop keeps of its state, the whole loop keeps. -/
theorem of_run_loop
    {σ : Type}
    {step : σ → Parser (σ × Bool)}
    {kept : σ → Prop}
    (hStep :
      ∀ state trees next rest, kept state →
        (step state).run trees = some (next, rest) → kept next.1)
    {fuel : Nat}
    {start : σ}
    (hStart : kept start)
    {state : σ}
    (hRun : (Parser.loop step fuel start).run trees = some (state, rest)) :
    kept state := by
  induction fuel generalizing start trees with
  | zero => cases hRun
  | succ fuel ih =>
      rcases run_bind_eq_some hRun with
        ⟨⟨next, more⟩, left, hNext, hLoop⟩
      have hKept := hStep start trees _ left hStart hNext
      dsimp only at hLoop
      split at hLoop
      · exact ih hKept hLoop
      · cases hLoop
        exact hKept

theorem of_run_iterate
    {σ : Type}
    {step : σ → Parser (σ × Bool)}
    {kept : σ → Prop}
    (hStep :
      ∀ state trees next rest, kept state →
        (step state).run trees = some (next, rest) → kept next.1)
    {start : σ}
    (hStart : kept start)
    {state : σ}
    (hRun : (Parser.iterate start step).run trees = some (state, rest)) :
    kept state := by
  rcases run_bind_eq_some hRun with ⟨count, left, _, hLoop⟩
  exact of_run_loop hStep hStart hLoop

/- Each of repeated results is read from an end of the trees. -/
theorem exists_run_of_run_many
    {values : List α}
    (hRun : (many test p).run trees = some (values, rest))
    {value : α}
    (hValue : value ∈ values) :
    ∃ left left', left <:+ trees ∧ p.run left = some (value, left') := by
  rcases run_bind_eq_some hRun with ⟨found, _, hFound, hPure⟩
  cases hPure
  rw [List.mem_reverse] at hValue
  rcases run_bind_eq_some hFound with ⟨count, _, hCount, hLoop⟩
  cases hCount
  clear hRun hFound
  generalize List.length trees + 1 = fuel at hLoop
  suffices hAll :
      value ∈ ([] : List α) ∨
        ∃ left left', left <:+ trees ∧
          p.run left = some (value, left') by
    simpa using hAll
  generalize ([] : List α) = before at hLoop ⊢
  induction fuel generalizing before trees with
  | zero => cases hLoop
  | succ fuel ih =>
      rcases run_bind_eq_some hLoop with
        ⟨⟨next, goesOn⟩, left, hStep, hLoop⟩
      rcases run_bind_eq_some hStep with ⟨_, _, hSees, hStep⟩
      cases hSees
      split at hStep
      · rcases run_bind_eq_some hStep with ⟨first, _, hFirst, hPure⟩
        cases hPure
        rcases ih _ hLoop with hMem | ⟨place, left', hSuffix, hPlace⟩
        · rcases List.mem_cons.mp hMem with rfl | hBefore
          · exact Or.inr ⟨_, _, List.suffix_refl _, hFirst⟩
          · exact Or.inl hBefore
        · exact Or.inr ⟨place, left',
            hSuffix.trans (p.suffix_of_run hFirst), hPlace⟩
      · cases hStep
        cases hLoop
        exact Or.inl hValue

/-
  Values with a separator after each of them save possibly
  the last one, up to a stop.  A last value without one
  stands where the list ends.
-/
inductive Listed
    (stop ends : Tokens → Bool)
    (separator : String)
    (p : Parser α) : Tokens → List (α × Tokens) → Tokens → Prop where
  | done
      {rest : Tokens}
      (hStop : stop rest = true) :
      Listed stop ends separator p rest [] rest
  | last
      {trees rest : Tokens}
      {value : α}
      (hValue : p.run trees = some (value, rest))
      (hEnds : ends rest = true) :
      Listed stop ends separator p trees [(value, [])] rest
  | more
      {trees middle left rest comma : Tokens}
      {value : α}
      {values : List (α × Tokens)}
      (hValue : p.run trees = some (value, middle))
      (hComma : (mark separator).run middle = some (comma, left))
      (hRest : Listed stop ends separator p left values rest) :
      Listed stop ends separator p trees ((value, comma) :: values) rest

/- What one turn of such a list adds to what has been found. -/
inductive ListTurn
    (stop ends : Tokens → Bool)
    (separator : String)
    (p : Parser α)
    (found : List (α × Tokens))
    (trees : Tokens) : List (α × Tokens) × Bool → Tokens → Prop where
  | done
      (hStop : stop trees = true) :
      ListTurn stop ends separator p found trees (found, false) trees
  | last
      {rest : Tokens}
      {value : α}
      (hValue : p.run trees = some (value, rest))
      (hEnds : ends rest = true) :
      ListTurn stop ends separator p found trees
        ((value, []) :: found, false) rest
  | more
      {middle rest comma : Tokens}
      {value : α}
      (hValue : p.run trees = some (value, middle))
      (hComma : (mark separator).run middle = some (comma, rest)) :
      ListTurn stop ends separator p found trees
        ((value, comma) :: found, true) rest

section

variable {stop ends : Tokens → Bool}
variable {separator : String}
variable {p : Parser α}
variable {trees rest : Tokens}
variable {values : List (α × Tokens)}

theorem listed_of_run_iterate
    {step : List (α × Tokens) → Parser (List (α × Tokens) × Bool)}
    (hTurn :
      ∀ found trees next rest,
        (step found).run trees = some (next, rest) →
          ListTurn stop ends separator p found trees next rest)
    {found : List (α × Tokens)}
    (hRun : (Parser.iterate [] step).run trees = some (found, rest)) :
    Listed stop ends separator p trees found.reverse rest := by
  rcases run_bind_eq_some hRun with ⟨count, _, hCount, hLoop⟩
  cases hCount
  clear hRun
  generalize List.length trees + 1 = fuel at hLoop
  -- What is found is put before what has been found already.
  suffices hAll :
      ∃ values, found = values.reverse ++ [] ∧
        Listed stop ends separator p trees values rest by
    rcases hAll with ⟨values, rfl, hListed⟩
    simpa using hListed
  generalize ([] : List (α × Tokens)) = before at hLoop ⊢
  induction fuel generalizing before trees with
  | zero => cases hLoop
  | succ fuel ih =>
      rcases run_bind_eq_some hLoop with ⟨next, left, hStep, hLoop⟩
      cases hTurn _ _ _ _ hStep with
      | done hStop =>
          cases hLoop
          exact ⟨[], rfl, .done hStop⟩
      | last hValue hEnds =>
          cases hLoop
          exact ⟨[_], rfl, .last hValue hEnds⟩
      | more hValue hComma =>
          rcases ih _ hLoop with ⟨values, rfl, hListed⟩
          exact ⟨_ :: values, by simp, .more hValue hComma hListed⟩

theorem listed_of_run_listUntil
    (hRun :
      (Parser.listUntil stop separator p).run trees =
        some (values, rest)) :
    Listed stop stop separator p trees values rest := by
  rcases run_bind_eq_some hRun with ⟨found, _, hFound, hPure⟩
  cases hPure
  refine listed_of_run_iterate ?_ hFound
  intro found trees next rest hNext
  rcases run_bind_eq_some hNext with ⟨_, _, hSees, hNext⟩
  cases hSees
  split at hNext
  · next hStop =>
      cases hNext
      exact .done hStop
  · rcases run_bind_eq_some hNext with ⟨value, _, hValue, hNext⟩
    rcases run_bind_eq_some hNext with ⟨_, _, hSees, hNext⟩
    cases hSees
    split at hNext
    · next hStop =>
        cases hNext
        exact .last hValue hStop
    · rcases run_bind_eq_some hNext with ⟨comma, _, hComma, hNext⟩
      cases hNext
      exact .more hValue hComma

theorem listed_of_run_listWhile
    (hRun :
      (Parser.listWhile stop separator p).run trees =
        some (values, rest)) :
    Listed stop (!·.atMark separator) separator p trees values rest := by
  rcases run_bind_eq_some hRun with ⟨found, _, hFound, hPure⟩
  cases hPure
  refine listed_of_run_iterate ?_ hFound
  intro found trees next rest hNext
  rcases run_bind_eq_some hNext with ⟨_, _, hSees, hNext⟩
  cases hSees
  split at hNext
  · next hStop =>
      cases hNext
      exact .done hStop
  · rcases run_bind_eq_some hNext with ⟨value, _, hValue, hNext⟩
    rcases run_bind_eq_some hNext with ⟨_, _, hSees, hNext⟩
    cases hSees
    split at hNext
    · rcases run_bind_eq_some hNext with ⟨comma, _, hComma, hNext⟩
      cases hNext
      exact .more hValue hComma
    · next hEnds =>
        cases hNext
        exact .last hValue (by simpa using hEnds)

/- In a list every value is as one that was parsed. -/
theorem Listed.forall_kept
    {kept : α → Prop}
    (hKept :
      ∀ trees value rest, p.run trees = some (value, rest) → kept value)
    (hListed : Listed stop ends separator p trees values rest) :
    ∀ value ∈ values, kept value.1 := by
  induction hListed with
  | done hStop => simp
  | last hValue hEnds => simpa using hKept _ _ _ hValue
  | more hValue hComma hRest ih =>
      exact List.forall_mem_cons.mpr ⟨hKept _ _ _ hValue, ih⟩

/- Every separator is missing or the given mark. -/
theorem Listed.forall_separator
    {c : Char}
    (hSeparator : separator.toList = [c])
    (hListed : Listed stop ends separator p trees values rest) :
    ∀ value ∈ values,
      value.2 = [] ∨ ∃ span, value.2 = [.mark c false span] := by
  induction hListed with
  | done hStop => simp
  | last hValue hEnds => simp
  | more hValue hComma hRest ih =>
      rcases eq_mark_of_run_mark hSeparator hComma with ⟨_, span, _, rfl⟩
      exact List.forall_mem_cons.mpr ⟨Or.inr ⟨span, rfl⟩, ih⟩

/- A list without values takes nothing and stands before its stop. -/
theorem Listed.of_nil
    (hListed : Listed stop ends separator p trees [] rest) :
    rest = trees ∧ stop trees = true := by
  cases hListed with
  | done hStop => exact ⟨rfl, hStop⟩

theorem Listed.echo
    (hEchoes : EchoesAs strict p print)
    (hListed : Listed stop ends separator p trees values rest) :
    ∃ taken, trees = taken ++ rest ∧
      Echo strict rest.texts taken
        (values.flatMap fun value => print value.1 ++ value.2) := by
  induction hListed with
  | done hStop => exact ⟨[], rfl, .nil⟩
  | last hValue hEnds => simpa using hEchoes _ _ _ hValue
  | more hValue hComma hRest ih =>
      rcases hEchoes _ _ _ hValue with ⟨taken, rfl, hTaken⟩
      rcases echoes_mark separator _ _ _ hComma with
        ⟨between, rfl, hBetween⟩
      rcases ih with ⟨others, rfl, hOthers⟩
      exact ⟨taken ++ between ++ others, by simp,
        (hTaken.follow hBetween).follow hOthers⟩

theorem EchoesAs.listUntil
    (hEchoes : EchoesAs strict p print) :
    EchoesAs strict (Parser.listUntil stop separator p) fun values =>
      values.flatMap fun value => print value.1 ++ value.2 :=
  fun _ _ _ hRun => (listed_of_run_listUntil hRun).echo hEchoes

theorem EchoesAs.listWhile
    (hEchoes : EchoesAs strict p print) :
    EchoesAs strict (Parser.listWhile stop separator p) fun values =>
      values.flatMap fun value => print value.1 ++ value.2 :=
  fun _ _ _ hRun => (listed_of_run_listWhile hRun).echo hEchoes

end

/- Values of which only the tokens are kept. -/
theorem EchoesAs.flatten
    {p : Parser (List (Tokens × Tokens))}
    (hEchoes :
      EchoesAs strict p fun values =>
        values.flatMap fun value => value.1 ++ value.2) :
    EchoesAs strict (Parser.flatten <$> p) fun tokens => tokens :=
  .map hEchoes fun _ => rfl

theorem EchoesAs.commaList
    {p : Parser Tokens}
    (hEchoes : EchoesAs strict p fun tokens => tokens) :
    EchoesAs strict (Parser.commaList p) fun tokens => tokens :=
  .flatten (.listUntil hEchoes)

/- Trees that are printed in the strict sense, and at least one. -/
structure EchoesSolid
    (p : Parser α)
    (print : α → Tokens) : Prop where
  echoes : EchoesAs true p print
  ne_nil :
    ∀ trees value rest, p.run trees = some (value, rest) →
      print value ≠ []

theorem EchoesSolid.of_echoes
    (hEchoes :
      Echoes true [] p fun value printed =>
        printed = print value ∧ print value ≠ []) :
    EchoesSolid p print := by
  refine ⟨.of_echoes (hEchoes.weaken fun _ _ hPost => hPost.1), ?_⟩
  intro trees value rest hRun
  rcases hEchoes [] trees value rest .nil hRun with
    ⟨_, _, _, hPost, _⟩
  exact hPost.2

theorem EchoesSolid.refuse :
    EchoesSolid (Parser.refuse : Parser α) print :=
  ⟨.refuse, fun _ _ _ hRun => by cases hRun⟩

theorem EchoesSolid.map
    {f : α → β}
    {print' : β → Tokens}
    (hSolid : EchoesSolid p print)
    (hPrint : ∀ value, print' (f value) = print value) :
    EchoesSolid (f <$> p) print' := by
  refine ⟨.map hSolid.echoes hPrint, ?_⟩
  intro trees value rest hRun
  change (p >>= fun value => pure (f value)).run trees = _ at hRun
  rcases run_bind_eq_some hRun with ⟨found, left, hFound, hPure⟩
  cases hPure
  rw [hPrint]
  exact hSolid.ne_nil trees found rest hFound

theorem EchoesSolid.either
    (hThen : EchoesSolid p print)
    (hElse : EchoesSolid p print')
    (test : α → Bool) :
    EchoesSolid p fun value =>
      if test value then print value else print' value := by
  refine ⟨.either hThen.echoes hElse.echoes test, ?_⟩
  intro trees value rest hRun
  split
  · exact hThen.ne_nil trees value rest hRun
  · exact hElse.ne_nil trees value rest hRun

theorem EchoesSolid.written
    (hSolid : EchoesSolid p print) :
    EchoesSolid (Parser.written p) Prod.snd := by
  refine ⟨.written hSolid.echoes, ?_⟩
  rintro trees ⟨value, taken⟩ rest hRun hNil
  rcases run_written_eq_some hRun with ⟨hValue, hTrees⟩
  rcases hSolid.echoes trees value rest hValue with
    ⟨taken', hTrees', hEcho⟩
  cases List.append_cancel_right (hTrees.symm.trans hTrees')
  exact hSolid.ne_nil trees value rest hValue
    ((hEcho.sameEnd rfl).eq_nil_iff.mp hNil)

/- It is enough that what is taken ends, and not in a literal. -/
theorem EchoesSolid.verbatim
    (hTaken :
      ∀ taken value rest, p.run (taken ++ rest) = some (value, rest) →
        ∃ tree, taken.getLast? = some tree ∧ tree.isLiteral = false) :
    EchoesSolid (Parser.verbatim p) fun tokens => tokens := by
  have hVerbatim :
      ∀ trees value rest,
        (Parser.verbatim p).run trees = some (value, rest) →
        trees = value ++ rest ∧
          ∃ tree, value.getLast? = some tree ∧ tree.isLiteral = false := by
    intro trees value rest hRun
    change (Parser.written p >>= fun found => pure found.2).run trees =
      some (value, rest) at hRun
    rcases run_bind_eq_some hRun with
      ⟨⟨found, taken⟩, left, hFound, hPure⟩
    cases hPure
    rcases run_written_eq_some hFound with ⟨hValue, rfl⟩
    exact ⟨rfl, hTaken _ found rest hValue⟩
  refine ⟨fun trees value rest hRun => ?_, fun trees value rest hRun => ?_⟩
  · rcases hVerbatim trees value rest hRun with
      ⟨hTrees, tree, hLast, hLiteral⟩
    refine ⟨value, hTrees, .refl _ _, fun _ => ⟨rfl, ?_⟩⟩
    intro tree' hLast'
    cases hLast.symm.trans hLast'
    exact hLiteral
  · rcases hVerbatim trees value rest hRun with ⟨_, tree, hLast, _⟩
    rintro rfl
    cases hLast

theorem EchoesSolid.group
    {p : Parser Tokens}
    (hContent : EchoesAs false p fun tokens => tokens) :
    EchoesSolid (Parser.group delimiter p) fun tokens => tokens := by
  refine .of_echoes ?_
  unfold Parser.group
  refine .bind (.within hContent) ?_
  rintro ⟨content, span⟩
  exact .pure ⟨rfl, List.cons_ne_nil _ _⟩

theorem EchoesSolid.written_fst
    (hSolid : EchoesSolid p print) :
    EchoesSolid (Parser.written p) fun found => print found.1 := by
  refine ⟨.written_fst hSolid.echoes, ?_⟩
  rintro trees ⟨value, taken⟩ rest hRun
  exact hSolid.ne_nil trees value rest (run_written_eq_some hRun).1

/- A parser that takes at least one tree before another one. -/
theorem Echoes.bind_solid
    (hFirst : EchoesSolid p print)
    (hNext :
      ∀ value, print value ≠ [] →
        Echoes strict (before ++ print value) (next value) post) :
    Echoes strict before (p >>= next) post :=
  .bind_of_run hFirst.echoes.of_strict fun value trees rest hRun =>
    hNext value (hFirst.ne_nil trees value rest hRun)

/- A parser that takes at least one tree and is the last one. -/
theorem Echoes.last_solid
    {post : α → Tokens → Prop}
    (hLast : EchoesSolid p print)
    (hPost :
      ∀ value, print value ≠ [] → post value (before ++ print value)) :
    Echoes strict before p post := by
  intro written trees value rest hEcho hRun
  rcases hLast.echoes trees value rest hRun with ⟨taken, rfl, hTaken⟩
  rw [texts_append] at hEcho
  have hSolid := hLast.ne_nil _ value rest hRun
  exact ⟨taken, _, rfl, hPost value hSolid,
    hEcho.append hTaken.of_strict⟩

/-
  After trees that are printed in the loose sense only, a
  parser takes trees so that all of them are printed in the
  strict sense.
-/
def Closes
    (before : Tokens)
    (p : Parser α)
    (post : α → Tokens → Prop) : Prop :=
  ∀ (written trees : Tokens) (value : α) (rest : Tokens),
    Echo false trees.texts written before →
    p.run trees = some (value, rest) →
    ∃ taken printed, trees = taken ++ rest ∧ post value printed ∧
      Echo true rest.texts (written ++ taken) printed

/- What may be loose before a construct is closed. -/
theorem Closes.bind
    (hFirst : EchoesAs false p print)
    (hNext : ∀ value, Closes (before ++ print value) (next value) post) :
    Closes before (p >>= next) post := by
  intro written trees value rest hEcho hRun
  rcases run_bind_eq_some hRun with ⟨found, left, hFound, hLeft⟩
  rcases hFirst trees found left hFound with ⟨taken, rfl, hTaken⟩
  rw [texts_append] at hEcho
  rcases hNext found (written ++ taken) left value rest
      (hEcho.append hTaken) hLeft with
    ⟨more, printed, rfl, hPost, hMore⟩
  refine ⟨taken ++ more, printed, by rw [List.append_assoc], hPost, ?_⟩
  rw [← List.append_assoc]
  exact hMore

/- What closes a construct. -/
theorem Closes.close
    (hFirst : EchoesSolid p print)
    (hNext :
      ∀ value, print value ≠ [] →
        Echoes true (before ++ print value) (next value) post) :
    Closes before (p >>= next) post := by
  intro written trees value rest hEcho hRun
  rcases run_bind_eq_some hRun with ⟨found, left, hFound, hLeft⟩
  rcases hFirst.echoes trees found left hFound with
    ⟨taken, rfl, hTaken⟩
  rw [texts_append] at hEcho
  have hSolid := hFirst.ne_nil _ found left hFound
  rcases hNext found hSolid (written ++ taken) left value rest
      (hEcho.close hTaken hSolid) hLeft with
    ⟨more, printed, rfl, hPost, hMore⟩
  refine ⟨taken ++ more, printed, by rw [List.append_assoc], hPost, ?_⟩
  rw [← List.append_assoc]
  exact hMore

theorem Closes.echoes
    {post : α → Tokens → Prop}
    (hCloses : Closes before p post) :
    Echoes true before p post :=
  fun written trees value rest hEcho hRun =>
    hCloses written trees value rest hEcho.loose hRun

theorem solid_mark
    (hOperator : operator.toList ≠ []) :
    EchoesSolid (mark operator) fun tokens => tokens := by
  refine ⟨echoes_mark operator, ?_⟩
  intro trees value rest hRun
  unfold mark at hRun
  cases hChars : operator.toList with
  | nil => exact absurd hChars hOperator
  | cons c chars =>
      rw [hChars] at hRun
      cases chars with
      | nil =>
          rcases run_bind_eq_some hRun with ⟨_, _, _, hPure⟩
          cases hPure
          exact List.cons_ne_nil _ _
      | cons d others =>
          rcases run_bind_eq_some hRun with ⟨_, _, _, hRun⟩
          rcases run_bind_eq_some hRun with ⟨_, _, _, hPure⟩
          cases hPure
          exact List.cons_ne_nil _ _

/- The texts of an operator, as written and as printed. -/
theorem texts_taken_of_run_mark
    (hRun : (mark operator).run trees = some (value, rest)) :
    ∃ taken, trees = taken ++ rest ∧
      taken.texts = operator.toList.map (·.toString) ∧
      value.texts = operator.toList.map (·.toString) := by
  unfold mark at hRun
  generalize operator.toList = chars at hRun ⊢
  induction chars generalizing trees value with
  | nil =>
      cases hRun
      exact ⟨[], rfl, texts_nil, texts_nil⟩
  | cons c others ih =>
      cases others with
      | nil =>
          rcases run_bind_eq_some hRun with ⟨tree, _, hTree, hPure⟩
          cases hPure
          rcases eq_of_run_markChar hTree with ⟨joint, span, rfl, rfl⟩
          exact ⟨[_], rfl, by simp, by simp⟩
      | cons d others =>
          rcases run_bind_eq_some hRun with ⟨tree, _, hTree, hTail⟩
          rcases run_bind_eq_some hTail with ⟨more, _, hMore, hPure⟩
          cases hPure
          rcases eq_of_run_markChar hTree with ⟨joint, span, rfl, rfl⟩
          rcases ih hMore with ⟨taken, rfl, hTaken, hPrinted⟩
          exact ⟨.mark c joint span :: taken, rfl, by simp [hTaken],
            by simp [hPrinted]⟩

theorem texts_of_run_mark
    (hRun : (mark operator).run trees = some (value, rest)) :
    value.texts = operator.toList.map (·.toString) := by
  rcases texts_taken_of_run_mark hRun with ⟨_, _, _, hPrinted⟩
  exact hPrinted

/- A lifetime has a quote. -/
theorem quote_mem_of_run_lifetime
    (hRun : lifetime.run trees = some (value, rest)) :
    "'" ∈ value.texts := by
  rcases eq_of_run_lifetime hRun with ⟨_, _, _, _, _, rfl⟩
  rw [texts_cons, TokenTree.texts_mark]
  exact List.mem_append_left _ (List.mem_singleton.mpr rfl)

/- A group that is printed. -/
theorem eq_group_of_run_group
    {p : Parser Tokens}
    (hRun : (group delimiter p).run trees = some (value, rest)) :
    ∃ content span, value = [.group delimiter content span] := by
  rcases run_bind_eq_some hRun with ⟨⟨content, span⟩, _, _, hPure⟩
  cases hPure
  exact ⟨content, span, rfl⟩

theorem solid_word
    (text : String) :
    EchoesSolid (word text) fun tokens => tokens := by
  refine ⟨echoes_word text, ?_⟩
  intro trees value rest hRun
  rcases eq_of_run_word hRun with ⟨span, _, rfl⟩
  exact List.cons_ne_nil _ _

theorem solid_lifetime :
    EchoesSolid lifetime fun tokens => tokens := by
  refine .of_echoes ?_
  unfold lifetime
  refine .bind (echoes_markChar _ _) fun quote => ?_
  refine .bind echoes_anyWord fun word => .pure ⟨rfl, ?_⟩
  exact List.cons_ne_nil _ _

/- A result that is printed where there is one. -/
def EchoesSome
    (strict : Bool)
    (p : Parser (Option α))
    (print : α → Tokens) : Prop :=
  ∀ (trees : Tokens) (value : α) (rest : Tokens),
    p.run trees = some (some value, rest) →
    ∃ taken, trees = taken ++ rest ∧
      Echo strict rest.texts taken (print value)

theorem EchoesSome.of_echoes
    {p : Parser (Option α)}
    (hEchoes :
      Echoes strict [] p fun found printed =>
        ∀ value, found = some value → printed = print value) :
    EchoesSome strict p print := by
  intro trees value rest hRun
  rcases hEchoes [] trees (some value) rest .nil hRun with
    ⟨taken, printed, hTrees, hPrinted, hEcho⟩
  rw [hPrinted value rfl] at hEcho
  exact ⟨taken, hTrees, hEcho⟩

theorem EchoesSome.refuse :
    EchoesSome strict (Parser.refuse : Parser (Option α)) print :=
  fun _ _ _ hRun => by cases hRun

/- What is not printed at all is taken as it was written. -/
theorem Echoes.asWritten
    (p : Parser α) :
    Echoes false [] p fun _ _ => True := by
  intro written trees found rest hEcho hRun
  rcases p.suffix_of_run hRun with ⟨taken, rfl⟩
  exact ⟨taken, [] ++ taken, rfl, trivial, hEcho.follow (.refl taken)⟩

/- Where there is no result, all is taken as it was written. -/
theorem EchoesSome.echoes
    {p : Parser (Option α)}
    (hEchoes : EchoesSome false p print) :
    Echoes false [] p fun found printed =>
      ∀ value, found = some value → printed = print value := by
  intro written trees found rest hEcho hRun
  cases found with
  | none =>
      rcases Echoes.asWritten p written trees none rest hEcho hRun with
        ⟨taken, printed, hTrees, _, hPrinted⟩
      exact ⟨taken, printed, hTrees, nofun, hPrinted⟩
  | some value =>
      rcases hEchoes trees value rest hRun with ⟨taken, rfl, hTaken⟩
      refine ⟨taken, [] ++ print value, rfl, ?_, hEcho.follow hTaken⟩
      rintro _ ⟨⟩
      rfl

end Parser

open Nullary.Parser

------------------------------------------------------------
-- The Recursive Constructs
------------------------------------------------------------

namespace Grammar

/-
  A grammar whose parsers give back the tokens that they
  take.  Types and arguments do so in the strict sense, and a
  type always has a token.
-/
structure Echoing
    (g : Grammar) : Prop where
  type : ∀ allowPlus, EchoesSolid (g.type allowPlus) Ty.tokens
  arguments : EchoesAs true g.arguments fun tokens => tokens
  unary :
    ∀ allowRecord, EchoesAs false (g.unary allowRecord) Expression.tokens
  operand :
    ∀ allowRecord level,
      EchoesAs false (g.operand allowRecord level) Expression.tokens
  expression :
    ∀ allowRecord,
      EchoesAs false (g.expression allowRecord) Expression.tokens
  leading : EchoesAs false g.leading Expression.tokens
  pattern : EchoesAs false g.pattern Pattern.tokens
  statements : EchoesAs false g.statements fun tokens => tokens
  fields : EchoesAs false g.fields Prod.snd
  item : EchoesAs false g.item Item.tokens
  useTree :
    ∀ allowRoot, EchoesSome false (g.useTree allowRoot) fun tokens => tokens

variable {g : Grammar}
variable {strict : Bool}

theorem Echoing.echoes_type
    (hEchoing : Echoing g)
    (allowPlus : Bool) :
    EchoesAs strict (g.type allowPlus) Ty.tokens :=
  (hEchoing.type allowPlus).echoes.of_strict

theorem Echoing.echoes_arguments
    (hEchoing : Echoing g) :
    EchoesAs strict g.arguments fun tokens => tokens :=
  hEchoing.arguments.of_strict

------------------------------------------------------------
-- Plain Paths and Attributes
------------------------------------------------------------

theorem echoes_plainSegment :
    EchoesAs strict plainSegment fun tree => [tree] := by
  refine .of_echoes ?_
  unfold plainSegment
  exact .require (.last echoes_anyWord fun tree => rfl)

theorem echoes_plainPath :
    EchoesAs strict plainPath fun path => path.2.2 := by
  refine .of_echoes ?_
  unfold plainPath
  refine .bind (echoes_mark? _) fun leading => ?_
  refine .bind echoes_plainSegment fun first => ?_
  have hPart :
      EchoesAs strict
        (do
          let colons ← mark "::"
          let segment ← plainSegment
          return (colons, segment))
        fun part => part.1 ++ [part.2] := by
    refine .of_echoes ?_
    refine .bind (echoes_mark _) fun colons => ?_
    exact .bind echoes_plainSegment fun segment => .pure rfl
  exact .bind (.many hPart) fun rest => .pure (by simp)

theorem echoes_attributeTail
    (hEchoing : Echoing g) :
    EchoesAs false g.attributeTail fun tokens => tokens := by
  refine .of_echoes ?_
  unfold attributeTail
  refine .branch ?_ (.branch ?_ (.pure rfl))
  · exact .bind echoes_anyGroup fun tree => .pure rfl
  · refine .bind (echoes_mark _) fun equals => ?_
    refine .bind (.attempt (.toEnd echoes_literal)) fun found => ?_
    cases found with
    | some value => exact .pure rfl
    | none =>
        refine .branch .refuse ?_
        exact .bind (hEchoing.expression true) fun value =>
          .pure (by simp)

theorem echoes_attributeBody
    (hEchoing : Echoing g) :
    EchoesAs false g.attributeBody Prod.snd := by
  refine .of_echoes ?_
  unfold attributeBody
  have hTail := echoes_attributeTail hEchoing
  refine .branch ?_ ?_
  · refine .bind (echoes_word _) fun path => ?_
    exact .bind hTail fun tail => .pure rfl
  · refine .bind echoes_plainPath fun path => ?_
    exact .bind hTail fun tail => .pure rfl

theorem echoes_outerAttribute
    (hEchoing : Echoing g) :
    EchoesAs strict g.outerAttribute Attribute.tokens := by
  refine .of_echoes ?_
  unfold outerAttribute
  refine .bind (echoes_mark _) fun hash => ?_
  exact .bind (.within (echoes_attributeBody hEchoing))
    fun body => .pure rfl

theorem echoes_innerAttribute
    (hEchoing : Echoing g) :
    EchoesAs strict g.innerAttribute Attribute.tokens := by
  refine .of_echoes ?_
  unfold innerAttribute
  refine .bind (echoes_mark _) fun hash => ?_
  refine .bind (echoes_mark _) fun bang => ?_
  exact .bind (.within (echoes_attributeBody hEchoing))
    fun body => .pure rfl

theorem inner_of_run_outerAttribute
    {trees rest : Tokens}
    {a : Attribute}
    (hRun : g.outerAttribute.run trees = some (a, rest)) :
    a.inner = false := by
  unfold outerAttribute at hRun
  rcases run_bind_eq_some hRun with ⟨_, _, _, hRun⟩
  rcases run_bind_eq_some hRun with ⟨_, _, _, hRun⟩
  cases hRun
  rfl

theorem inner_of_run_innerAttribute
    {trees rest : Tokens}
    {a : Attribute}
    (hRun : g.innerAttribute.run trees = some (a, rest)) :
    a.inner = true := by
  unfold innerAttribute at hRun
  rcases run_bind_eq_some hRun with ⟨_, _, _, hRun⟩
  rcases run_bind_eq_some hRun with ⟨_, _, _, hRun⟩
  rcases run_bind_eq_some hRun with ⟨_, _, _, hRun⟩
  cases hRun
  rfl

theorem echoes_outerAttributes
    (hEchoing : Echoing g) :
    EchoesAs strict g.outerAttributes Attribute.outerTokens := by
  refine .congr (.many (echoes_outerAttribute hEchoing)) ?_
  intro trees attributes rest hRun
  have hAll : attributes.filter (!·.inner) = attributes := by
    rw [List.filter_eq_self]
    intro a hMem
    rcases exists_run_of_run_many hRun hMem with ⟨_, _, _, hOuter⟩
    rw [inner_of_run_outerAttribute hOuter]
    rfl
  rw [Attribute.outerTokens, hAll]

theorem echoes_innerAttributes
    (hEchoing : Echoing g) :
    EchoesAs strict g.innerAttributes Attribute.innerTokens := by
  refine .congr (.many (echoes_innerAttribute hEchoing)) ?_
  intro trees attributes rest hRun
  have hAll : attributes.filter (·.inner) = attributes := by
    rw [List.filter_eq_self]
    intro a hMem
    rcases exists_run_of_run_many hRun hMem with ⟨_, _, _, hInner⟩
    exact inner_of_run_innerAttribute hInner
  rw [Attribute.innerTokens, hAll]

theorem echoes_outerTokens
    (hEchoing : Echoing g) :
    EchoesAs strict g.outerTokens fun tokens => tokens := by
  refine .of_echoes ?_
  unfold outerTokens
  exact .bind (echoes_outerAttributes hEchoing) fun attributes =>
    .pure rfl

theorem echoes_innerTokens
    (hEchoing : Echoing g) :
    EchoesAs strict g.innerTokens fun tokens => tokens := by
  refine .of_echoes ?_
  unfold innerTokens
  exact .bind (echoes_innerAttributes hEchoing) fun attributes =>
    .pure rfl

------------------------------------------------------------
-- Blocks and Macro Calls
------------------------------------------------------------

theorem echoes_block
    (hEchoing : Echoing g) :
    EchoesAs strict g.block fun tokens => tokens :=
  .group hEchoing.statements

theorem echoes_attributedBlock
    (hEchoing : Echoing g) :
    EchoesAs strict g.attributedBlock fun tokens => tokens := by
  refine .group (.of_echoes ?_)
  refine .bind (echoes_innerTokens hEchoing) fun attributes => ?_
  exact .bind hEchoing.statements fun statements => .pure rfl

theorem echoes_macroCall :
    EchoesAs strict macroCall Prod.fst := by
  refine .of_echoes ?_
  unfold macroCall
  refine .bind (echoes_mark _) fun bang => ?_
  exact .bind echoes_anyGroup fun body => .pure rfl

end Grammar

end Nullary
