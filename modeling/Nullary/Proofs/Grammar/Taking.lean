import Nullary.Proofs.Grammar.Echo.Basic

/-
  A logic of parsers that keeps the trees that have been used.

  What is used and what is printed of it often start or stop
  at one place although they differ in between.  Once a start
  is known, nothing that is used or printed later changes it.

  Main declarations:
    * `Parser.Takes`
    * `Parser.Takes.bind`
    * `Parser.Takes.many`
    * `Tokens.StartsAlike`
    * `Tokens.StopsAlike`
    * `Parser.Starts`
    * `Parser.Finishes`
-/

namespace Nullary

open Nullary.Parser Nullary.Tokens

------------------------------------------------------------
-- Used Trees
------------------------------------------------------------

namespace Parser

variable {α β : Type}

/-
  After trees that have been used, a parser uses more of them
  so that a condition holds of its result and of all that has
  been used.
-/
def Takes
    (used : Tokens)
    (p : Parser α)
    (post : α → Tokens → Prop) : Prop :=
  ∀ (taken : Tokens) (value : α) (rest : Tokens),
    p.run (taken ++ rest) = some (value, rest) →
    post value (used ++ taken)

namespace Takes

variable {used : Tokens}
variable {p : Parser α}
variable {next : α → Parser β}
variable {post : β → Tokens → Prop}
variable {test : Tokens → Bool}

theorem pure
    {value : β}
    (hPost : post value used) :
    Takes used (Pure.pure value) post := by
  intro taken found rest hRun
  have hPair : value = found ∧ taken ++ rest = rest := by
    simpa using Option.some.inj hRun
  rw [List.append_left_eq_self] at hPair
  rw [← hPair.1, hPair.2, List.append_nil]
  exact hPost

theorem pure_bind
    {value : α}
    (hNext : Takes used (next value) post) :
    Takes used (Pure.pure value >>= next) post :=
  fun taken found rest hRun => hNext taken found rest hRun

theorem refuse :
    Takes used (Parser.refuse : Parser β) post := by
  intro taken value rest hRun
  cases hRun

/- Parsers one after the other. -/
theorem bind
    {middle : α → Tokens → Prop}
    (hFirst : Takes used p middle)
    (hNext :
      ∀ value used', middle value used' →
        Takes used' (next value) post) :
    Takes used (p >>= next) post := by
  intro taken value rest hRun
  rcases run_bind_eq_some hRun with ⟨found, left, hFound, hLeft⟩
  rcases p.suffix_of_run hFound with ⟨first, hSplit⟩
  rcases (next found).suffix_of_run hLeft with ⟨second, rfl⟩
  rw [← List.append_assoc] at hSplit
  have hTaken : first ++ second = taken :=
    List.append_cancel_right hSplit
  rw [← hTaken, List.append_assoc] at hFound
  have hMiddle := hFirst first found (second ++ rest) hFound
  have hPost := hNext found _ hMiddle second value rest hLeft
  rwa [List.append_assoc, hTaken] at hPost

/- A parser of which nothing is known. -/
theorem skip_bind
    (hNext :
      ∀ value taken, Takes (used ++ taken) (next value) post) :
    Takes used (p >>= next) post := by
  have hFirst :
      Takes used p fun _ used' => ∃ taken, used' = used ++ taken :=
    fun taken _ _ _ => ⟨taken, rfl⟩
  refine bind hFirst ?_
  rintro value _ ⟨taken, rfl⟩
  exact hNext value taken

/- A look ahead uses nothing. -/
theorem look
    {f : Tokens → α}
    (hNext : ∀ trees, Takes used (next (f trees)) post) :
    Takes used (Parser.look f >>= next) post := by
  intro taken value rest hRun
  rcases run_bind_eq_some hRun with ⟨_, _, hFound, hLeft⟩
  cases hFound
  exact hNext _ taken value rest hLeft

/- A choice by a look ahead. -/
theorem branch
    {q r : Parser β}
    (hThen : Takes used q post)
    (hElse : Takes used r post) :
    Takes used
      (sees test >>= fun holds => if holds = true then q else r)
      post := by
  refine look fun trees => ?_
  split
  · exact hThen
  · exact hElse

/- A choice by a test that may never hold. -/
theorem branch_of_test
    {q r : Parser β}
    (hThen : ∀ trees, test trees = true → Takes used q post)
    (hElse : Takes used r post) :
    Takes used
      (sees test >>= fun holds => if holds = true then q else r)
      post := by
  refine look fun trees => ?_
  split
  · next hTest => exact hThen trees hTest
  · exact hElse

/- A parser whose trees are kept as well. -/
theorem written
    {p : Parser β}
    (hTakes : Takes [] p post) :
    Takes [] (Parser.written p) fun found taken =>
      post found.1 taken ∧ found.2 = taken := by
  intro taken found rest hRun
  rcases run_bind_eq_some hRun with ⟨_, _, hTrees, hTail⟩
  cases hTrees
  rcases run_bind_eq_some hTail with ⟨value, left, hValue, hTail⟩
  rcases run_bind_eq_some hTail with ⟨_, _, hCount, hPure⟩
  cases hCount
  cases hPure
  exact ⟨hTakes taken value rest hValue, by simp⟩

/- What one turn of a loop keeps, the whole loop keeps. -/
theorem loop
    {σ : Type}
    {step : σ → Parser (σ × Bool)}
    {kept : σ → Tokens → Prop}
    (hStep :
      ∀ state used', kept state used' →
        Takes used' (step state)
          fun next used'' => kept next.1 used'')
    (fuel : Nat)
    {state : σ}
    (hKept : kept state used) :
    Takes used (Parser.loop step fuel state) kept := by
  induction fuel generalizing state used with
  | zero => exact refuse
  | succ fuel ih =>
      refine bind (hStep state used hKept) ?_
      rintro ⟨next, more⟩ used' hNext
      dsimp only at hNext ⊢
      split
      · exact ih hNext
      · exact pure hNext

/- Repetition, told by what holds of the results up to each of them. -/
theorem many
    {kept : List α → Tokens → Prop}
    (hKept : kept [] used)
    (hStep :
      ∀ found used', kept found used' →
        Takes used' p
          fun value used'' => kept (found ++ [value]) used'') :
    Takes used (Parser.many test p) kept := by
  unfold Parser.many
  -- The results are held last one first.
  have hLoop :
      Takes used
        (iterate [] fun found => do
          if ← sees test then
            return ((← p) :: found, true)
          else
            return (found, false))
        fun found used' => kept found.reverse used' := by
    refine look fun trees => loop ?_ _ hKept
    intro found used' hFound
    refine branch (bind (hStep _ used' hFound) ?_) (pure hFound)
    intro value used'' hValue
    refine pure ?_
    rwa [List.reverse_cons]
  exact bind hLoop fun found used' hFound => pure hFound

end Takes

end Parser

------------------------------------------------------------
-- The Ends of Used Trees
------------------------------------------------------------

/-
  A tree that can start an item: a word, or the first mark of
  an attribute or of a path.
-/
def TokenTree.startsItem : TokenTree → Bool
  | .word _ _ => true
  | .mark c _ _ => c == '#' || c == ':'
  | _ => false

/- A tree that can end an item: a semicolon or braces. -/
def TokenTree.endsItem : TokenTree → Bool
  | .mark c _ _ => c == ';'
  | .group delimiter _ _ => delimiter == .brace
  | _ => false

namespace Tokens

variable {used printed : Tokens}

/- What is used starts an item, and where what is printed does. -/
def StartsAlike
    (used printed : Tokens) : Prop :=
  ∃ first more first' more',
    used = first :: more ∧ printed = first' :: more' ∧
      first.span.start = first'.span.start ∧
      first.startsItem = true

/- Nothing is used and nothing printed, or both have a start. -/
def Aligned
    (used printed : Tokens) : Prop :=
  used = [] ∧ printed = [] ∨ StartsAlike used printed

/- What is used ends an item, and stops where what is printed does. -/
def StopsAlike
    (used printed : Tokens) : Prop :=
  ∃ last last',
    used.getLast? = some last ∧ printed.getLast? = some last' ∧
      last.span.stop = last'.span.stop ∧ last.endsItem = true

theorem StartsAlike.left
    (hStarts : StartsAlike used printed)
    (more : Tokens) :
    StartsAlike (used ++ more) printed := by
  rcases hStarts with
    ⟨first, tail, first', tail', rfl, rfl, hStart, hFirst⟩
  exact ⟨first, tail ++ more, first', tail', rfl, rfl, hStart,
    hFirst⟩

theorem StartsAlike.right
    (hStarts : StartsAlike used printed)
    (more : Tokens) :
    StartsAlike used (printed ++ more) := by
  rcases hStarts with
    ⟨first, tail, first', tail', rfl, rfl, hStart, hFirst⟩
  exact ⟨first, tail, first', tail' ++ more, rfl, rfl, hStart,
    hFirst⟩

theorem Aligned.startsAlike
    {used₁ used₂ printed₁ printed₂ : Tokens}
    (hAligned : Aligned used₁ printed₁)
    (hStarts : StartsAlike used₂ printed₂) :
    StartsAlike (used₁ ++ used₂) (printed₁ ++ printed₂) := by
  rcases hAligned with ⟨rfl, rfl⟩ | hFirst
  · exact hStarts
  · exact (hFirst.left _).right _

theorem Aligned.append
    {used₁ used₂ printed₁ printed₂ : Tokens}
    (hFirst : Aligned used₁ printed₁)
    (hSecond : Aligned used₂ printed₂) :
    Aligned (used₁ ++ used₂) (printed₁ ++ printed₂) := by
  rcases hSecond with ⟨rfl, rfl⟩ | hStarts
  · simpa using hFirst
  · exact Or.inr (hFirst.startsAlike hStarts)

theorem StopsAlike.left
    (hStops : StopsAlike used printed)
    (more : Tokens) :
    StopsAlike (more ++ used) printed := by
  rcases hStops with ⟨last, last', hLast, hRest⟩
  exact ⟨last, last', by simp [hLast], hRest⟩

theorem StopsAlike.right
    (hStops : StopsAlike used printed)
    (more : Tokens) :
    StopsAlike used (more ++ printed) := by
  rcases hStops with ⟨last, last', hLast, hLast', hRest⟩
  exact ⟨last, last', hLast, by simp [hLast'], hRest⟩

theorem stopsAlike_singleton
    {tree tree' : TokenTree}
    (hSpan : tree.span = tree'.span)
    (hEnds : tree.endsItem = true) :
    StopsAlike [tree] [tree'] :=
  ⟨tree, tree', rfl, rfl, by rw [hSpan], hEnds⟩

/- What has both ends in common with what is printed has its span. -/
theorem span_eq_of_startsAlike
    (hStarts : StartsAlike used printed)
    (hStops : StopsAlike used printed) :
    span printed = span used := by
  rcases hStarts with
    ⟨first, tail, first', tail', rfl, rfl, hStart, hFirst⟩
  rcases hStops with ⟨last, last', hLast, hLast', hStop, hEnds⟩
  unfold span
  rw [hLast, hLast']
  simp only [List.head?_cons, Span.join, hStart, hStop]

end Tokens

namespace Parser

variable {α β : Type}

/- A parser that may take nothing. -/
def Aligns
    (p : Parser α)
    (print : α → Tokens) : Prop :=
  Takes [] p fun value taken => Aligned taken (print value)

/- A parser that starts something. -/
def Starts
    (p : Parser α)
    (print : α → Tokens) : Prop :=
  Takes [] p fun value taken => StartsAlike taken (print value)

/- A parser that ends an item. -/
def Finishes
    (p : Parser α)
    (print : α → Tokens) : Prop :=
  Takes [] p fun value taken => StopsAlike taken (print value)

namespace Takes

variable {used before : Tokens}
variable {p : Parser α}
variable {print : α → Tokens}
variable {next : α → Parser β}
variable {post : β → Tokens → Prop}

/- What holds of the trees that a parser takes. -/
theorem of_nil
    {middle : α → Tokens → Prop}
    (hTakes : Takes [] p middle) :
    Takes used p fun value used' =>
      ∃ taken, used' = used ++ taken ∧ middle value taken :=
  fun taken value rest hRun =>
    ⟨taken, rfl, hTakes taken value rest hRun⟩

theorem align
    (hFirst : Aligns p print)
    (hAligned : Aligned used before)
    (hNext :
      ∀ value used', Aligned used' (before ++ print value) →
        Takes used' (next value) post) :
    Takes used (p >>= next) post := by
  refine bind (of_nil hFirst) ?_
  rintro value _ ⟨taken, rfl, hTaken⟩
  exact hNext value _ (hAligned.append hTaken)

theorem start
    (hFirst : Starts p print)
    (hAligned : Aligned used before)
    (hNext :
      ∀ value used', StartsAlike used' (before ++ print value) →
        Takes used' (next value) post) :
    Takes used (p >>= next) post := by
  refine bind (of_nil hFirst) ?_
  rintro value _ ⟨taken, rfl, hTaken⟩
  exact hNext value _ (hAligned.startsAlike hTaken)

/- What comes after the start does not change it. -/
theorem pass
    (hStarts : StartsAlike used before)
    (hNext :
      ∀ value used', StartsAlike used' before →
        Takes used' (next value) post) :
    Takes used (p >>= next) post := by
  refine skip_bind fun value taken => ?_
  exact hNext value _ (hStarts.left taken)

/- Nor does it matter which of two parsers comes after it. -/
theorem pass_either
    {condition : Prop}
    [Decidable condition]
    {q : Parser α}
    (hStarts : StartsAlike used before)
    (hNext :
      ∀ value used', StartsAlike used' before →
        Takes used' (next value) post) :
    Takes used
      (if condition then p >>= next else q >>= next) post := by
  split
  · exact pass hStarts hNext
  · exact pass hStarts hNext

theorem finish
    (hFirst : Finishes p print)
    (hStarts : StartsAlike used before)
    (hNext :
      ∀ value used', StartsAlike used' before →
        StopsAlike used' (print value) →
        Takes used' (next value) post) :
    Takes used (p >>= next) post := by
  refine bind (of_nil hFirst) ?_
  rintro value _ ⟨taken, rfl, hTaken⟩
  exact hNext value _ (hStarts.left taken) (hTaken.left used)

end Takes

------------------------------------------------------------
-- Single Tokens
------------------------------------------------------------

/- A single tree that was taken. -/
theorem eq_singleton_of_append
    {taken rest : Tokens}
    {tree : TokenTree}
    (hTrees : taken ++ rest = tree :: rest) :
    taken = [tree] :=
  List.append_cancel_right (hTrees.trans List.singleton_append.symm)

theorem starts_word
    (text : String) :
    Starts (word text) fun tokens => tokens := by
  intro taken value rest hRun
  rcases eq_of_run_word hRun with ⟨span, hTrees, rfl⟩
  have hTaken := eq_singleton_of_append hTrees
  exact ⟨_, [], _, [], hTaken, rfl, rfl, rfl⟩

theorem starts_anyWord :
    Starts anyWord fun tree => [tree] := by
  intro taken value rest hRun
  rcases eq_of_run_anyWord hRun with ⟨text, span, hTrees, rfl⟩
  have hTaken := eq_singleton_of_append hTrees
  exact ⟨_, [], _, [], hTaken, rfl, rfl, rfl⟩

theorem finishes_semicolon :
    Finishes (mark ";") fun tokens => tokens := by
  intro taken value rest hRun
  have hMark : ";".toList = [';'] := rfl
  rcases eq_mark_of_run_mark hMark hRun with
    ⟨joint, span, hTrees, rfl⟩
  have hTaken := eq_singleton_of_append hTrees
  rw [hTaken]
  exact stopsAlike_singleton rfl rfl

/- Braces that were taken, with what was parsed inside them. -/
theorem takes_braces
    (p : Parser α) :
    Takes [] (within .brace p) fun found taken =>
      ∃ content, taken = [.group .brace content found.2] ∧
        p.run content = some (found.1, []) := by
  rintro taken ⟨value, span⟩ rest hRun
  rcases eq_group_of_run_within hRun with
    ⟨content, hTrees, hContent⟩
  have hTaken := eq_singleton_of_append hTrees
  exact ⟨content, hTaken, hContent⟩

/- Braces end an item, however their content is printed. -/
theorem finishes_braces
    (p : Parser α)
    (content : α → Tokens) :
    Finishes (within .brace p) fun found =>
      [.group .brace (content found.1) found.2] := by
  intro taken found rest hRun
  rcases takes_braces p taken found rest hRun with
    ⟨content', hTaken, _⟩
  rw [List.nil_append] at hTaken ⊢
  rw [hTaken]
  exact stopsAlike_singleton rfl rfl

theorem finishes_group
    (p : Parser Tokens) :
    Finishes (group .brace p) fun tokens => tokens := by
  unfold group
  refine .bind (finishes_braces p fun content => content) ?_
  rintro ⟨content, span⟩ used hStops
  exact .pure hStops

/- A parser that is run only where a test holds. -/
theorem aligns_when
    {p : Parser Tokens}
    (test : Tokens → Bool)
    (hStarts : Starts p fun tokens => tokens) :
    Aligns (Parser.when test p) fun tokens => tokens := by
  unfold Parser.when
  refine .branch ?_ (.pure (Or.inl ⟨rfl, rfl⟩))
  intro taken value rest hRun
  exact Or.inr (hStarts taken value rest hRun)

theorem aligns_word?
    (text : String) :
    Aligns (word? text) fun tokens => tokens :=
  aligns_when _ (starts_word text)

end Parser

end Nullary
