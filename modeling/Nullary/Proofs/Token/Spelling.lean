import Nullary.Proofs.Token.Lengths

/-
  Texts and the token trees they spell, wherever they stand.

  The lexemes of a text depend on the position it starts at
  only by their spans, so a text spells the same lexemes in
  any place.  Each step of the reading takes a gap or a
  lexeme off its front.

  Main declarations:
    * `TokenTree.bare`
    * `Lexeme.Spells`
    * `Lexeme.exists_ofTextFrom_of_spells`
    * `Lexeme.Nesting`
    * `Lexeme.Nesting.nest_eq`
    * `Tokens.ofText?_of_spells`
-/

namespace Nullary

------------------------------------------------------------
-- Trees without Spans
------------------------------------------------------------

mutual

/- A tree without the spans in it. -/
def TokenTree.bare : TokenTree → TokenTree
  | .word text _ => .word text .nowhere
  | .mark char joint _ => .mark char joint .nowhere
  | .literal text _ => .literal text .nowhere
  | .group delimiter trees _ =>
      .group delimiter (TokenTree.bareAll trees) .nowhere

/- Trees without the spans in them. -/
def TokenTree.bareAll : List TokenTree → List TokenTree
  | [] => []
  | tree :: rest => tree.bare :: TokenTree.bareAll rest

end

/- A sequence without the spans in it. -/
def Tokens.bare
    (trees : Tokens) : Tokens :=
  TokenTree.bareAll trees

namespace Tokens

@[simp] theorem bare_nil :
    bare [] = [] := by
  rw [bare, TokenTree.bareAll]

@[simp] theorem bare_cons
    (tree : TokenTree)
    (trees : Tokens) :
    bare (tree :: trees) = tree.bare :: bare trees := by
  rw [bare, TokenTree.bareAll]
  rfl

@[simp] theorem bare_append
    (first second : Tokens) :
    bare (first ++ second) = bare first ++ bare second := by
  induction first with
  | nil => simp
  | cons tree rest ih => simp [ih]

@[simp] theorem bare_reverse
    (trees : Tokens) :
    bare trees.reverse = (bare trees).reverse := by
  induction trees with
  | nil => simp
  | cons tree rest ih => simp [ih]

end Tokens

namespace TokenTree

@[simp] theorem bare_word
    (text : String)
    (span : Span) :
    (word text span).bare = .word text .nowhere := by
  rw [bare]

@[simp] theorem bare_mark
    (char : Char)
    (joint : Bool)
    (span : Span) :
    (mark char joint span).bare = .mark char joint .nowhere := by
  rw [bare]

@[simp] theorem bare_literal
    (text : String)
    (span : Span) :
    (literal text span).bare = .literal text .nowhere := by
  rw [bare]

@[simp] theorem bare_group
    (delimiter : Delimiter)
    (trees : Tokens)
    (span : Span) :
    (group delimiter trees span).bare =
      .group delimiter trees.bare .nowhere := by
  rw [bare]
  rfl

end TokenTree

namespace Lexeme

/- A lexeme without its spans. -/
def bare : Lexeme → Lexeme
  | opening delimiter _ => opening delimiter .nowhere
  | closing delimiter _ => closing delimiter .nowhere
  | trees found => trees found.bare

theorem bare_docTokens
    (inner : Bool)
    (content : List Char)
    (span : Span) :
    Tokens.bare (Comment.docTokens inner content span) =
      Comment.docTokens inner content .nowhere := by
  unfold Comment.docTokens
  cases inner <;> simp

/- What is read is the same in every place, save for its spans. -/
theorem bare_of_token?
    {text : List Char}
    {length : Nat}
    {build : Span → TokenTree}
    (hToken : token? text = some (length, build))
    (span : Span) :
    (build span).bare = build .nowhere := by
  cases token?_eq_some_iff.mp hToken <;> simp

theorem bare_of_first?
    {text : List Char}
    {length : Nat}
    {build : Span → Lexeme}
    (hFirst : first? text = some (length, build))
    (span : Span) :
    (build span).bare = build .nowhere := by
  cases firstAt_of_first? hFirst with
  | doc => rw [bare, bare_docTokens]
  | error => simp [bare]
  | opening => rfl
  | closing => rfl
  | token hToken => simp [bare, bare_of_token? hToken span]

------------------------------------------------------------
-- Every Step Takes Something
------------------------------------------------------------

end Lexeme

theorem Gap.length_pos
    {text : List Char}
    {found : Nat}
    (hGap : Gap.length text = some found) :
    0 < found := by
  unfold Gap.length at hGap
  split at hGap
  · next hPlain =>
      cases hGap
      unfold Comment.isPlainLine at hPlain
      split at hPlain <;>
        first
        | exact absurd hPlain Bool.false_ne_true
        | simp [Comment.lineLength]
  · split at hGap
    · have hTwo := (Comment.getElem?_of_blockLength hGap).1
      omega
    · split at hGap
      · split at hGap <;> cases hGap
        exact Nat.one_pos
      · cases hGap

theorem Comment.doc?_pos
    {text content : List Char}
    {inner : Bool}
    {found : Nat}
    (hDoc : Comment.doc? text = some (found, inner, content)) :
    0 < found := by
  have hAt : Comment.IsDocAt text 0 (0 + found) :=
    Comment.isDocAt_of_doc? hDoc
  have hOrder := hAt.start_lt_stop
  omega

namespace Lexeme

variable {text : List Char}
variable {fuel : Nat}

theorem token?_pos
    {found : Nat}
    {build : Span → TokenTree}
    (hToken : token? text = some (found, build)) :
    0 < found := by
  cases token?_eq_some_iff.mp hToken with
  | literal hLiteral => exact (Literal.length_bounds hLiteral).1
  | lifetime => exact Nat.one_pos
  | mark => exact Nat.one_pos
  | word hLiteral hMark hPlain hWord => exact wordLength_pos hWord

theorem first?_pos
    {found : Nat}
    {build : Span → Lexeme}
    (hFirst : first? text = some (found, build)) :
    0 < found := by
  cases firstAt_of_first? hFirst with
  | doc hDoc => exact Comment.doc?_pos hDoc
  | error => decide
  | opening => exact Nat.one_pos
  | closing => exact Nat.one_pos
  | token hToken => exact token?_pos hToken

------------------------------------------------------------
-- Spelling
------------------------------------------------------------

/- A text spells lexemes, with gaps before, between and after them. -/
inductive Spells : List Char → List Lexeme → Prop where
  | nil : Spells [] []
  | gap
      {text : List Char}
      {length : Nat}
      {lexemes : List Lexeme}
      (hGap : Gap.length text = some length)
      (hRest : Spells (text.drop length) lexemes) :
      Spells text lexemes
  | lexeme
      {text : List Char}
      {length : Nat}
      {build : Span → Lexeme}
      {lexemes : List Lexeme}
      (hGap : Gap.length text = none)
      (hFirst : first? text = some (length, build))
      (hRest : Spells (text.drop length) lexemes) :
      Spells text (build .nowhere :: lexemes)

/- Reading a text from a position on. -/
theorem ofTextFrom_of_gap
    {position : Position}
    {length : Nat}
    (hGap : Gap.length text = some length) :
    ofTextFrom (fuel + 1) position text =
      ofTextFrom fuel (position.after (text.take length))
        (text.drop length) := by
  cases text with
  | nil => cases hGap
  | cons c rest => simp only [ofTextFrom, hGap]

theorem ofTextFrom_of_lexeme
    {position : Position}
    {length : Nat}
    {build : Span → Lexeme}
    (hGap : Gap.length text = none)
    (hFirst : first? text = some (length, build)) :
    ofTextFrom (fuel + 1) position text =
      (ofTextFrom fuel (position.after (text.take length))
        (text.drop length)).map
          (build ⟨position, position.after (text.take length)⟩ :: ·) := by
  cases text with
  | nil => cases hFirst
  | cons c rest =>
      simp only [ofTextFrom, hGap, hFirst, Option.bind_eq_bind,
        Option.bind_some]
      generalize ofTextFrom fuel _ _ = found
      cases found <;> rfl

theorem exists_ofTextFrom_of_spells
    {lexemes : List Lexeme}
    (hSpells : Spells text lexemes)
    (hFuel : text.length ≤ fuel)
    (position : Position) :
    ∃ found, ofTextFrom fuel position text = some found ∧
      found.map bare = lexemes := by
  induction hSpells generalizing fuel position with
  | nil =>
      refine ⟨[], ?_, rfl⟩
      cases fuel <;> rfl
  | @gap text length lexemes hGap hRest ih =>
      have hPos := Gap.length_pos hGap
      have hText : 0 < text.length := by
        cases text with
        | nil => cases hGap
        | cons c rest => exact Nat.succ_pos _
      cases fuel with
      | zero => omega
      | succ fuel =>
          rw [ofTextFrom_of_gap hGap]
          apply ih
          rw [List.length_drop]
          omega
  | @lexeme text length build lexemes hGap hFirst hRest ih =>
      have hPos := first?_pos hFirst
      have hText : 0 < text.length := by
        cases text with
        | nil => cases hFirst
        | cons c rest => exact Nat.succ_pos _
      cases fuel with
      | zero => omega
      | succ fuel =>
          rw [ofTextFrom_of_lexeme hGap hFirst]
          have hRoom : (text.drop length).length ≤ fuel := by
            rw [List.length_drop]
            omega
          rcases ih hRoom (position.after (text.take length)) with
            ⟨found, hFound, rfl⟩
          refine ⟨_, by rw [hFound]; rfl, ?_⟩
          rw [List.map_cons, bare_of_first? hFirst]

------------------------------------------------------------
-- Nesting
------------------------------------------------------------

/- Lexemes whose delimiters match make up token trees. -/
inductive Nesting : List Lexeme → Tokens → Prop where
  | nil : Nesting [] []
  | trees
      {lexemes : List Lexeme}
      {rest : Tokens}
      (found : Tokens)
      (hRest : Nesting lexemes rest) :
      Nesting (.trees found :: lexemes) (found ++ rest)
  | group
      {inner lexemes : List Lexeme}
      {content rest : Tokens}
      {delimiter : Delimiter}
      {start stop : Span}
      (hContent : Nesting inner content)
      (hRest : Nesting lexemes rest) :
      Nesting
        (.opening delimiter start ::
          (inner ++ .closing delimiter stop :: lexemes))
        (.group delimiter content (start.join stop) :: rest)

namespace Nesting

theorem append
    {first second : List Lexeme}
    {trees others : Tokens}
    (hFirst : Nesting first trees)
    (hSecond : Nesting second others) :
    Nesting (first ++ second) (trees ++ others) := by
  induction hFirst with
  | nil => exact hSecond
  | trees found hRest ih =>
      rw [List.cons_append, List.append_assoc]
      exact .trees found ih
  | group hContent hRest ihContent ih =>
      rw [List.cons_append, List.append_assoc, List.cons_append,
        List.cons_append]
      exact .group hContent ih

/- The trees are put after those that are there already. -/
theorem nestFrom_eq
    {lexemes : List Lexeme}
    {trees : Tokens}
    (hNesting : Nesting lexemes trees)
    (outer : List (Delimiter × Span × Tokens))
    (current : Tokens)
    (rest : List Lexeme) :
    nestFrom outer current (lexemes ++ rest) =
      nestFrom outer (trees.reverse ++ current) rest := by
  induction hNesting generalizing outer current rest with
  | nil => rfl
  | trees found hRest ih =>
      rw [List.cons_append, nestFrom, ih, List.reverse_append,
        List.append_assoc]
  | group hContent hRest ihContent ih =>
      rw [List.cons_append, List.append_assoc, nestFrom, ihContent,
        List.cons_append, nestFrom, if_pos rfl, ih]
      simp

theorem nest_eq
    {lexemes : List Lexeme}
    {trees : Tokens}
    (hNesting : Nesting lexemes trees) :
    nest lexemes = some trees := by
  have hFrom := hNesting.nestFrom_eq [] [] []
  rw [List.append_nil, List.append_nil] at hFrom
  rw [nest, hFrom, nestFrom, List.reverse_reverse]
  rfl

end Nesting

/- The trees of lexemes without spans are without spans. -/
theorem nestFrom_map_bare
    (outer : List (Delimiter × Span × Tokens))
    (current : Tokens)
    (lexemes : List Lexeme) :
    (nestFrom outer current lexemes).map Tokens.bare =
      nestFrom
        (outer.map fun frame =>
          (frame.1, .nowhere, frame.2.2.bare))
        current.bare (lexemes.map bare) := by
  induction lexemes generalizing outer current with
  | nil => cases outer <;> simp [nestFrom]
  | cons lexeme rest ih =>
      cases lexeme with
      | trees found => simp [nestFrom, bare, ih]
      | opening delimiter span => simp [nestFrom, bare, ih]
      | closing delimiter span =>
          cases outer with
          | nil => rfl
          | cons frame others =>
              rcases frame with ⟨opened, start, before⟩
              by_cases hSame : opened = delimiter
              · simp [nestFrom, bare, hSame, ih, Span.join,
                  Span.nowhere]
              · simp [nestFrom, bare, hSame]

end Lexeme

namespace Tokens

open Lexeme

/- A text spells token trees. -/
theorem ofText?_of_spells
    {text : List Char}
    {lexemes : List Lexeme}
    {trees : Tokens}
    (hMark : text.head? ≠ some byteOrderMark)
    (hSpells : Spells text lexemes)
    (hNesting : Nesting lexemes trees) :
    (ofText? text).map bare = some trees := by
  rcases exists_ofTextFrom_of_spells hSpells (Nat.le_refl _)
      .first with
    ⟨found, hFound, rfl⟩
  have hMark : (text.head? == some byteOrderMark) = false := by
    simpa using hMark
  have hNest := nestFrom_map_bare [] [] found
  rw [List.map_nil, bare_nil] at hNest
  have hTrees : nestFrom [] [] (found.map Lexeme.bare) = some trees :=
    hNesting.nest_eq
  rw [hTrees] at hNest
  simpa [ofText?, hMark, Lexeme.ofText, hFound, nest] using hNest

end Tokens

end Nullary
