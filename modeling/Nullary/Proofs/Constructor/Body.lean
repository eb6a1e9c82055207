import Nullary.Constructor.Text
import Nullary.Constructor.Tokens
import Nullary.Proofs.Token.Words

/-
  The body of the generated constructor, as text and as
  tokens.

  The text of the body reads as the tokens of the body, but
  for the path of the default value, which the tokens write
  in full, and a final comma.  Both bodies give every
  declared field its default value, in order.

  Main declarations:
    * `Tokens.shortened`
    * `Tokens.withoutFinalCommas`
    * `Initialisation.ofTokens?`
    * `Fields.defaultText_reads_as_defaultTokens`
-/

namespace Nullary

open Nullary.Tokens

------------------------------------------------------------
-- Shortening Paths
------------------------------------------------------------

namespace Tokens

/- Trees that start with `::core::default::Default`. -/
def startsWithDefaultPath : Tokens → Bool
  | .mark ':' _ _ :: .mark ':' _ _ :: .word first _ ::
      .mark ':' _ _ :: .mark ':' _ _ :: .word second _ ::
      .mark ':' _ _ :: .mark ':' _ _ :: .word third _ :: _ =>
      first == "core" && second == "default" && third == "Default"
  | _ => false

end Tokens

mutual

/- A tree with the paths in it shortened. -/
def TokenTree.shortened : TokenTree → TokenTree
  | .group delimiter trees span =>
      .group delimiter (TokenTree.shortenedFrom 0 trees) span
  | tree => tree

/-
  Trees with `::core::default::Default` shortened to its last
  word; `skip` trees at their front are left out.
-/
def TokenTree.shortenedFrom : Nat → List TokenTree → List TokenTree
  | _, [] => []
  | skip + 1, _ :: rest => TokenTree.shortenedFrom skip rest
  | 0, tree :: rest =>
      if Tokens.startsWithDefaultPath (tree :: rest) then
        -- the other seven marks and words before the last word
        TokenTree.shortenedFrom 7 rest
      else
        tree.shortened :: TokenTree.shortenedFrom 0 rest

end

/- Trees with `::core::default::Default` shortened to its last word. -/
def Tokens.shortened
    (trees : Tokens) : Tokens :=
  TokenTree.shortenedFrom 0 trees

------------------------------------------------------------
-- Final Commas
------------------------------------------------------------

/- A comma. -/
def TokenTree.isComma : TokenTree → Bool
  | .mark ',' _ _ => true
  | _ => false

namespace Tokens

/- Trees without a comma at their end. -/
def dropFinalComma
    (trees : Tokens) : Tokens :=
  if trees.getLast?.any (·.isComma) then trees.dropLast else trees

end Tokens

mutual

/- A tree without the commas before closing braces. -/
def TokenTree.withoutFinalCommas : TokenTree → TokenTree
  | .group .brace trees span =>
      .group .brace
        (Tokens.dropFinalComma (TokenTree.withoutFinalCommasAll trees))
        span
  | .group delimiter trees span =>
      .group delimiter (TokenTree.withoutFinalCommasAll trees) span
  | tree => tree

/- Trees without the commas before closing braces. -/
def TokenTree.withoutFinalCommasAll : List TokenTree → List TokenTree
  | [] => []
  | tree :: rest =>
      tree.withoutFinalCommas :: TokenTree.withoutFinalCommasAll rest

end

/- Trees without the commas before closing braces. -/
def Tokens.withoutFinalCommas
    (trees : Tokens) : Tokens :=
  TokenTree.withoutFinalCommasAll trees

------------------------------------------------------------
-- What a Body Initialises
------------------------------------------------------------

namespace Tokens

/-
  The trees between commas.  `current` holds those since the
  last comma, last one first; a final comma ends nothing.
-/
def segmentsFrom
    (current : Tokens) : Tokens → List Tokens
  | [] => if current.isEmpty then [] else [current.reverse]
  | tree :: rest =>
      if tree.isComma then
        current.reverse :: segmentsFrom [] rest
      else
        segmentsFrom (tree :: current) rest

/- The trees between commas. -/
def segments
    (trees : Tokens) : List Tokens :=
  segmentsFrom [] trees

end Tokens

/- The fields that the body of a constructor gives values. -/
inductive Initialisation where
  | named (fields : List (String × Tokens))
  | positional (values : List Tokens)
  | unit
deriving Repr

namespace Initialisation

/- A named field and its value. -/
def field? : Tokens → Option (String × Tokens)
  | .word name _ :: .mark ':' _ _ :: value => some (name, value)
  | _ => none

/- What the tokens of a body initialise. -/
def ofTokens? : Tokens → Option Initialisation
  | [.word "Self" _] => some .unit
  | [.word "Self" _, .group .brace trees _] =>
      ((segments trees).mapM field?).map .named
  | [.word "Self" _, .group .parenthesis trees _] =>
      some (.positional (segments trees))
  | _ => none

end Initialisation

/- The default value without its path. -/
def shortValueTokens : Tokens :=
  generatedWord "Default" :: generatedMark "::" ++
    [generatedWord "default", generatedGroup .parenthesis []]

namespace Fields

/- The names of the fields. -/
def names : Fields → List String
  | named names => names
  | _ => []

/- Every field, in order, with one value. -/
def initialised
    (value : Tokens) : Fields → Initialisation
  | named names => .named (names.map fun name => (name, value))
  | positional count => .positional (List.replicate count value)
  | unit => .unit

end Fields

------------------------------------------------------------
-- Bodies with One Value
------------------------------------------------------------

/- A named field with a value. -/
def fieldTokens
    (value : Tokens)
    (name : String) : Tokens :=
  generatedWord name :: generatedMark ":" ++ value

namespace Fields

/- The record with every field at one value. -/
def tokensWith
    (value : Tokens) : Fields → Tokens
  | named names =>
      [generatedWord "Self",
        generatedGroup .brace
          (commaSeparated (names.map (fieldTokens value)))]
  | positional count =>
      [generatedWord "Self",
        generatedGroup .parenthesis
          (commaSeparated (List.replicate count value))]
  | unit => [generatedWord "Self"]

theorem defaultTokens_eq
    (fields : Fields) :
    fields.defaultTokens = fields.tokensWith defaultValueTokens := by
  cases fields <;> rfl

end Fields

/- Shortening the default value. -/
theorem shortenedFrom_defaultValueTokens
    (rest : Tokens) :
    TokenTree.shortenedFrom 0 (defaultValueTokens ++ rest) =
      shortValueTokens ++ TokenTree.shortenedFrom 0 rest := by
  simp [defaultValueTokens, shortValueTokens, generatedMark,
    generatedMarks, generatedWord, generatedGroup,
    TokenTree.shortenedFrom, TokenTree.shortened,
    startsWithDefaultPath]

theorem shortenedFrom_fieldTokens
    (name : String)
    (rest : Tokens) :
    TokenTree.shortenedFrom 0
        (fieldTokens defaultValueTokens name ++ rest) =
      fieldTokens shortValueTokens name ++
        TokenTree.shortenedFrom 0 rest := by
  simp [defaultValueTokens, shortValueTokens, generatedMark,
    generatedMarks, generatedWord, generatedGroup,
    TokenTree.shortenedFrom, TokenTree.shortened, fieldTokens,
    startsWithDefaultPath]

/- Shortening goes through a list of parts if it does through each. -/
theorem shortenedFrom_commaSeparated
    {α : Type}
    {long short : α → Tokens}
    (hPart : ∀ part rest,
      TokenTree.shortenedFrom 0 (long part ++ rest) =
        short part ++ TokenTree.shortenedFrom 0 rest)
    (parts : List α) :
    TokenTree.shortenedFrom 0 (commaSeparated (parts.map long)) =
      commaSeparated (parts.map short) := by
  have hNil : TokenTree.shortenedFrom 0 [] = [] := by
    rw [TokenTree.shortenedFrom]
  induction parts with
  | nil => exact hNil
  | cons part rest ih =>
      cases rest with
      | nil =>
          have hAlone := hPart part []
          rw [hNil, List.append_nil, List.append_nil] at hAlone
          exact hAlone
      | cons next others =>
          have hComma (more : Tokens) :
              TokenTree.shortenedFrom 0
                  (generatedMark "," ++ more) =
                generatedMark "," ++
                  TokenTree.shortenedFrom 0 more := by
            simp [generatedMark, generatedMarks,
              TokenTree.shortenedFrom, TokenTree.shortened,
              startsWithDefaultPath]
          simp only [List.map_cons, commaSeparated,
            List.append_assoc] at ih ⊢
          rw [hPart, hComma, ih]

theorem Fields.shortened_defaultTokens
    (fields : Fields) :
    shortened fields.defaultTokens =
      fields.tokensWith shortValueTokens := by
  rw [Fields.defaultTokens_eq]
  have hNamed :=
    shortenedFrom_commaSeparated shortenedFrom_fieldTokens
  cases fields with
  | named names =>
      simp [tokensWith, shortened, generatedWord, generatedGroup,
        TokenTree.shortenedFrom, TokenTree.shortened,
        startsWithDefaultPath, hNamed]
  | positional count =>
      have hValues :=
        shortenedFrom_commaSeparated
          (fun (_ : Unit) => shortenedFrom_defaultValueTokens)
          (List.replicate count ())
      rw [List.map_replicate, List.map_replicate] at hValues
      simp [tokensWith, shortened, generatedWord, generatedGroup,
        TokenTree.shortenedFrom, TokenTree.shortened,
        startsWithDefaultPath, hValues]
  | unit =>
      simp [tokensWith, shortened, generatedWord,
        TokenTree.shortenedFrom, TokenTree.shortened,
        startsWithDefaultPath]

------------------------------------------------------------
-- Parts between Commas
------------------------------------------------------------

namespace Tokens

/- A part of a list: it is not empty and has no comma. -/
structure IsPart
    (trees : Tokens) : Prop where
  ne_nil : trees ≠ []
  isComma : ∀ tree ∈ trees, tree.isComma = false

theorem segmentsFrom_append
    {part : Tokens}
    (hPart : ∀ tree ∈ part, tree.isComma = false)
    (current rest : Tokens) :
    segmentsFrom current (part ++ rest) =
      segmentsFrom (part.reverse ++ current) rest := by
  induction part generalizing current with
  | nil => rfl
  | cons tree others ih =>
      rw [List.forall_mem_cons] at hPart
      rw [List.cons_append, segmentsFrom, hPart.1,
        if_neg Bool.false_ne_true, ih hPart.2]
      simp

theorem segmentsFrom_comma
    (current rest : Tokens) :
    segmentsFrom current (generatedMark "," ++ rest) =
      current.reverse :: segments rest := by
  rfl

/- A list with commas between its parts. -/
theorem segments_commaSeparated
    {parts : List Tokens}
    (hParts : ∀ part ∈ parts, IsPart part) :
    segments (commaSeparated parts) = parts := by
  induction parts with
  | nil => rfl
  | cons part rest ih =>
      rw [List.forall_mem_cons] at hParts
      rcases hParts with ⟨hPart, hRest⟩
      cases rest with
      | nil =>
          have hSame := segmentsFrom_append hPart.isComma [] []
          rw [List.append_nil, List.append_nil] at hSame
          rw [commaSeparated, segments, hSame, segmentsFrom,
            List.isEmpty_reverse, List.reverse_reverse,
            List.isEmpty_eq_false_iff.mpr hPart.ne_nil,
            if_neg Bool.false_ne_true]
      | cons next others =>
          rw [commaSeparated, List.append_assoc, segments,
            segmentsFrom_append hPart.isComma, List.append_nil,
            segmentsFrom_comma, List.reverse_reverse, ih hRest]
          intro hNil
          cases hNil

/- A list with a comma after each of its parts. -/
theorem segments_flatMap
    {parts : List Tokens}
    (hParts : ∀ part ∈ parts, IsPart part) :
    segments (parts.flatMap (· ++ generatedMark ",")) = parts := by
  induction parts with
  | nil => rfl
  | cons part rest ih =>
      rw [List.forall_mem_cons] at hParts
      rw [List.flatMap_cons, List.append_assoc, segments,
        segmentsFrom_append hParts.1.isComma, List.append_nil,
        segmentsFrom_comma, List.reverse_reverse, ih hParts.2]

theorem dropFinalComma_flatMap
    (parts : List Tokens) :
    dropFinalComma (parts.flatMap (· ++ generatedMark ",")) =
      commaSeparated parts := by
  cases parts with
  | nil => rfl
  | cons part rest =>
      have hFinal :
          (part :: rest).flatMap (· ++ generatedMark ",") =
            commaSeparated (part :: rest) ++ generatedMark "," := by
        induction rest generalizing part with
        | nil => simp [commaSeparated]
        | cons next others ih =>
            have hStep :
                commaSeparated (part :: next :: others) =
                  part ++ generatedMark "," ++
                    commaSeparated (next :: others) := rfl
            rw [List.flatMap_cons, ih next, hStep,
              List.append_assoc _ _ (generatedMark ",")]
      have hComma :
          generatedMark "," = [.mark ',' false .nowhere] := rfl
      rw [hFinal, hComma]
      simp [dropFinalComma, TokenTree.isComma]

end Tokens

namespace TokenTree

theorem withoutFinalCommas_brace
    (trees : Tokens) :
    (generatedGroup .brace trees).withoutFinalCommas =
      generatedGroup .brace
        (dropFinalComma (Tokens.withoutFinalCommas trees)) := by
  rw [generatedGroup, withoutFinalCommas]
  rfl

theorem withoutFinalCommas_parenthesis
    (trees : Tokens) :
    (generatedGroup .parenthesis trees).withoutFinalCommas =
      generatedGroup .parenthesis
        (Tokens.withoutFinalCommas trees) := by
  rw [generatedGroup, withoutFinalCommas]
  · rfl
  · simp

theorem withoutFinalCommas_word
    (word : String) :
    (generatedWord word).withoutFinalCommas = generatedWord word := by
  simp [generatedWord, withoutFinalCommas]

theorem withoutFinalCommas_mark
    {c : Char}
    {tree : TokenTree}
    (hTree : tree ∈ generatedMarks [c]) :
    tree.withoutFinalCommas = tree := by
  rw [List.mem_singleton.mp hTree, withoutFinalCommas]
  all_goals simp

end TokenTree

namespace Tokens

theorem withoutFinalCommas_cons
    (tree : TokenTree)
    (trees : Tokens) :
    withoutFinalCommas (tree :: trees) =
      tree.withoutFinalCommas :: withoutFinalCommas trees := by
  rw [withoutFinalCommas, TokenTree.withoutFinalCommasAll]
  rfl

theorem withoutFinalCommas_eq_self
    {trees : Tokens}
    (hTrees : ∀ tree ∈ trees, tree.withoutFinalCommas = tree) :
    withoutFinalCommas trees = trees := by
  induction trees with
  | nil => rw [withoutFinalCommas, TokenTree.withoutFinalCommasAll]
  | cons tree rest ih =>
      rw [List.forall_mem_cons] at hTrees
      rw [withoutFinalCommas_cons, hTrees.1, ih hTrees.2]

theorem mem_commaSeparated
    {parts : List Tokens}
    {tree : TokenTree}
    (hMem : tree ∈ commaSeparated parts) :
    tree ∈ generatedMark "," ∨ ∃ part ∈ parts, tree ∈ part := by
  induction parts with
  | nil => cases hMem
  | cons part rest ih =>
      cases rest with
      | nil => exact Or.inr ⟨part, List.mem_cons_self, hMem⟩
      | cons next others =>
          rcases List.mem_append.mp hMem with hFirst | hRest
          · rcases List.mem_append.mp hFirst with hPart | hComma
            · exact Or.inr ⟨part, List.mem_cons_self, hPart⟩
            · exact Or.inl hComma
          · rcases ih hRest with hComma | ⟨other, hOther, hTree⟩
            · exact Or.inl hComma
            · exact Or.inr
                ⟨other, List.mem_cons_of_mem part hOther, hTree⟩

end Tokens

theorem isPart_shortValueTokens :
    IsPart shortValueTokens := by
  constructor <;> decide

theorem isPart_defaultValueTokens :
    IsPart defaultValueTokens := by
  constructor <;> decide

theorem isPart_fieldTokens
    {value : Tokens}
    (hValue : IsPart value)
    (name : String) :
    IsPart (fieldTokens value name) := by
  refine ⟨List.cons_ne_nil _ _, ?_⟩
  intro tree hMem
  rw [fieldTokens, List.cons_append, List.mem_cons] at hMem
  rcases hMem with rfl | hMem
  · rfl
  · rcases List.mem_append.mp hMem with hMark | hValueMem
    · rw [List.mem_singleton.mp hMark]
      rfl
    · exact hValue.isComma tree hValueMem

theorem withoutFinalCommas_shortValueTokens :
    ∀ tree ∈ shortValueTokens, tree.withoutFinalCommas = tree := by
  simp [shortValueTokens, generatedMark, generatedMarks,
    generatedWord, generatedGroup, TokenTree.withoutFinalCommas,
    TokenTree.withoutFinalCommasAll]

theorem withoutFinalCommas_fieldTokens
    (name : String) :
    ∀ tree ∈ fieldTokens shortValueTokens name,
      tree.withoutFinalCommas = tree := by
  intro tree hMem
  rcases List.mem_cons.mp hMem with rfl | hRest
  · exact TokenTree.withoutFinalCommas_word name
  · rcases List.mem_append.mp hRest with hColon | hValue
    · exact TokenTree.withoutFinalCommas_mark hColon
    · exact withoutFinalCommas_shortValueTokens tree hValue

/- The named fields are read back. -/
theorem mapM_field?
    (value : Tokens)
    (names : List String) :
    (names.map (fieldTokens value)).mapM Initialisation.field? =
      some (names.map fun name => (name, value)) := by
  induction names with
  | nil => rfl
  | cons name rest ih =>
      have hField :
          Initialisation.field? (fieldTokens value name) =
            some (name, value) := rfl
      rw [List.map_cons, List.mapM_cons, hField, ih]
      rfl

theorem Fields.ofTokens?_tokensWith
    {value : Tokens}
    (hValue : IsPart value)
    (fields : Fields) :
    Initialisation.ofTokens? (fields.tokensWith value) =
      some (fields.initialised value) := by
  cases fields with
  | named names =>
      have hParts :
          segments (commaSeparated (names.map (fieldTokens value))) =
            names.map (fieldTokens value) := by
        apply segments_commaSeparated
        intro part hPart
        rcases List.mem_map.mp hPart with ⟨name, _, rfl⟩
        exact isPart_fieldTokens hValue name
      simp only [tokensWith, generatedWord, generatedGroup,
        Initialisation.ofTokens?, hParts, mapM_field?, initialised,
        Option.map_some]
  | positional count =>
      have hParts :
          segments (commaSeparated (List.replicate count value)) =
            List.replicate count value := by
        apply segments_commaSeparated
        intro part hPart
        rw [List.eq_of_mem_replicate hPart]
        exact hValue
      simp [tokensWith, generatedWord, generatedGroup,
        Initialisation.ofTokens?, hParts, initialised]
  | unit => rfl

------------------------------------------------------------
-- Reading the Text
------------------------------------------------------------

namespace Fields

/- The trees that the text of the body reads as. -/
def textTokens : Fields → Tokens
  | named names =>
      [generatedWord "Self",
        generatedGroup .brace
          ((names.map (fieldTokens shortValueTokens)).flatMap
            (· ++ generatedMark ","))]
  | fields => fields.tokensWith shortValueTokens

end Fields

namespace Lexeme

variable {rest : List Char}
variable {lexemes : List Lexeme}

/- The lexemes of the default value. -/
def defaultValue : List Lexeme :=
  [.trees [.word "Default" .nowhere], .trees [.mark ':' true .nowhere],
    .trees [.mark ':' false .nowhere],
    .trees [.word "default" .nowhere],
    .opening .parenthesis .nowhere, .closing .parenthesis .nowhere]

theorem nesting_defaultValue :
    Nesting defaultValue shortValueTokens := by
  refine .trees [_] (.trees [_] (.trees [_] (.trees [_] ?_)))
  exact .group .nil .nil

theorem spells_defaultValue
    (hRest : Spells rest lexemes) :
    Spells (defaultValueText ++ rest) (defaultValue ++ lexemes) := by
  have hText :
      defaultValueText =
        "Default".toList ++ ':' :: ':' ::
          ("default".toList ++ ['(', ')']) := by
    decide
  rw [hText, List.append_assoc, List.cons_append, List.cons_append,
    List.append_assoc]
  refine .word (by decide) (endsWord_cons (by decide) _) ?_
  refine .mark (by decide) (by decide) (by decide) ?_
  refine .mark (by decide) (by decide) (by decide) ?_
  refine .word (by decide) (endsWord_cons (by decide) _) ?_
  refine .opening rfl (by simp) ?_
  exact .closing rfl hRest

/- The lexemes of a named field with its default value and a comma. -/
def defaultField
    (name : String) : List Lexeme :=
  .trees [.word name .nowhere] :: .trees [.mark ':' false .nowhere] ::
    (defaultValue ++ [.trees [.mark ',' false .nowhere]])

theorem nesting_defaultField
    (name : String) :
    Nesting (defaultField name)
      (fieldTokens shortValueTokens name ++ generatedMark ",") :=
  .trees [_] (.trees [_]
    (nesting_defaultValue.append (.trees [_] .nil)))

theorem nesting_defaultFields
    (names : List String) :
    Nesting (names.flatMap defaultField)
      ((names.map (fieldTokens shortValueTokens)).flatMap
        (· ++ generatedMark ",")) := by
  induction names with
  | nil => exact .nil
  | cons name rest ih =>
      rw [List.flatMap_cons, List.map_cons, List.flatMap_cons]
      exact (nesting_defaultField name).append ih

theorem spells_defaultField
    {indent : List Char}
    (hIndent : ∀ c ∈ indent, isBlank c = true)
    {name : String}
    (hName : IsIdentifier name.toList)
    (hRest : Spells rest lexemes) :
    Spells (defaultFieldText indent name ++ rest)
      (defaultField name ++ lexemes) := by
  have hColon : ": ".toList = [':', ' '] := by decide
  have hEnd : ",\n".toList = [',', '\n'] := by decide
  unfold defaultFieldText defaultField
  rw [hColon, hEnd]
  simp only [List.append_assoc, List.cons_append, List.nil_append]
  refine .blanks hIndent (.blanks (forall_mem_of_all (by decide)) ?_)
  refine .word hName (endsWord_cons (by decide) _) ?_
  refine .mark (by decide) (by decide) (by decide) ?_
  refine .blank (by decide) (spells_defaultValue ?_)
  refine .mark (by decide) (by decide) (by decide) ?_
  exact hRest.blank (by decide)

theorem spells_defaultFields
    {indent : List Char}
    (hIndent : ∀ c ∈ indent, isBlank c = true)
    {names : List String}
    (hNames : ∀ name ∈ names, IsIdentifier name.toList)
    (hRest : Spells rest lexemes) :
    Spells (names.flatMap (defaultFieldText indent) ++ rest)
      (names.flatMap defaultField ++ lexemes) := by
  induction names with
  | nil => exact hRest
  | cons name others ih =>
      rw [List.forall_mem_cons] at hNames
      rw [List.flatMap_cons, List.flatMap_cons, List.append_assoc,
        List.append_assoc]
      exact spells_defaultField hIndent hNames.1 (ih hNames.2)

/- The lexemes of default values with commas between them. -/
def defaultValues : Nat → List Lexeme
  | 0 => []
  | 1 => defaultValue
  | count + 2 =>
      defaultValue ++ .trees [.mark ',' false .nowhere] ::
        defaultValues (count + 1)

theorem nesting_defaultValues
    (count : Nat) :
    Nesting (defaultValues count)
      (commaSeparated (List.replicate count shortValueTokens)) := by
  induction count using defaultValues.induct with
  | case1 => exact .nil
  | case2 => exact nesting_defaultValue
  | case3 count ih =>
      rw [List.replicate_succ, List.replicate_succ, commaSeparated,
        List.append_assoc]
      · exact nesting_defaultValue.append (.trees [_] ih)
      · intro hNil
        cases hNil

/- No slash comes first in default values and what closes them. -/
theorem head?_defaultValues
    (separator : List Char)
    (count : Nat) :
    (Text.joinWith separator (List.replicate count defaultValueText) ++
      [')']).head? ≠ some '/' := by
  have hValue :
      defaultValueText = 'D' :: "efault::default()".toList := by
    decide
  rw [hValue]
  cases count with
  | zero => simp [Text.joinWith]
  | succ count =>
      cases count <;>
        simp [Text.joinWith, List.intercalate, List.replicate_succ]

theorem spells_defaultValues
    (count : Nat)
    (hRest : Spells rest lexemes) :
    Spells
      (Text.joinWith ", ".toList
          (List.replicate count defaultValueText) ++ rest)
      (defaultValues count ++ lexemes) := by
  have hComma : ", ".toList = [',', ' '] := by decide
  rw [hComma]
  induction count using defaultValues.induct with
  | case1 => exact hRest
  | case2 =>
      have hOne :
          Text.joinWith [',', ' ']
              (List.replicate 1 defaultValueText) =
            defaultValueText := by
        simp [Text.joinWith, List.intercalate]
      rw [hOne]
      exact spells_defaultValue hRest
  | case3 count ih =>
      have hMore :
          Text.joinWith [',', ' ']
              (List.replicate (count + 2) defaultValueText) =
            defaultValueText ++ ',' :: ' ' ::
              Text.joinWith [',', ' ']
                (List.replicate (count + 1) defaultValueText) := by
        simp [Text.joinWith, List.intercalate, List.replicate_succ]
      rw [hMore, defaultValues, List.append_assoc,
        List.append_assoc]
      refine spells_defaultValue ?_
      refine .mark (by decide) (by decide) (by decide) ?_
      exact ih.blank (by decide)

end Lexeme

namespace Fields

open Lexeme

/- The lexemes of the text of the body. -/
def lexemes : Fields → List Lexeme
  | named names =>
      .trees [.word "Self" .nowhere] :: .opening .brace .nowhere ::
        (names.flatMap defaultField ++ [.closing .brace .nowhere])
  | positional count =>
      .trees [.word "Self" .nowhere] ::
        .opening .parenthesis .nowhere ::
        (defaultValues count ++ [.closing .parenthesis .nowhere])
  | unit => [.trees [.word "Self" .nowhere]]

theorem nesting_lexemes
    (fields : Fields) :
    Nesting fields.lexemes fields.textTokens := by
  cases fields with
  | named names =>
      exact .trees [_] (.group (nesting_defaultFields names) .nil)
  | positional count =>
      exact .trees [_] (.group (nesting_defaultValues count) .nil)
  | unit => exact .trees [_] .nil

theorem spells_defaultText
    (fields : Fields)
    {indent : List Char}
    (hIndent : ∀ c ∈ indent, isBlank c = true)
    (hNames : ∀ name ∈ fields.names, IsIdentifier name.toList) :
    Spells (fields.defaultText indent) fields.lexemes := by
  have hSelf (rest : List Char) (lexemes : List Lexeme)
      (hEnd : EndsWord rest) (hRest : Spells rest lexemes) :
      Spells (indent ++ ("Self".toList ++ rest))
        (.trees [.word "Self" .nowhere] :: lexemes) :=
    .blanks hIndent (.word (by decide) hEnd hRest)
  cases fields with
  | named names =>
      have hText :
          defaultText indent (named names) =
            indent ++ ("Self".toList ++ ' ' :: '\x7b' ::
              (if names.isEmpty then ['\x7d'] else
                '\n' :: (names.flatMap (defaultFieldText indent) ++
                  (indent ++ ['\x7d'])))) := by
        cases names with
        | nil =>
            have hEmpty :
                "Self \x7b\x7d".toList =
                  "Self".toList ++ [' ', '\x7b', '\x7d'] := by
              decide
            rw [defaultText, hEmpty]
            rfl
        | cons name rest =>
            have hOpen :
                "Self \x7b\n".toList =
                  "Self".toList ++ [' ', '\x7b', '\n'] := by
              decide
            rw [defaultText, hOpen]
            · simp only [List.append_assoc, List.cons_append,
                List.nil_append]
              rfl
            · intro hNil
              cases hNil
      have hClose : Spells ['\x7d'] [.closing .brace .nowhere] :=
        .closing rfl .nil
      rw [hText]
      refine hSelf _ _ (endsWord_cons (by decide) _) ?_
      refine .blank (by decide) (.opening rfl ?_ ?_)
      · cases names <;> simp
      · cases names with
        | nil => exact hClose
        | cons name rest =>
            refine .blank (by decide) ?_
            exact spells_defaultFields hIndent hNames
              (hClose.blanks hIndent)
  | positional count =>
      have hOpen : "Self(".toList = "Self".toList ++ ['('] := by decide
      rw [defaultText, hOpen]
      simp only [List.append_assoc, List.cons_append, List.nil_append]
      refine hSelf _ _ (endsWord_cons (by decide) _) ?_
      refine .opening rfl ?_ ?_
      · exact head?_defaultValues _ count
      · exact spells_defaultValues count (.closing rfl .nil)
  | unit =>
      have hSingle := hSelf [] [] (fun c hHead => by cases hHead) .nil
      rw [List.append_nil] at hSingle
      exact hSingle

/- The text starts with its indent and a letter. -/
theorem head?_defaultText
    (fields : Fields)
    {indent : List Char}
    (hIndent : ∀ c ∈ indent, isBlank c = true) :
    (fields.defaultText indent).head? ≠ some byteOrderMark := by
  have hLetter :
      ∃ rest, fields.defaultText indent = indent ++ 'S' :: rest := by
    unfold defaultText
    split
    · exact ⟨"elf \x7b\x7d".toList, congrArg _ (by decide)⟩
    · have hOpen :
          "Self \x7b\n".toList = 'S' :: "elf \x7b\n".toList := by
        decide
      rw [hOpen]
      simp only [List.append_assoc, List.cons_append]
      exact ⟨_, rfl⟩
    · have hOpen : "Self(".toList = 'S' :: "elf(".toList := by decide
      rw [hOpen]
      simp only [List.append_assoc, List.cons_append]
      exact ⟨_, rfl⟩
    · exact ⟨"elf".toList, congrArg _ (by decide)⟩
  rcases hLetter with ⟨rest, hText⟩
  rw [hText]
  cases indent with
  | nil =>
      intro hHead
      cases hHead
  | cons c others =>
      intro hHead
      cases hHead
      exact absurd (hIndent _ List.mem_cons_self) (by decide +kernel)

theorem withoutFinalCommas_textTokens
    (fields : Fields) :
    withoutFinalCommas fields.textTokens =
      fields.tokensWith shortValueTokens := by
  have hNil : withoutFinalCommas [] = [] :=
    withoutFinalCommas_eq_self (by simp)
  cases fields with
  | named names =>
      have hFields :
          withoutFinalCommas
              ((names.map (fieldTokens shortValueTokens)).flatMap
                (· ++ generatedMark ",")) =
            (names.map (fieldTokens shortValueTokens)).flatMap
              (· ++ generatedMark ",") := by
        apply withoutFinalCommas_eq_self
        intro tree hMem
        rcases List.mem_flatMap.mp hMem with ⟨part, hPart, hTree⟩
        rcases List.mem_map.mp hPart with ⟨name, _, rfl⟩
        rcases List.mem_append.mp hTree with hField | hComma
        · exact withoutFinalCommas_fieldTokens name tree hField
        · exact TokenTree.withoutFinalCommas_mark hComma
      rw [textTokens, tokensWith, withoutFinalCommas_cons,
        withoutFinalCommas_cons, hNil,
        TokenTree.withoutFinalCommas_word,
        TokenTree.withoutFinalCommas_brace, hFields,
        dropFinalComma_flatMap]
  | positional count =>
      have hValues :
          withoutFinalCommas
              (commaSeparated
                (List.replicate count shortValueTokens)) =
            commaSeparated
              (List.replicate count shortValueTokens) := by
        apply withoutFinalCommas_eq_self
        intro tree hMem
        rcases mem_commaSeparated hMem with
          hComma | ⟨part, hPart, hTree⟩
        · exact TokenTree.withoutFinalCommas_mark hComma
        · rw [List.eq_of_mem_replicate hPart] at hTree
          exact withoutFinalCommas_shortValueTokens tree hTree
      rw [textTokens, tokensWith, withoutFinalCommas_cons,
        withoutFinalCommas_cons, hNil,
        TokenTree.withoutFinalCommas_word,
        TokenTree.withoutFinalCommas_parenthesis, hValues]
      simp
  | unit =>
      apply withoutFinalCommas_eq_self
      intro tree hMem
      rw [List.mem_singleton.mp hMem]
      exact TokenTree.withoutFinalCommas_word "Self"

theorem ofTokens?_textTokens
    (fields : Fields) :
    Initialisation.ofTokens? fields.textTokens =
      some (fields.initialised shortValueTokens) := by
  cases fields with
  | named names =>
      have hParts :
          ∀ part ∈ names.map (fieldTokens shortValueTokens),
            IsPart part := by
        intro part hPart
        rcases List.mem_map.mp hPart with ⟨name, _, rfl⟩
        exact isPart_fieldTokens isPart_shortValueTokens name
      simp only [textTokens, generatedWord, generatedGroup,
        Initialisation.ofTokens?, segments_flatMap hParts,
        mapM_field?, initialised, Option.map_some]
  | positional count =>
      exact ofTokens?_tokensWith isPart_shortValueTokens
        (positional count)
  | unit => rfl

/-
  The text of the body reads as its tokens, with the path of
  the default value shortened and no final comma.  In both,
  every declared field gets the default value, in order.
-/
theorem defaultText_reads_as_defaultTokens
    (fields : Fields)
    {indent : List Char}
    (hIndent : ∀ c ∈ indent, isBlank c = true)
    (hNames : ∀ name ∈ fields.names, IsIdentifier name.toList) :
    ∃ trees, Tokens.ofText? (fields.defaultText indent) = some trees ∧
      withoutFinalCommas trees.bare = shortened fields.defaultTokens ∧
      Initialisation.ofTokens? trees.bare =
        some (fields.initialised shortValueTokens) ∧
      Initialisation.ofTokens? fields.defaultTokens =
        some (fields.initialised defaultValueTokens) := by
  have hRead :=
    Tokens.ofText?_of_spells (head?_defaultText fields hIndent)
      (spells_defaultText fields hIndent hNames)
      (nesting_lexemes fields)
  rcases Option.map_eq_some_iff.mp hRead with ⟨trees, hTrees, hBare⟩
  refine ⟨trees, hTrees, ?_, ?_, ?_⟩
  · rw [hBare, withoutFinalCommas_textTokens, shortened_defaultTokens]
  · rw [hBare, ofTokens?_textTokens]
  · rw [defaultTokens_eq]
    exact ofTokens?_tokensWith isPart_defaultValueTokens fields

/- A record with a plain and a raw name, indented by a tab. -/
theorem defaultText_reads_as_defaultTokens_raw :
    ∃ trees,
      Tokens.ofText? ((named ["id", "r#type"]).defaultText ['\t']) =
        some trees ∧
      withoutFinalCommas trees.bare =
        shortened (named ["id", "r#type"]).defaultTokens ∧
      Initialisation.ofTokens? trees.bare =
        some (.named
          [("id", shortValueTokens), ("r#type", shortValueTokens)]) ∧
      Initialisation.ofTokens?
          (named ["id", "r#type"]).defaultTokens =
        some (.named
          [("id", defaultValueTokens),
            ("r#type", defaultValueTokens)]) :=
  defaultText_reads_as_defaultTokens (named ["id", "r#type"])
    (forall_mem_of_all (by decide)) (by decide)

end Fields

end Nullary
