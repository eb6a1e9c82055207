import Nullary.Proofs.Grammar.Echo.Items
import Nullary.Proofs.Grammar.Taking

/-
  The trees that an item is read from.

  An item starts with the first tree that it was read from
  and stops with the last one, which is a semicolon or a pair
  of braces, whatever else of it is printed in another way.

  Main declarations:
    * `Grammar.Complete`
    * `Grammar.Reads`
    * `Grammar.takes_itemBody`
    * `Grammar.takes_itemWith`
-/

namespace Nullary

open Nullary.Parser Nullary.Tokens

namespace Grammar

variable {g : Grammar}
variable {used before : Tokens}

------------------------------------------------------------
-- What Items Start With
------------------------------------------------------------

theorem starts_outerAttribute
    (g : Grammar) :
    Starts g.outerAttribute fun a =>
      if a.inner then [] else a.tokens := by
  intro taken value rest hRun
  rcases run_bind_eq_some hRun with ⟨hash, left, hHash, hTail⟩
  rcases run_bind_eq_some hTail with ⟨_, _, hGroup, hPure⟩
  cases hPure
  have hMark : "#".toList = ['#'] := rfl
  rcases eq_mark_of_run_mark hMark hHash with
    ⟨joint, span, hTrees, rfl⟩
  cases taken with
  | nil =>
      -- A mark was taken, so something was.
      have hSuffix := (within _ _).suffix_of_run hGroup
      have hLength := hSuffix.length_le
      rw [List.nil_append] at hTrees
      rw [hTrees, List.length_cons] at hLength
      omega
  | cons first more =>
      rw [List.cons_append] at hTrees
      have hFirst := (List.cons.inj hTrees).1
      exact ⟨first, more, _, _, rfl, rfl, by rw [hFirst]; rfl,
        by rw [hFirst]; rfl⟩

/- The tokens of attributes, one after the other. -/
theorem outerTokens_append
    (attributes : List Attribute)
    (a : Attribute) :
    Attribute.outerTokens (attributes ++ [a]) =
      Attribute.outerTokens attributes ++
        if a.inner then [] else a.tokens := by
  cases hInner : a.inner with
  | false => simp [Attribute.outerTokens, hInner]
  | true => simp [Attribute.outerTokens, hInner]

theorem aligns_outerAttributes
    (g : Grammar) :
    Aligns g.outerAttributes Attribute.outerTokens := by
  refine .many (Or.inl ⟨rfl, rfl⟩) ?_
  intro attributes used hAligned taken a rest hRun
  have hStarts := g.starts_outerAttribute taken a rest hRun
  rw [outerTokens_append]
  exact hAligned.append (Or.inr hStarts)

theorem aligns_visibility :
    Aligns visibility Visibility.tokens := by
  unfold visibility
  refine .branch ?_ (.pure (Or.inl ⟨rfl, rfl⟩))
  refine .start (starts_word _) (Or.inl ⟨rfl, rfl⟩)
    fun keyword used hStarts => ?_
  refine .branch ?_ ?_
  · refine .pass hStarts fun path used hStarts => ?_
    exact .pure (Or.inr (hStarts.right path))
  · refine .pass hStarts fun found used hStarts => ?_
    cases found with
    | none => exact .pure (Or.inr hStarts)
    | some found => exact .pure (Or.inr (hStarts.right found.2))

theorem starts_mark_colons :
    Starts (mark "::") fun tokens => tokens := by
  have hFirst : Starts (markChar ':' true) fun tree => [tree] := by
    intro taken value rest hRun
    rcases eq_of_run_markChar hRun with ⟨joint, span, hTrees, rfl⟩
    have hTaken := eq_singleton_of_append hTrees
    exact ⟨_, [], _, [], hTaken, rfl, rfl, rfl⟩
  change Starts
    (do
      let first ← markChar ':' true
      return first :: (← marks [':']))
    fun tokens => tokens
  refine .start hFirst (Or.inl ⟨rfl, rfl⟩)
    fun first used hStarts => ?_
  refine .pass hStarts fun second used hStarts => ?_
  exact .pure (hStarts.right second)

theorem starts_plainPath :
    Starts plainPath fun path => path.2.2 := by
  unfold plainPath
  have hSegment : Starts plainSegment fun tree => [tree] := by
    unfold plainSegment
    have hRequire :
        Takes []
          (require fun trees => trees.atName || trees.atPathWord)
          fun _ taken => taken = [] :=
      .branch (.pure rfl) .refuse
    refine .bind hRequire ?_
    rintro _ _ rfl
    exact starts_anyWord
  refine .align (aligns_when _ starts_mark_colons)
    (Or.inl ⟨rfl, rfl⟩) fun leading used hAligned => ?_
  refine .start hSegment hAligned fun first used hStarts => ?_
  refine .pass hStarts fun rest used hStarts => .pure ?_
  have hAll := hStarts.right
    (rest.flatMap fun part => part.1 ++ [part.2])
  simpa using hAll

theorem starts_abi :
    Starts abi fun tokens => tokens := by
  unfold abi
  refine .start (starts_word _) (Or.inl ⟨rfl, rfl⟩)
    fun keyword used hStarts => ?_
  refine .pass hStarts fun name used hStarts => ?_
  exact .pure (hStarts.right name)

theorem starts_signature
    (g : Grammar)
    (allowSafe : Bool) :
    Starts (g.signature allowSafe) Signature.tokens := by
  unfold signature
  refine .align (aligns_word? _) (Or.inl ⟨rfl, rfl⟩)
    fun constness used hAligned => ?_
  refine .align (aligns_word? _) hAligned
    fun asyncness used hAligned => ?_
  refine .align (aligns_word? _) hAligned
    fun unsafety used hAligned => ?_
  extract_lets afterSafety
  have hSafety :
      ∀ safety used,
        Aligned used
          ([] ++ constness ++ asyncness ++ unsafety ++ safety) →
        Takes used (afterSafety safety)
          fun s taken => StartsAlike taken s.tokens := by
    intro safety used hAligned
    refine .align (aligns_when _ starts_abi) hAligned
      fun convention used hAligned => ?_
    refine .start (starts_word _) hAligned
      fun keyword used hStarts => ?_
    refine .pass hStarts fun name used hStarts => ?_
    refine .pass hStarts fun generics used hStarts => ?_
    refine .pass hStarts ?_
    rintro ⟨⟨arguments, inputs⟩, span⟩ used hStarts
    refine .pass hStarts ?_
    rintro ⟨result, output⟩ used hStarts
    refine .pass hStarts fun clause used hStarts => .pure ?_
    exact ((hStarts.right _).right _).right _
  split
  · exact .align (aligns_word? _) hAligned hSafety
  · exact .pure_bind (hSafety [] _ (by simpa using hAligned))

------------------------------------------------------------
-- Items and the Trees They Were Read From
------------------------------------------------------------

/- What stands between the braces of a module. -/
def moduleContent
    (g : Grammar) : Parser (List Attribute × List Item) := do
  let inner ← g.innerAttributes
  let items ← manyToEnd g.item
  return (inner, items)

/- Trees that make up an item. -/
structure Complete
    (used : Tokens) : Prop where
  head :
    ∃ first more, used = first :: more ∧ first.startsItem = true
  last : ∃ tree, used.getLast? = some tree ∧ tree.endsItem = true

/-
  There are no items inside an item, or they were read from
  the braces that end it.
-/
def HoldsInside
    (g : Grammar)
    (used : Tokens)
    (item : Item) : Prop :=
  item.children = [] ∨
    ∃ content span inner,
      used.getLast? = some (.group .brace content span) ∧
        g.moduleContent.run content =
          some ((inner, item.children), [])

/- An item was read from trees and has their span. -/
structure Reads
    (g : Grammar)
    (used : Tokens)
    (item : Item) : Prop where
  complete : Complete used
  span : item.span = Tokens.span used
  inside : g.HoldsInside used item

/- An item, or something that is kept as written. -/
def Found
    (g : Grammar)
    (found : Option Item)
    (used : Tokens) : Prop :=
  Complete used ∧ ∀ item, found = some item → g.Reads used item

theorem complete_of
    {used before printed : Tokens}
    (hStarts : StartsAlike used before)
    (hStops : StopsAlike used printed) :
    Complete used := by
  rcases hStarts with ⟨first, more, _, _, hUsed, _, _, hFirst⟩
  rcases hStops with ⟨last, _, hLast, _, _, hEnds⟩
  exact ⟨⟨first, more, hUsed, hFirst⟩, ⟨last, hLast, hEnds⟩⟩

theorem found_none
    {printed : Tokens}
    (hStarts : StartsAlike used before)
    (hStops : StopsAlike used printed) :
    g.Found none used :=
  ⟨complete_of hStarts hStops, nofun⟩

theorem found_some
    {item : Item}
    (hStarts : StartsAlike used item.tokens)
    (hStops : StopsAlike used item.tokens)
    (hInside : g.HoldsInside used item) :
    g.Found (some item) used := by
  have hComplete := complete_of hStarts hStops
  refine ⟨hComplete, ?_⟩
  rintro _ ⟨⟩
  exact ⟨hComplete, span_eq_of_startsAlike hStarts hStops, hInside⟩

------------------------------------------------------------
-- Records and Enumerations
------------------------------------------------------------

/- The grammar gives back the braces of a record. -/
def FieldsFinish
    (g : Grammar) : Prop :=
  Finishes g.fields Prod.snd

theorem finishes_namedFields
    (g : Grammar) :
    Finishes g.namedFields Prod.snd := by
  unfold namedFields
  have hBraces :=
    finishes_braces (listUntil (·.isEmpty) "," g.namedField)
      fun fields => fields.flatMap fun field => field.1.2 ++ field.2
  refine .bind hBraces ?_
  rintro ⟨fields, span⟩ used hStops
  exact .pure hStops

theorem finishes_structBody
    (hFields : g.FieldsFinish)
    (hStarts : StartsAlike used before) :
    Takes used g.structBody fun found used' =>
      StartsAlike used' before ∧ StopsAlike used' found.2.2 := by
  unfold structBody
  refine .pass hStarts fun clause used hStarts => .branch ?_ (.branch ?_ ?_)
  · refine .pass hStarts ?_
    rintro ⟨count, fields⟩ used hStarts
    refine .pass hStarts fun clause used hStarts => ?_
    refine .finish finishes_semicolon hStarts
      fun semicolon used hStarts hStops => ?_
    exact .pure ⟨hStarts, hStops.right _⟩
  · refine .finish hFields hStarts ?_
    rintro ⟨names, fields⟩ used hStarts hStops
    exact .pure ⟨hStarts, hStops.right _⟩
  · refine .finish finishes_semicolon hStarts
      fun semicolon used hStarts hStops => ?_
    exact .pure ⟨hStarts, hStops.right _⟩

variable {attributes : List Attribute}
variable {visibility : Visibility}

theorem takes_structItem
    (hFields : g.FieldsFinish)
    (hAligned :
      Aligned used
        (Attribute.outerTokens attributes ++ visibility.tokens)) :
    Takes used (g.structItem attributes visibility)
      fun item used' =>
        StartsAlike used' item.tokens ∧ StopsAlike used' item.tokens := by
  unfold structItem
  refine .start (starts_word _) hAligned fun keyword used hStarts => ?_
  refine .pass hStarts fun name used hStarts => ?_
  refine .pass hStarts fun generics used hStarts => ?_
  refine .bind (finishes_structBody hFields hStarts) ?_
  rintro ⟨clause, fields, body⟩ used ⟨hStarts, hStops⟩
  exact .pure ⟨(hStarts.right _).right _, hStops.right _⟩

theorem takes_enumItem
    (hAligned :
      Aligned used
        (Attribute.outerTokens attributes ++ visibility.tokens)) :
    Takes used (g.enumItem attributes visibility)
      fun item used' => g.Found (some item) used' := by
  unfold enumItem
  refine .start (starts_word _) hAligned fun keyword used hStarts => ?_
  refine .pass hStarts fun name used hStarts => ?_
  refine .pass hStarts fun generics used hStarts => ?_
  refine .pass hStarts fun clause used hStarts => ?_
  refine .finish
    (finishes_braces _ fun variants =>
      variants.flatMap fun variant => variant.1.2 ++ variant.2)
    hStarts ?_
  rintro ⟨variants, span⟩ used hStarts hStops
  exact .pure (found_some (((hStarts.right _).right _).right _)
    (hStops.right _) (Or.inl rfl))

theorem takes_unionItem
    (hFields : g.FieldsFinish)
    (hAligned :
      Aligned used
        (Attribute.outerTokens attributes ++ visibility.tokens)) :
    Takes used (g.unionItem attributes visibility)
      fun item used' => g.Found (some item) used' := by
  unfold unionItem
  refine .start (starts_word _) hAligned fun keyword used hStarts => ?_
  refine .pass hStarts fun name used hStarts => ?_
  refine .pass hStarts fun generics used hStarts => ?_
  refine .pass hStarts fun clause used hStarts => ?_
  refine .finish hFields hStarts ?_
  rintro ⟨names, fields⟩ used hStarts hStops
  exact .pure (found_some (((hStarts.right _).right _).right _)
    (hStops.right _) (Or.inl rfl))

------------------------------------------------------------
-- Functions, Variables and Types
------------------------------------------------------------

theorem finishes_functionBody
    (g : Grammar) :
    Finishes g.functionBody Prod.snd := by
  unfold functionBody
  refine .bind (finishes_braces _ Prod.snd) ?_
  rintro ⟨⟨attributes, tokens⟩, span⟩ used hStops
  exact .pure hStops

theorem takes_functionItem
    (hAligned :
      Aligned used
        (Attribute.outerTokens attributes ++ visibility.tokens)) :
    Takes used (g.functionItem attributes visibility) g.Found := by
  unfold functionItem
  refine .start (g.starts_signature false) hAligned
    fun signature used hStarts => .branch ?_ ?_
  · refine .finish finishes_semicolon hStarts
      fun semicolon used hStarts hStops => ?_
    exact .pure (found_none hStarts hStops)
  · refine .finish g.finishes_functionBody hStarts ?_
    rintro ⟨inner, body⟩ used hStarts hStops
    exact .pure (found_some (hStarts.right _) (hStops.right _) (Or.inl rfl))

theorem takes_staticItem
    (hAligned :
      Aligned used
        (Attribute.outerTokens attributes ++ visibility.tokens)) :
    Takes used (g.staticItem attributes visibility) g.Found := by
  unfold staticItem
  refine .start (starts_word _) hAligned fun keyword used hStarts => ?_
  refine .pass hStarts fun mutability used hStarts => ?_
  refine .pass hStarts fun name used hStarts => .branch ?_ ?_
  · refine .pass hStarts fun equals used hStarts => ?_
    refine .pass hStarts fun value used hStarts => ?_
    refine .finish finishes_semicolon hStarts
      fun semicolon used hStarts hStops => ?_
    exact .pure (found_none hStarts hStops)
  · refine .pass hStarts fun colon used hStarts => ?_
    refine .pass hStarts fun type used hStarts => .branch ?_ ?_
    · refine .finish finishes_semicolon hStarts
        fun semicolon used hStarts hStops => ?_
      exact .pure (found_none hStarts hStops)
    · refine .pass hStarts fun equals used hStarts => ?_
      refine .pass hStarts fun value used hStarts => ?_
      refine .finish finishes_semicolon hStarts
        fun semicolon used hStarts hStops => ?_
      have hHead := (hStarts.right mutability).right (name :: colon)
      refine .pure (found_some ?_ (hStops.right _) (Or.inl rfl))
      exact (((hHead.right _).right _).right _).right _

/- A constant from its keyword on. -/
theorem takes_constant
    (g : Grammar) :
    Takes [] g.constant fun found taken =>
      StartsAlike taken found.1 ∧ StopsAlike taken found.1 := by
  unfold constant
  refine .start (starts_word _) (Or.inl ⟨rfl, rfl⟩)
    fun keyword used hStarts => ?_
  refine .look fun trees => .pass_either hStarts
    fun name used hStarts => ?_
  refine .pass hStarts fun generics used hStarts => ?_
  refine .pass hStarts fun colon used hStarts => ?_
  refine .pass hStarts fun type used hStarts => ?_
  refine .pass hStarts fun value used hStarts => ?_
  refine .pass hStarts fun clause used hStarts => ?_
  refine .finish finishes_semicolon hStarts
    fun semicolon used hStarts hStops => .pure ⟨?_, hStops.right _⟩
  exact (((hStarts.right _).right _).right _).right _

/- A type declaration from its keyword on. -/
theorem takes_typeDeclaration
    (g : Grammar)
    (place : ClausePlace) :
    Takes [] (g.typeDeclaration place) fun t taken =>
      StartsAlike taken t.head ∧ StopsAlike taken t.semicolon := by
  unfold typeDeclaration
  refine .start (starts_word _) (Or.inl ⟨rfl, rfl⟩)
    fun keyword used hStarts => ?_
  refine .pass hStarts fun name used hStarts => ?_
  refine .pass hStarts fun generics used hStarts => ?_
  refine .pass hStarts fun colon used hStarts => ?_
  refine .pass_either hStarts fun bounds used hStarts => ?_
  refine .pass_either hStarts fun first used hStarts => ?_
  refine .pass hStarts fun value used hStarts => ?_
  refine .pass_either hStarts fun last used hStarts => ?_
  refine .finish finishes_semicolon hStarts
    fun semicolon used hStarts hStops => ?_
  exact .pure ⟨hStarts.right _, hStops⟩

------------------------------------------------------------
-- Imports and Calls
------------------------------------------------------------

theorem takes_externCrate :
    Takes [] externCrate fun tokens taken =>
      StartsAlike taken tokens ∧ StopsAlike taken tokens := by
  unfold externCrate
  refine .start (starts_word _) (Or.inl ⟨rfl, rfl⟩)
    fun keyword used hStarts => ?_
  refine .pass hStarts fun crate used hStarts => ?_
  refine .look fun trees => .pass_either hStarts
    fun name used hStarts => ?_
  have hRenamed :
      ∀ (renamed used : Tokens), StartsAlike used ([] ++ keyword) →
        Takes used
          (do
            let semicolon ← mark ";"
            return keyword ++ crate ++ name :: renamed ++ semicolon)
          fun tokens taken =>
            StartsAlike taken tokens ∧ StopsAlike taken tokens := by
    intro renamed used hStarts
    refine .finish finishes_semicolon hStarts
      fun semicolon used hStarts hStops => ?_
    exact .pure ⟨((hStarts.right _).right _).right _, hStops.right _⟩
  refine .branch ?_ (.pure_bind (hRenamed [] used hStarts))
  refine .pass hStarts fun keyword' used hStarts => ?_
  refine .pass hStarts fun name' used hStarts => ?_
  exact .pure_bind (hRenamed _ used hStarts)

theorem takes_useItem
    {head : Tokens}
    (hAligned : Aligned used head) :
    Takes used (g.useItem head) fun found used' =>
      Complete used' ∧
        ∀ tokens, found = some tokens →
          StartsAlike used' tokens ∧ StopsAlike used' tokens := by
  unfold useItem
  refine .start (starts_word _) hAligned fun keyword used hStarts => ?_
  refine .pass hStarts fun leading used hStarts => ?_
  refine .pass hStarts fun tree used hStarts => ?_
  refine .finish finishes_semicolon hStarts
    fun semicolon used hStarts hStops => ?_
  refine .pure ⟨complete_of hStarts hStops, ?_⟩
  intro tokens hTokens
  rcases Option.map_eq_some_iff.mp hTokens with ⟨found, _, rfl⟩
  exact ⟨((hStarts.right _).right _).right _, hStops.right _⟩

theorem takes_anyGroup :
    Takes [] anyGroup fun tree taken => taken = [tree] := by
  intro taken tree rest hRun
  rcases eq_cons_of_run_tree hRun with ⟨first, hTrees, hRead⟩
  have hTaken := eq_singleton_of_append hTrees
  split at hRead
  · cases hRead
    exact hTaken
  · cases hRead

/- A macro call ends with its braces or with a semicolon. -/
theorem takes_itemMacro :
    Takes [] itemMacro fun tokens taken =>
      StartsAlike taken tokens ∧ StopsAlike taken tokens := by
  unfold itemMacro
  refine .start starts_plainPath (Or.inl ⟨rfl, rfl⟩) ?_
  rintro ⟨leading, segments, path⟩ used hStarts
  refine .pass hStarts fun bang used hStarts => ?_
  have hName :
      ∀ (name used : Tokens), StartsAlike used ([] ++ path) →
        Takes used
          (do
            let body ← anyGroup
            let semicolon ←
              if Tokens.atGroup .brace [body] then pure []
              else mark ";"
            return path ++ bang ++ name ++ [body] ++ semicolon)
          fun tokens taken =>
            StartsAlike taken tokens ∧ StopsAlike taken tokens := by
    intro name used hStarts
    refine .bind (.of_nil takes_anyGroup) ?_
    rintro body _ ⟨taken, rfl, rfl⟩
    have hHead := ((hStarts.left [body]).right bang).right name
    dsimp only
    split
    · next hBrace =>
        have hEnds : body.endsItem = true := by
          cases body with
          | group => simpa [TokenTree.endsItem, atGroup] using hBrace
          | _ => simp [atGroup] at hBrace
        have hStops := (stopsAlike_singleton rfl hEnds).left used
        refine .pure_bind (.pure ?_)
        rw [List.append_nil]
        exact ⟨hHead.right _, hStops.right _⟩
    · refine .finish finishes_semicolon hHead
        fun semicolon used hHead hStops => ?_
      exact .pure ⟨(hHead.right _).right _, hStops.right _⟩
  refine .branch ?_ (.pure_bind (hName [] used hStarts))
  refine .pass hStarts fun name used hStarts => ?_
  exact .pure_bind (hName _ used hStarts)

/- A macro definition is kept as written. -/
theorem takes_macroDefinition
    (hAligned : Aligned used before) :
    Takes used macroDefinition fun _ used' => Complete used' := by
  unfold macroDefinition
  refine .start (starts_word _) hAligned fun keyword used hStarts => ?_
  refine .pass hStarts fun name used hStarts => ?_
  refine .pass hStarts fun parameters used hStarts => ?_
  have hBraces : Finishes (rawGroup .brace) fun tokens => tokens := by
    intro taken tokens rest hRun
    rcases run_bind_eq_some hRun with ⟨_, _, hRequire, hTail⟩
    rcases of_run_require hRequire with ⟨rfl, hTest⟩
    rcases run_bind_eq_some hTail with ⟨tree, _, hGroup, hPure⟩
    cases hPure
    have hTaken := takes_anyGroup taken tree rest hGroup
    rw [List.nil_append] at hTaken ⊢
    rw [hTaken] at hTest ⊢
    refine stopsAlike_singleton rfl ?_
    cases tree with
    | group => simpa [TokenTree.endsItem, atGroup] using hTest
    | _ => simp [atGroup] at hTest
  refine .finish hBraces hStarts fun body used hStarts hStops => ?_
  exact .pure (complete_of hStarts hStops)

------------------------------------------------------------
-- Traits, Implementations and Modules
------------------------------------------------------------

theorem takes_foreignModule
    (hAligned : Aligned used (Attribute.outerTokens attributes)) :
    Takes used (g.foreignModule attributes) fun tokens used' =>
      StartsAlike used' tokens ∧ StopsAlike used' tokens := by
  unfold foreignModule
  refine .align (aligns_word? _) hAligned
    fun unsafety used hAligned => ?_
  refine .start starts_abi hAligned fun convention used hStarts => ?_
  refine .finish (finishes_group _) hStarts
    fun body used hStarts hStops => ?_
  exact .pure ⟨hStarts.right _, hStops.right _⟩

theorem finishes_traitBody
    (g : Grammar) :
    Finishes g.traitBody fun found => found.2.2 := by
  unfold traitBody
  refine .bind (finishes_braces _ fun found => found.2.2) ?_
  rintro ⟨⟨attributes, members, tokens⟩, span⟩ used hStops
  exact .pure hStops

theorem finishes_implBody
    (g : Grammar) :
    Finishes g.implBody fun found => found.2.2 := by
  unfold implBody
  refine .bind (finishes_braces _ fun found => found.2.2) ?_
  rintro ⟨⟨attributes, members, tokens⟩, span⟩ used hStops
  exact .pure hStops

theorem takes_traitItem
    (hAligned :
      Aligned used
        (Attribute.outerTokens attributes ++ visibility.tokens)) :
    Takes used (g.traitItem attributes visibility)
      fun item used' => g.Found (some item) used' := by
  unfold traitItem
  refine .align (aligns_word? _) hAligned
    fun unsafety used hAligned => ?_
  refine .align (aligns_word? _) hAligned fun auto used hAligned => ?_
  refine .start (starts_word _) hAligned fun keyword used hStarts => ?_
  refine .pass hStarts fun name used hStarts => ?_
  refine .pass hStarts fun generics used hStarts => .branch ?_ ?_
  · refine .pass hStarts fun equals used hStarts => ?_
    refine .pass hStarts fun bounds used hStarts => ?_
    refine .pass hStarts fun clause used hStarts => ?_
    refine .finish finishes_semicolon hStarts
      fun semicolon used hStarts hStops => ?_
    refine .pure (found_some ?_ (hStops.right _) (Or.inl rfl))
    exact ((((hStarts.right _).right _).right _).right _).right _
  · refine .pass hStarts fun colon used hStarts => ?_
    refine .pass_either hStarts fun bounds used hStarts => ?_
    refine .pass hStarts fun clause used hStarts => ?_
    refine .finish g.finishes_traitBody hStarts ?_
    rintro ⟨inner, members, body⟩ used hStarts hStops
    refine .pure (found_some ?_ (hStops.right _) (Or.inl rfl))
    exact (((hStarts.right _).right _).right _).right _

theorem takes_implItem
    (hAligned :
      Aligned used
        (Attribute.outerTokens attributes ++ visibility.tokens))
    (hInherited :
      visibility.scope = .inherited → visibility.tokens = []) :
    Takes used (g.implItem attributes visibility)
      fun found used' => g.Found (found.map .impl) used' := by
  unfold implItem
  refine .align (aligns_word? _) hAligned fun default used hAligned => ?_
  refine .align (aligns_word? _) hAligned
    fun unsafety used hAligned => ?_
  refine .start (starts_word _) hAligned fun keyword used hStarts => ?_
  refine .look fun trees => .pass_either hStarts
    fun generics used hStarts => ?_
  refine .look fun constant => ?_
  extract_lets afterConstant
  have hConstant :
      ∀ used,
        StartsAlike used
          (Attribute.outerTokens attributes ++ visibility.tokens ++
            default ++ unsafety ++ keyword) →
        Takes used (afterConstant ())
          fun found used' => g.Found (found.map .impl) used' := by
    intro used hStarts
    refine .pass hStarts ?_
    rintro ⟨ofTrait, apart, self, target⟩ used hStarts
    refine .pass hStarts fun clause used hStarts => ?_
    refine .finish g.finishes_implBody hStarts ?_
    rintro ⟨inner, members, body⟩ used hStarts hStops
    dsimp only
    split
    · exact .pure (found_none hStarts hStops)
    · next hTaken =>
        simp only [Bool.or_eq_true, decide_eq_true_eq, not_or,
          Bool.not_eq_true, ne_eq, Decidable.not_not] at hTaken
        rw [hInherited hTaken.1.1, List.append_nil] at hStarts
        refine .pure (found_some ?_ (hStops.right _) (Or.inl rfl))
        exact (((hStarts.right _).right _).right _).right _
  split
  · refine .pass hStarts fun question used hStarts => ?_
    exact .pass hStarts fun _ used hStarts => hConstant used hStarts
  · exact hConstant used hStarts

theorem takes_moduleItem
    (hAligned :
      Aligned used
        (Attribute.outerTokens attributes ++ visibility.tokens)) :
    Takes used (g.moduleItem attributes visibility)
      fun item used' => g.Found (some item) used' := by
  unfold moduleItem
  refine .align (aligns_word? _) hAligned
    fun unsafety used hAligned => ?_
  refine .start (starts_word _) hAligned fun keyword used hStarts => ?_
  refine .look fun trees => .pass_either hStarts
    fun name used hStarts => .branch ?_ ?_
  · refine .finish finishes_semicolon hStarts
      fun semicolon used hStarts hStops => ?_
    exact .pure (found_some ((hStarts.right _).right _)
      (hStops.right _) (Or.inl rfl))
  · refine .bind (.of_nil (takes_braces g.moduleContent)) ?_
    rintro ⟨⟨inner, items⟩, span⟩ _ ⟨_, rfl, content, rfl, hContent⟩
    have hLast :
        StopsAlike [.group .brace content span]
          [.group .brace
            (Attribute.innerTokens inner ++ items.flatMap (·.tokens))
            span] :=
      stopsAlike_singleton rfl rfl
    refine .pure (found_some (((hStarts.left _).right _).right _)
      ((hLast.left used).right _) (Or.inr ?_))
    exact ⟨content, span, inner, by simp, hContent⟩

------------------------------------------------------------
-- Items
------------------------------------------------------------

/- A parsed item, given as one that may be left unparsed. -/
theorem takes_some
    {p : Parser Item}
    (hItem : Takes used p fun item used' => g.Found (some item) used') :
    Takes used (p >>= fun item => pure (some item)) g.Found :=
  .bind hItem fun _ _ hFound => .pure hFound

/- Tokens of their own, printed after those before them. -/
theorem takes_bare
    {p : Parser Tokens}
    (hTokens :
      Takes [] p fun tokens taken =>
        StartsAlike taken tokens ∧ StopsAlike taken tokens)
    (hAligned : Aligned used before) :
    Takes used
      (p >>= fun tokens => pure (some (.bare (before ++ tokens))))
      g.Found := by
  refine .bind (.of_nil hTokens) ?_
  rintro tokens _ ⟨taken, rfl, hStarts, hStops⟩
  exact .pure (found_some (hAligned.startsAlike hStarts)
    ((hStops.left used).right before) (Or.inl rfl))

theorem takes_itemBody
    (hFields : g.FieldsFinish)
    (hAligned : Aligned used (Attribute.outerTokens attributes)) :
    Takes used (g.itemBody attributes) g.Found := by
  unfold itemBody
  have hVisibility :
      Takes [] visibility fun found taken =>
        Aligned taken found.tokens ∧
          (found.scope = .inherited → found.tokens = []) :=
    fun taken found rest hRun =>
      ⟨aligns_visibility taken found rest hRun,
        tokens_eq_nil_of_inherited hRun⟩
  refine .bind (.of_nil hVisibility) ?_
  rintro visibility _ ⟨taken, rfl, hTaken, hInherited⟩
  have hHead := hAligned.append hTaken
  extract_lets inherited head
  refine .branch (takes_functionItem hHead) ?_
  refine .branch (takes_bare takes_externCrate hHead) ?_
  refine .branch_of_test ?foreign ?_
  case foreign =>
    intro trees hTest
    have hScope : visibility.scope = .inherited := by
      simp [inherited] at hTest
      exact hTest.1
    rw [hInherited hScope, List.append_nil] at hHead
    refine .bind (takes_foreignModule hHead) ?_
    rintro tokens used ⟨hStarts, hStops⟩
    exact .pure (found_some hStarts hStops (Or.inl rfl))
  refine .branch ?use ?_
  case use =>
    refine .bind (takes_useItem hHead) ?_
    rintro found used ⟨hComplete, hTokens⟩
    refine .pure ?_
    cases found with
    | none => exact ⟨hComplete, nofun⟩
    | some tokens =>
        rcases hTokens tokens rfl with ⟨hStarts, hStops⟩
        exact found_some hStarts hStops (Or.inl rfl)
  refine .branch (takes_staticItem hHead) ?_
  refine .branch ?constant ?_
  case constant =>
    refine .bind (.of_nil g.takes_constant) ?_
    rintro ⟨tokens, generic, valued⟩ _
      ⟨taken', rfl, hStarts, hStops⟩
    have hStarts := hHead.startsAlike hStarts
    have hStops := (hStops.left (used ++ taken)).right head
    refine .pure ?_
    split
    · exact found_none hStarts hStops
    · exact found_some hStarts hStops (Or.inl rfl)
  refine .branch (takes_some (takes_moduleItem hHead)) ?_
  refine .branch ?type ?_
  case type =>
    refine .bind (.of_nil (g.takes_typeDeclaration _)) ?_
    rintro t _ ⟨taken', rfl, hStarts, hStops⟩
    have hStarts := hHead.startsAlike hStarts
    have hStops := hStops.left (used ++ taken)
    refine .pure ?_
    split
    · exact found_none hStarts hStops
    · exact found_some (((hStarts.right _).right _).right _)
        (hStops.right _) (Or.inl rfl)
  refine .branch ?struct ?_
  case struct =>
    refine .bind (takes_structItem hFields hHead) ?_
    rintro item used ⟨hStarts, hStops⟩
    exact .pure (found_some hStarts hStops (Or.inl rfl))
  refine .branch (takes_some (takes_enumItem hHead)) ?_
  refine .branch (takes_some (takes_unionItem hFields hHead)) ?_
  refine .branch (takes_some (takes_traitItem hHead)) ?_
  refine .branch ?impl ?_
  case impl =>
    refine .bind (takes_implItem hHead hInherited) ?_
    intro found used hFound
    exact .pure hFound
  refine .branch ?definition ?_
  case definition =>
    refine .bind (takes_macroDefinition hHead) ?_
    intro _ used hComplete
    exact .pure ⟨hComplete, nofun⟩
  exact .branch (takes_bare takes_itemMacro hHead) .refuse

/- An item is read from the trees that are taken for it. -/
theorem takes_itemWith
    (hFields : g.FieldsFinish) :
    Takes [] g.itemWith fun item taken => g.Reads taken item := by
  have hBody :
      Takes []
        (do
          let attributes ← g.outerAttributes
          g.itemBody attributes)
        g.Found := by
    refine .bind g.aligns_outerAttributes ?_
    intro attributes used hAligned
    exact takes_itemBody hFields hAligned
  refine .bind (.written hBody) ?_
  rintro ⟨found, _⟩ used ⟨hFound, rfl⟩
  cases found with
  | none => exact .pure ⟨hFound.1, rfl, Or.inl rfl⟩
  | some item => exact .pure (hFound.2 item rfl)

end Grammar

end Nullary
