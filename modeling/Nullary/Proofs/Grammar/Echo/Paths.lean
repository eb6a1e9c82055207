import Nullary.Proofs.Grammar.Echo.Basic

/-
  Paths, bounds and arguments are printed with the tokens
  they were written with.

  Main declarations:
    * `Grammar.texts_inOrder`
    * `Grammar.Echoes.angled`
    * `Grammar.echo_of_colon`
    * `Grammar.solid_path`
    * `Grammar.solid_bound`
    * `Grammar.echoes_angleArguments`
-/

namespace Nullary

open Nullary.Parser Nullary.Tokens

namespace Grammar

variable {α β : Type}
variable {g : Grammar}
variable {strict : Bool}
variable {trees rest : Tokens}
variable {stop : Tokens → Bool}

------------------------------------------------------------
-- Lists in Angle Brackets
------------------------------------------------------------

theorem isEmpty_texts
    (trees : Tokens) :
    trees.texts.isEmpty = trees.isEmpty := by
  cases trees with
  | nil => simp
  | cons tree rest =>
      have hTree := tree.texts_ne_nil
      simp [hTree]

/- The values of a list with their texts. -/
def valueTexts
    (values : List ((Bool × Tokens) × Tokens)) :
    List ((Bool × List String) × List String) :=
  values.map fun value => ((value.1.1, value.1.2.texts), value.2.texts)

theorem texts_inOrder
    (values : List ((Bool × Tokens) × Tokens)) :
    (inOrder values).texts = lifetimesFirst (valueTexts values) := by
  unfold inOrder lifetimesFirst valueTexts
  simp only [texts_append, texts_flatMap, List.filter_map,
    List.flatMap_map, List.getLast?_map, List.isEmpty_map,
    Option.all_map, Function.comp_def, isEmpty_texts]
  congr 2
  split <;> simp

/- The values of a list by their kind and their tokens. -/
def keyed
    (first : α → Bool)
    (print : α → Tokens)
    (values : List (α × Tokens)) :
    List ((Bool × Tokens) × Tokens) :=
  values.map fun value => ((first value.1, print value.1), value.2)

theorem texts_keyed
    (first : α → Bool)
    (print : α → Tokens)
    (values : List (α × Tokens)) :
    (valueTexts (keyed first print values)).flatMap
        (fun value => value.1.2 ++ value.2) =
      Tokens.texts (values.flatMap fun value => print value.1 ++ value.2) := by
  simp [valueTexts, keyed, List.flatMap_map, texts_flatMap]

/- A list in angle brackets whose values are printed in order. -/
theorem echo_of_angled
    {p : Parser α}
    {first : α → Bool}
    {print : α → Tokens}
    (hValue : EchoesAs false p print)
    (hFirst :
      ∀ trees value rest, p.run trees = some (value, rest) →
        first value = true → "'" ∈ (print value).texts)
    {left left' opening closing : Tokens}
    {values : List (α × Tokens)}
    (hOpening : (mark "<").run trees = some (opening, left))
    (hValues :
      (listUntil (·.atMark ">") "," p).run left = some (values, left'))
    (hClosing : (mark ">").run left' = some (closing, rest)) :
    ∃ taken, trees = taken ++ rest ∧
      Echo strict rest.texts taken
        (opening ++ inOrder (keyed first print values) ++ closing) := by
  have hOpen : "<".toList = ['<'] := rfl
  have hComma : ",".toList = [','] := rfl
  have hClose : ">".toList = ['>'] := rfl
  have hListed := listed_of_run_listUntil hValues
  rcases hValue.listUntil left values left' hValues with
    ⟨taken, rfl, hTaken⟩
  rcases eq_mark_of_run_mark hOpen hOpening with ⟨joint, span, rfl, rfl⟩
  rcases eq_mark_of_run_mark hClose hClosing with
    ⟨joint', span', rfl, rfl⟩
  have hClosed :
      Echo strict rest.texts [.mark '>' joint' span']
        [.mark '>' false span'] :=
    .singleton (.refl _ _) rfl rfl
  have hList :
      Reprints rest.texts
        ("<" :: (taken.texts ++ [">"]))
        ("<" :: (lifetimesFirst (valueTexts (keyed first print values)) ++
          [">"])) := by
    refine .lifetimesFirst ?_ ?_ ?_
    · simp only [valueTexts, keyed, List.map_map, List.mem_map]
      rintro _ ⟨found, hFound, rfl⟩
      exact hListed.forall_kept hFirst found hFound
    · simp only [valueTexts, keyed, List.map_map, List.mem_map]
      rintro _ ⟨found, hFound, rfl⟩
      rcases hListed.forall_separator hComma found hFound with
        hNone | ⟨span, hMark⟩
      · exact Or.inl (by simp [hNone])
      · exact Or.inr (by simp [hMark])
    · rw [texts_keyed]
      refine .append (.same _ "<") (.append ?_ (.same _ ">"))
      exact hTaken.reprints
  refine ⟨.mark '<' joint span :: (taken ++ [.mark '>' joint' span']),
    by simp, ?_, fun hStrict => ?_⟩
  · simpa [texts_inOrder] using hList
  · exact (hClosed.sameEnd hStrict).append_of_ne_nil
      (.mark '<' joint span :: taken) _ (List.cons_ne_nil _ _)

theorem Echoes.angled
    {before : Tokens}
    {p : Parser (Bool × Tokens)}
    {next : Tokens → List ((Bool × Tokens) × Tokens) → Tokens → Parser β}
    {post : β → Tokens → Prop}
    (hValue :
      Echoes false [] p fun value printed =>
        printed = value.2 ∧ (value.1 = true → "'" ∈ value.2.texts))
    (hNext :
      ∀ opening values closing,
        Echoes strict (before ++ (opening ++ inOrder values ++ closing))
          (next opening values closing) post) :
    Echoes strict before
      (do
        let opening ← mark "<"
        let values ← listUntil (·.atMark ">") "," p
        let closing ← mark ">"
        next opening values closing)
      post := by
  intro written trees value rest hEcho hRun
  rcases run_bind_eq_some hRun with ⟨opening, left₁, hOpening, hRun⟩
  rcases run_bind_eq_some hRun with ⟨values, left₂, hValues, hRun⟩
  rcases run_bind_eq_some hRun with ⟨closing, left₃, hClosing, hTail⟩
  have hPrinted : EchoesAs false p Prod.snd :=
    .of_echoes (hValue.weaken fun _ _ hPost => hPost.1)
  have hFirst :
      ∀ trees value rest, p.run trees = some (value, rest) →
        value.1 = true → "'" ∈ value.2.texts := by
    intro trees value rest hRun
    rcases hValue [] trees value rest .nil hRun with
      ⟨_, _, _, hPost, _⟩
    exact hPost.2
  rcases echo_of_angled hPrinted hFirst hOpening hValues hClosing with
    ⟨taken, rfl, hTaken⟩
  have hKeyed : keyed Prod.fst Prod.snd values = values := List.map_id' _
  rw [hKeyed] at hTaken
  exact (hNext opening values closing).resume hEcho hTaken hTail

------------------------------------------------------------
-- What Ends a List
------------------------------------------------------------

/- The text of a mark that comes next. -/
theorem head?_texts_of_atMark
    {operator : String}
    {c : Char}
    (hOperator : operator.toList = [c])
    (hMark : trees.atMark operator = true) :
    trees.texts.head? = some c.toString := by
  unfold atMark at hMark
  rw [hOperator] at hMark
  unfold atMarks at hMark
  split at hMark
  · next hChars =>
      cases hChars
      rw [eq_of_beq hMark]
      simp
  · next hMore hChars =>
      cases hChars
      exact absurd rfl hMore
  · cases hMark

theorem ends_of_atMark
    {operator : String}
    {c : Char}
    (hOperator : operator.toList = [c])
    (hEnd : c.toString ∈ endTexts)
    (hMark : trees.atMark operator = true) :
    Ends trees.texts := by
  intro text hText
  rw [head?_texts_of_atMark hOperator hMark] at hText
  cases hText
  exact hEnd

theorem ends_of_atGroup
    (hGroup : trees.atGroup .brace = true) :
    Ends trees.texts := by
  unfold atGroup at hGroup
  split at hGroup
  · next found content span rest =>
      rw [eq_of_beq hGroup]
      intro text hText
      simp only [texts_cons, TokenTree.texts_group, List.cons_append,
        List.head?_cons, Option.some.injEq] at hText
      subst hText
      decide
  · cases hGroup

theorem ends_of_isEmpty
    (hEmpty : trees.isEmpty = true) :
    Ends trees.texts := by
  rw [List.isEmpty_iff.mp hEmpty]
  intro text hText
  simp at hText

/-
  A list of constructs that have tokens is printed as nothing
  only if it is empty.
-/
theorem run_of_run_flatten
    {p : Parser (List (Tokens × Tokens))}
    (hSolid :
      ∀ trees values rest, p.run trees = some (values, rest) →
        ∀ value ∈ values, value.1 ≠ [])
    (hRun : (flatten <$> p).run trees = some ([], rest)) :
    p.run trees = some ([], rest) := by
  change (p >>= fun values => pure (flatten values)).run trees = _ at hRun
  rcases run_bind_eq_some hRun with ⟨values, left, hValues, hPure⟩
  have hPair : (flatten values, left) = (([] : Tokens), rest) :=
    Option.some.inj hPure
  rcases Prod.mk.inj hPair with ⟨hFlat, rfl⟩
  have hAll := hSolid trees values left hValues
  cases values with
  | nil => exact hValues
  | cons value others =>
      rw [flatten, List.flatMap_cons, List.append_eq_nil_iff,
        List.append_eq_nil_iff] at hFlat
      exact absurd hFlat.1.1 (hAll value List.mem_cons_self)

theorem of_run_flatten_nil
    {separator : String}
    {p : Parser Tokens}
    (hSolid : EchoesSolid p fun tokens => tokens)
    (hRun :
      (flatten <$> listWhile stop separator p).run trees =
        some ([], rest)) :
    rest = trees ∧ stop trees = true := by
  have hNil :=
    run_of_run_flatten
      (fun _ _ _ hValues =>
        (listed_of_run_listWhile hValues).forall_kept hSolid.ne_nil)
      hRun
  exact (listed_of_run_listWhile hNil).of_nil

/-
  Bounds after a colon.  A colon that none follow is not
  printed, and stands before the end of a list.
-/
theorem echo_of_colon
    {p : Parser Tokens}
    (hBounds : EchoesAs strict p fun tokens => tokens)
    (hNone :
      ∀ trees rest, p.run trees = some ([], rest) →
        rest = trees ∧ Ends trees.texts)
    {left colon bounds : Tokens}
    (hColon : (mark? ":").run trees = some (colon, left))
    (hRun :
      (if colon.isEmpty then pure [] else p).run left =
        some (bounds, rest)) :
    ∃ taken dropped, trees = taken ++ (dropped ++ rest) ∧
      DanglingColon dropped rest ∧
      Echo strict (texts (dropped ++ rest)) taken
        (if bounds.isEmpty then [] else colon ++ bounds) := by
  have hMark : ":".toList = [':'] := rfl
  rcases run_bind_eq_some hColon with ⟨_, _, hSees, hColon⟩
  cases hSees
  split at hColon
  · rcases eq_mark_of_run_mark hMark hColon with ⟨joint, span, rfl, rfl⟩
    have hFound : p.run left = some (bounds, rest) := hRun
    cases bounds with
    | nil =>
        rcases hNone left rest hFound with ⟨rfl, hEnds⟩
        refine ⟨[], [.mark ':' joint span], rfl, Or.inr ?_, .nil⟩
        exact ⟨joint, span, rfl, hEnds⟩
    | cons first others =>
        rcases hBounds left _ rest hFound with ⟨taken, rfl, hTaken⟩
        refine ⟨.mark ':' joint span :: taken, [], rfl, Or.inl rfl, ?_⟩
        have hFirst :
            Echo strict (taken.texts ++ rest.texts)
              [.mark ':' joint span] [.mark ':' false span] :=
          .singleton (.refl _ _) rfl rfl
        exact hFirst.append hTaken
  · cases hColon
    cases hRun
    exact ⟨[], [], rfl, Or.inl rfl, .nil⟩

------------------------------------------------------------
-- Bound Lifetimes
------------------------------------------------------------

/- What ends the bounds of a parameter. -/
theorem ends_of_parameter
    (hStop : (trees.atMark "," || trees.atMark ">") = true) :
    Ends trees.texts := by
  rw [Bool.or_eq_true] at hStop
  rcases hStop with hComma | hAngle
  · exact ends_of_atMark (c := ',') rfl (by decide) hComma
  · exact ends_of_atMark (c := '>') rfl (by decide) hAngle

theorem echoes_lifetimes
    (stop : Tokens → Bool) :
    EchoesAs strict (flatten <$> listWhile stop "+" lifetime) fun tokens =>
      tokens :=
  .flatten (.listWhile echoes_lifetime)

theorem echo_of_run_lifetimeBounds
    (hStop : ∀ trees, stop trees = true → Ends trees.texts)
    {value : Tokens}
    (hRun : (lifetimeBounds stop).run trees = some (value, rest)) :
    ∃ taken colon, trees = taken ++ (colon ++ rest) ∧
      DanglingColon colon rest ∧
      Echo true (texts (colon ++ rest)) taken value := by
  rcases run_bind_eq_some hRun with ⟨colon, left, hColon, hRun⟩
  have hNone :
      ∀ trees rest,
        (flatten <$> listWhile stop "+" lifetime).run trees =
          some ([], rest) →
        rest = trees ∧ Ends trees.texts := by
    intro trees rest hRun
    rcases of_run_flatten_nil solid_lifetime hRun with ⟨rfl, hStopped⟩
    exact ⟨rfl, hStop _ hStopped⟩
  split at hRun
  · next hEmpty =>
      cases hRun
      have hNothing :
          (if colon.isEmpty then pure []
            else flatten <$> listWhile stop "+" lifetime).run rest =
            some ([], rest) := by
        rw [if_pos hEmpty]
        rfl
      exact echo_of_colon (echoes_lifetimes stop) hNone hColon hNothing
  · next hSome =>
      rcases run_bind_eq_some hRun with ⟨bounds, _, hBounds, hPure⟩
      cases hPure
      have hFound :
          (if colon.isEmpty then pure []
            else flatten <$> listWhile stop "+" lifetime).run left =
            some (bounds, rest) := by
        rw [if_neg hSome]
        exact hBounds
      exact echo_of_colon (echoes_lifetimes stop) hNone hColon hFound

theorem echoes_lifetimeBounds
    (hStop : ∀ trees, stop trees = true → Ends trees.texts) :
    EchoesAs false (lifetimeBounds stop) fun tokens => tokens := by
  intro trees value rest hRun
  rcases echo_of_run_lifetimeBounds hStop hRun with
    ⟨taken, colon, rfl, hColon, hEcho⟩
  refine ⟨taken ++ colon, by simp, ?_⟩
  exact Echo.drop_colon hColon hEcho

variable (hEchoing : Echoing g)
include hEchoing

theorem echoes_lifetimeParameter :
    EchoesAs false g.lifetimeParameter fun tokens => tokens := by
  refine .of_echoes ?_
  unfold lifetimeParameter
  refine .bind (echoes_outerTokens hEchoing) fun attributes => ?_
  refine .bind echoes_lifetime fun name => ?_
  have hBounds := echoes_lifetimeBounds fun _ => ends_of_parameter
  exact .bind hBounds fun bounds => .pure (by simp)

theorem solid_quantifier :
    EchoesSolid g.quantifier fun tokens => tokens := by
  refine .of_echoes (Closes.echoes ?_)
  unfold quantifier
  refine .bind (echoes_word _) fun keyword => ?_
  refine .bind (echoes_mark _) fun opening => ?_
  have hName := echoes_lifetimeParameter hEchoing
  refine .bind (.flatten (.listUntil hName)) fun names => ?_
  refine .close (solid_mark (by decide)) fun closing hClosing => ?_
  exact .pure ⟨by simp, by simp [hClosing]⟩

theorem echoes_quantifier? :
    EchoesAs strict g.quantifier? fun tokens => tokens :=
  .when (solid_quantifier hEchoing).echoes.of_strict

------------------------------------------------------------
-- Paths
------------------------------------------------------------

theorem solid_segment
    (inExpression : Bool) :
    EchoesSolid (g.segment inExpression) Prod.snd := by
  refine .of_echoes ?_
  unfold segment
  refine .branch ?_ ?_
  · exact .bind echoes_anyWord fun name => .pure ⟨rfl, by simp⟩
  · refine .choice echoes_anyWord echoes_name fun name => ?_
    refine .branch ?_ (.pure ⟨rfl, by simp⟩)
    exact .bind hEchoing.arguments fun arguments => .pure ⟨rfl, by simp⟩

theorem echoes_moreSegments
    (inExpression : Bool)
    (more : Tokens → Bool) :
    EchoesAs strict (g.moreSegments inExpression more) Prod.snd := by
  refine .of_echoes ?_
  unfold moreSegments
  have hPart :
      EchoesAs strict
        (do
          let colons ← mark "::"
          let segment ← g.segment inExpression
          return (segment.1, colons ++ segment.2))
        (fun part : PathSegment × Tokens => part.2) := by
    refine .of_echoes ?_
    refine .bind (echoes_mark _) fun colons => ?_
    have hSegment := solid_segment hEchoing inExpression
    refine .bind hSegment.echoes.of_strict ?_
    rintro ⟨segment, tokens⟩
    exact .pure rfl
  exact .bind (.many hPart) fun parts => .pure rfl

theorem solid_path
    (inExpression : Bool) :
    EchoesSolid (g.path inExpression) Path.tokens := by
  refine .of_echoes ?_
  unfold path
  refine .bind (echoes_mark? _) fun leading => ?_
  have hSegment := solid_segment hEchoing inExpression
  refine .bind_solid hSegment ?_
  rintro ⟨first, tokens⟩ hTokens
  refine .bind (echoes_moreSegments hEchoing _ _) ?_
  rintro ⟨rest, more⟩
  refine .pure ⟨rfl, ?_⟩
  dsimp only at hTokens ⊢
  simp [hTokens]

theorem echoes_path
    (inExpression : Bool) :
    EchoesAs strict (g.path inExpression) Path.tokens :=
  (solid_path hEchoing inExpression).echoes.of_strict

theorem solid_qualifiedPath
    (inExpression : Bool) :
    EchoesSolid (g.qualifiedPath inExpression) (·.2.tokens) := by
  refine .of_echoes ?_
  unfold qualifiedPath
  refine .branch ?_ ?_
  · refine .bind (echoes_mark _) fun opening => ?_
    refine .bind (hEchoing.echoes_type true) fun self => ?_
    have hSegment := solid_segment hEchoing inExpression
    have hRest :
        ∀ cast : Tokens,
          Echoes true ([] ++ opening ++ self.tokens ++ cast)
            (do
              let closing ← mark ">"
              let colons ← mark "::"
              let first ← g.segment inExpression
              let rest ← g.moreSegments inExpression (·.atMark "::")
              let all := opening ++ self.tokens ++ cast ++ closing ++
                colons ++ first.2 ++ rest.2
              return (true, ⟨false, first.1 :: rest.1, all⟩))
            fun (value : Bool × Path) printed =>
              printed = value.2.tokens ∧ value.2.tokens ≠ [] := by
      intro cast
      refine .bind (echoes_mark _) fun closing => ?_
      refine .bind (echoes_mark _) fun colons => ?_
      refine .bind_solid hSegment ?_
      rintro ⟨first, tokens⟩ hTokens
      refine .bind (echoes_moreSegments hEchoing _ _) ?_
      rintro ⟨rest, more⟩
      refine .pure ⟨rfl, ?_⟩
      dsimp only at hTokens ⊢
      simp [hTokens]
    refine .branch ?_ ?_
    · refine .bind (echoes_word _) fun keyword => ?_
      refine .bind (echoes_path hEchoing false) fun target => ?_
      have hTarget := hRest (keyword ++ target.tokens)
      rw [← List.append_assoc] at hTarget
      exact hTarget
    · have hNone := hRest []
      rw [List.append_nil] at hNone
      exact hNone
  · have hPath := solid_path hEchoing inExpression
    exact .bind_solid hPath fun path hTokens => .pure ⟨rfl, hTokens⟩

------------------------------------------------------------
-- Bounds
------------------------------------------------------------

theorem echoes_result
    (allowPlus : Bool) :
    EchoesAs strict (g.result allowPlus) Prod.snd := by
  refine .of_echoes ?_
  unfold result
  refine .branch ?_ (.pure rfl)
  refine .bind (echoes_mark _) fun arrow => ?_
  exact .bind (hEchoing.echoes_type allowPlus) fun type => .pure rfl

theorem echoes_parenthesisedArguments :
    EchoesAs strict g.parenthesisedArguments fun tokens => tokens := by
  refine .of_echoes ?_
  unfold parenthesisedArguments
  have hType : EchoesAs false (Ty.tokens <$> g.type true) fun tokens =>
      tokens :=
    .map (hEchoing.echoes_type true) fun _ => rfl
  refine .bind (.group (.commaList hType)) fun inputs => ?_
  refine .bind (echoes_result hEchoing false) ?_
  rintro ⟨type, output⟩
  exact .pure rfl

/- The two colons before the parentheses are not printed. -/
theorem Echoes.separatedArguments
    {before : Tokens}
    {next : Tokens → Parser β}
    {post : β → Tokens → Prop}
    (hNext :
      ∀ arguments, Echoes strict (before ++ arguments) (next arguments) post) :
    Echoes strict before
      (do
        let _ ← mark? "::"
        let arguments ← g.parenthesisedArguments
        next arguments)
      post := by
  intro written trees value rest hEcho hRun
  rcases run_bind_eq_some hRun with ⟨colons, left, hColons, hRun⟩
  rcases run_bind_eq_some hRun with ⟨arguments, left', hFound, hRun⟩
  rcases echoes_mark? "::" trees colons left hColons with
    ⟨taken, rfl, hTaken⟩
  rcases echoes_parenthesisedArguments hEchoing left arguments left'
      hFound with
    ⟨taken', rfl, hTaken'⟩
  rw [texts_append] at hTaken
  have hAll :
      Echo strict left'.texts (taken ++ taken') (colons ++ arguments) :=
    hTaken.append hTaken'
  rcases run_bind_eq_some hFound with ⟨inputs, _, hInputs, hFound⟩
  rcases run_bind_eq_some hFound with ⟨⟨_, output⟩, _, _, hPure⟩
  cases hPure
  rcases eq_group_of_run_group hInputs with ⟨content, span, rfl⟩
  rw [← List.append_assoc] at hEcho ⊢
  refine (hNext _).resume hEcho ⟨?_, fun hStrict => ?_⟩ hRun
  · rcases run_bind_eq_some hColons with ⟨holds, _, hSees, hColons⟩
    cases hSees
    have hReprints := hAll.reprints
    rw [texts_append colons] at hReprints
    split at hColons
    · rw [texts_of_run_mark hColons] at hReprints
      have hMarks : "::".toList.map (·.toString) = [":", ":"] := rfl
      rw [hMarks] at hReprints
      exact .pathSeparator hReprints
    · rcases Prod.mk.inj (Option.some.inj hColons) with ⟨rfl, _⟩
      exact hReprints
  · exact (hTaken'.sameEnd hStrict).append_of_ne_nil taken []
      (List.cons_ne_nil _ _)

omit hEchoing in
theorem solid_capture :
    EchoesSolid capture fun tokens => tokens := by
  refine .of_echoes ?_
  unfold capture
  refine .bind_solid (solid_word _) fun keyword hKeyword => ?_
  refine Echoes.angled ?_ fun opening names closing => ?_
  · refine .branch ?_ (.branch ?_ ?_)
    · refine .bind_of_run echoes_lifetime fun name trees rest hName => ?_
      exact .pure ⟨rfl, fun _ => quote_mem_of_run_lifetime hName⟩
    · exact .bind echoes_anyWord fun name => .pure ⟨rfl, by simp⟩
    · exact .bind echoes_name fun name => .pure ⟨rfl, by simp⟩
  · exact .pure ⟨by simp, by simp [hKeyword]⟩

theorem solid_traitBound
    (allowConst : Bool) :
    EchoesSolid (g.traitBound allowConst) Prod.fst := by
  refine .of_echoes ?_
  unfold traitBound
  refine .bind (echoes_quantifier? hEchoing) fun outer => ?_
  refine .look fun conditional => .look fun unconditional => ?_
  refine .refuseIf ?_
  refine .pick (.group (echoes_word _)) (echoes_word? _)
    fun constness => ?_
  refine .bind (echoes_mark? _) fun relaxed => ?_
  refine .pick (echoes_quantifier? hEchoing) .nothing fun inner => ?_
  refine .bind_solid (solid_path hEchoing false) fun path hPath => ?_
  refine .look fun parenthesised => .either ?_ ?_
  · refine Echoes.separatedArguments hEchoing fun arguments => ?_
    exact .refuseIf (.pure ⟨by simp, by simp [hPath]⟩)
  · refine .bind .nothing fun arguments => ?_
    exact .refuseIf (.pure ⟨by simp, by simp [hPath]⟩)

theorem solid_enclosedTraitBound
    (allowConst : Bool) :
    EchoesSolid (g.enclosedTraitBound allowConst) Prod.fst := by
  refine .of_echoes ?_
  unfold enclosedTraitBound
  have hBound := solid_traitBound hEchoing allowConst
  refine .branch ?_ ?_
  · refine .bind (.within hBound.echoes.loose) ?_
    rintro ⟨⟨tokens, constant⟩, span⟩
    exact .pure ⟨rfl, by simp⟩
  · exact .last_solid hBound fun value hTokens => ⟨rfl, hTokens⟩

theorem solid_bound
    (allowCapture allowConst : Bool) :
    EchoesSolid (g.bound allowCapture allowConst) Prod.snd := by
  refine .of_echoes ?_
  unfold bound
  refine .branch ?_ (.branch ?_ ?_)
  · exact .bind_solid solid_lifetime fun tokens hTokens =>
      .pure ⟨rfl, hTokens⟩
  · refine .bind_solid solid_capture fun tokens hTokens => ?_
    exact .either (.pure ⟨rfl, hTokens⟩) .refuse
  · have hTrait := solid_enclosedTraitBound hEchoing allowConst
    have hPrinted := hTrait.written.either hTrait.written_fst (·.1.2)
    refine .bind_solid hPrinted ?_
    rintro ⟨⟨tokens, constant⟩, asWritten⟩ hTokens
    exact .pure ⟨rfl, hTokens⟩

/- Bounds are printed with their signs. -/
theorem echoes_bounds
    (allowPlus allowCapture allowConst : Bool) :
    EchoesAs strict (g.bounds allowPlus allowCapture allowConst)
      (·.flatMap Prod.snd) := by
  refine .of_echoes ?_
  unfold bounds
  have hBound := (solid_bound hEchoing allowCapture allowConst).echoes
  have hLoop :
      EchoesAs strict
        (iterate [] fun found => do
          let bound ← g.bound allowCapture allowConst
          if allowPlus && (← sees (·.atMark "+")) then
            let plus ← mark "+"
            return ((bound.1, bound.2 ++ plus) :: found,
              ← sees (atBound allowConst))
          else
            return (bound :: found, false))
        fun found => found.reverse.flatMap Prod.snd := by
    refine .of_echoes (.iterate ?_ rfl)
    rintro found _ rfl
    refine .bind hBound.of_strict ?_
    rintro ⟨sort, tokens⟩
    refine .look fun more => .either ?_ (.pure (by simp))
    refine .bind (echoes_mark _) fun plus => ?_
    exact .look fun again => .pure (by simp)
  exact .bind hLoop fun found => .pure rfl

theorem forall_of_run_bounds
    {allowPlus allowCapture allowConst : Bool}
    {found : List (BoundSort × Tokens)}
    (hRun :
      (g.bounds allowPlus allowCapture allowConst).run trees =
        some (found, rest)) :
    ∀ bound ∈ found, bound.2 ≠ [] := by
  rcases run_bind_eq_some hRun with ⟨values, _, hValues, hPure⟩
  cases hPure
  let kept : List (BoundSort × Tokens) → Prop := fun found =>
    ∀ bound ∈ found, bound.2 ≠ []
  have hKept : kept values := by
    refine of_run_iterate ?_ (by simp [kept]) hValues
    intro state trees next rest hState hNext
    rcases run_bind_eq_some hNext with
      ⟨⟨sort, tokens⟩, _, hBound, hNext⟩
    have hTokens : tokens ≠ [] :=
      (solid_bound hEchoing _ _).ne_nil _ _ _ hBound
    rcases run_bind_eq_some hNext with ⟨_, _, _, hNext⟩
    split at hNext
    · rcases run_bind_eq_some hNext with ⟨plus, _, _, hNext⟩
      cases hNext
      exact List.forall_mem_cons.mpr ⟨by simp [hTokens], hState⟩
    · cases hNext
      exact List.forall_mem_cons.mpr ⟨hTokens, hState⟩
  intro bound hMem
  exact hKept bound (List.mem_reverse.mp hMem)

theorem solid_objectBounds
    (allowPlus allowCapture allowConst : Bool) :
    EchoesSolid (g.objectBounds allowPlus allowCapture allowConst)
      fun tokens => tokens := by
  refine .of_echoes ?_
  unfold objectBounds
  refine .bind_of_run (echoes_bounds hEchoing _ _ _)
    fun found trees rest hRun => ?_
  have hFound := forall_of_run_bounds hEchoing hRun
  split
  · next hAny =>
      rcases List.any_eq_true.mp hAny with ⟨bound, hMem, _⟩
      refine .pure ⟨rfl, fun hNil => ?_⟩
      exact hFound bound hMem (List.flatMap_eq_nil_iff.mp hNil bound hMem)
  · exact .refuse

/- A bound of which only the tokens are kept. -/
theorem solid_boundTokens :
    EchoesSolid (Prod.snd <$> g.bound false true) fun tokens => tokens :=
  .map (solid_bound hEchoing false true) fun _ => rfl

theorem echoes_boundsUntil
    (stop : Tokens → Bool) :
    EchoesAs strict (g.boundsUntil stop) fun tokens => tokens :=
  .flatten (.listWhile (solid_boundTokens hEchoing).echoes.of_strict)

------------------------------------------------------------
-- Arguments
------------------------------------------------------------

theorem echoes_constArgument :
    EchoesAs false g.constArgument fun tokens => tokens := by
  refine .of_echoes ?_
  unfold constArgument
  refine .branch ?_ (.branch ?_ ?_)
  · exact .last echoes_literal fun value => rfl
  · exact .bind echoes_anyWord fun name => .pure rfl
  · exact .last (echoes_attributedBlock hEchoing) fun block => rfl

/- An argument that is a lifetime has a quote. -/
theorem echoes_argument :
    Echoes false [] g.argument fun value printed =>
      printed = value.2 ∧ (value.1 = true → "'" ∈ value.2.texts) := by
  unfold argument
  refine .branch ?_ (.branch ?_ ?_)
  · refine .bind_of_run echoes_lifetime fun name trees rest hName => ?_
    exact .pure ⟨rfl, fun _ => quote_mem_of_run_lifetime hName⟩
  · exact .bind (echoes_constArgument hEchoing) fun value =>
      .pure ⟨rfl, by simp⟩
  · refine .bind (hEchoing.echoes_type true) fun type => ?_
    refine .either (.branch ?_ (.branch ?_ ?_)) (.pure ⟨rfl, by simp⟩)
    · refine .bind (echoes_mark _) fun equals => ?_
      have hType : EchoesAs false (Ty.tokens <$> g.type true) fun tokens =>
          tokens :=
        .map (hEchoing.echoes_type true) fun _ => rfl
      exact .choice (echoes_constArgument hEchoing) hType fun value =>
        .pure ⟨by simp, by simp⟩
    · refine .bind (echoes_mark _) fun colon => ?_
      exact .bind (echoes_boundsUntil hEchoing _) fun bounds =>
        .pure ⟨by simp, by simp⟩
    · exact .pure ⟨rfl, by simp⟩

theorem echoes_angleArguments :
    EchoesAs strict g.angleArguments fun tokens => tokens := by
  refine .of_echoes ?_
  unfold angleArguments
  refine .bind (echoes_mark? _) fun colons => ?_
  refine Echoes.angled (echoes_argument hEchoing)
    fun opening values closing => ?_
  exact .pure (by simp)

end Grammar

end Nullary
