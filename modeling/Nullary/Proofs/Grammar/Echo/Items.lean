import Nullary.Grammar.Source
import Nullary.Proofs.Grammar.Echo.Functions

/-
  Items are printed with the tokens they were written with,
  and so are all constructs of the grammar.

  Main declarations:
    * `Grammar.echoes_structItem`
    * `Grammar.echoes_typeDeclaration`
    * `Grammar.echoes_traitItem`
    * `Grammar.echoes_implItem`
    * `Grammar.echoes_itemWith`
    * `Grammar.echoing_level`
-/

namespace Nullary

open Nullary.Parser Nullary.Tokens

namespace Grammar

variable {α β : Type}
variable {g : Grammar}
variable {trees rest : Tokens}
variable {post : β → Tokens → Prop}
variable {stop : Tokens → Bool}
variable {before : Tokens}

------------------------------------------------------------
-- Records and Enumerations
------------------------------------------------------------

theorem echoes_structBody
    (hEchoing : Echoing g) :
    EchoesAs false g.structBody (·.2.2) := by
  refine .of_echoes ?_
  unfold structBody
  refine .bind (echoes_clause? hEchoing) fun clause => ?_
  have hRest :
      Echoes false ([] ++ (clause.map (·.tokens)).getD [])
        (do
          if ← sees (·.atGroup .brace) then
            let fields ← g.fields
            return (clause, Fields.named fields.1,
              (clause.map (·.tokens)).getD [] ++ fields.2)
          let semicolon ← mark ";"
          return (clause, .unit,
            (clause.map (·.tokens)).getD [] ++ semicolon))
        fun (body : Option WhereClause × Fields × Tokens) printed =>
          printed = body.2.2 := by
    refine .branch ?_ ?_
    · refine .bind hEchoing.fields ?_
      rintro ⟨names, fields⟩
      exact .pure rfl
    · exact .bind (echoes_mark _) fun semicolon => .pure rfl
  cases clause with
  | none =>
      refine .branch ?_ hRest
      refine .bind (echoes_positionalFields hEchoing) ?_
      rintro ⟨count, fields⟩
      refine .bind (echoes_clause? hEchoing) fun clause => ?_
      exact .bind (echoes_mark _) fun semicolon => .pure rfl
  | some clause => exact .branch_of_test nofun hRest

/- A record is printed after its attributes and its visibility. -/
theorem echoes_structItem
    (hEchoing : Echoing g)
    (attributes : List Attribute)
    (visibility : Visibility) :
    Echoes false (Attribute.outerTokens attributes ++ visibility.tokens)
      (g.structItem attributes visibility)
      fun item printed => printed = item.tokens := by
  unfold structItem
  refine .bind (echoes_word _) fun keyword => ?_
  refine .bind echoes_name fun name => ?_
  refine .bind (echoes_generics hEchoing) fun generics => ?_
  refine .bind (echoes_structBody hEchoing) ?_
  rintro ⟨clause, fields, body⟩
  exact .pure (by simp)

theorem scope_of_run_shortRestriction
    {found : Scope × Tokens}
    (hRun : shortRestriction.run trees = some (found, rest)) :
    found.1 ≠ .inherited := by
  rcases run_bind_eq_some hRun with
    ⟨⟨⟨scope, tokens⟩, span⟩, _, hWithin, hPure⟩
  cases hPure
  rcases eq_group_of_run_within hWithin with ⟨content, _, hInside⟩
  rcases run_bind_eq_some hInside with ⟨_, _, _, hTail⟩
  rcases run_bind_eq_some hTail with ⟨name, _, _, hPure⟩
  cases hPure
  dsimp only
  split <;> nofun

/- The texts of a visibility. -/
theorem texts_of_run_visibility
    {found : Visibility}
    (hRun : visibility.run trees = some (found, rest)) :
    found.tokens = [] ∨
      found.scope ≠ .inherited ∧
        ∃ restriction, found.tokens.texts = "pub" :: restriction ∧
          (restriction = [] ∨
            ∃ inner, restriction = "(" :: (inner ++ [")"])) := by
  rcases run_bind_eq_some hRun with ⟨_, _, hSees, hTail⟩
  cases hSees
  split at hTail
  · rcases run_bind_eq_some hTail with ⟨keyword, _, hKeyword, hTail⟩
    rcases eq_of_run_word hKeyword with ⟨span, _, rfl⟩
    rcases run_bind_eq_some hTail with ⟨_, _, hSees, hTail⟩
    cases hSees
    right
    split at hTail
    · rcases run_bind_eq_some hTail with ⟨path, _, hPath, hPure⟩
      cases hPure
      rcases eq_group_of_run_group hPath with ⟨content, span', rfl⟩
      refine ⟨nofun, "(" :: (Tokens.texts content ++ [")"]), ?_,
        Or.inr ⟨_, rfl⟩⟩
      simp [Delimiter.openText, Delimiter.closeText]
    · rcases run_bind_eq_some hTail with ⟨found, _, hFound, hTail⟩
      cases found with
      | none =>
          cases hTail
          exact ⟨nofun, [], by simp, Or.inl rfl⟩
      | some found =>
          cases hTail
          have hShort := run_of_run_attempt hFound
          refine ⟨scope_of_run_shortRestriction hShort, ?_⟩
          rcases run_bind_eq_some hShort with
            ⟨⟨⟨scope, tokens⟩, span'⟩, _, _, hPure⟩
          cases hPure
          refine ⟨"(" :: (Tokens.texts tokens ++ [")"]), ?_,
            Or.inr ⟨_, rfl⟩⟩
          simp [Delimiter.openText, Delimiter.closeText]
  · cases hTail
    exact Or.inl rfl

/- What is visible as its surroundings are has no visibility written. -/
theorem tokens_eq_nil_of_inherited
    {found : Visibility}
    (hRun : visibility.run trees = some (found, rest))
    (hScope : found.scope = .inherited) :
    found.tokens = [] := by
  rcases texts_of_run_visibility hRun with hNone | ⟨hOther, _⟩
  · exact hNone
  · exact absurd hScope hOther

/- A visibility before a name that is not printed. -/
theorem Echoes.hiddenVisibility
    {next : TokenTree → Parser β}
    (hNext : ∀ name, Echoes false (before ++ [name]) (next name) post) :
    Echoes false before
      (do
        let _ ← visibility
        let name ← name
        next name)
      post := by
  intro written trees value rest hEcho hRun
  rcases run_bind_eq_some hRun with ⟨found, left, hFound, hTail⟩
  rcases run_bind_eq_some hTail with ⟨name, left', hName, hLast⟩
  rcases echoes_visibility trees found left hFound with
    ⟨taken, rfl, hTaken⟩
  rcases eq_of_run_name hName with ⟨text, span, rfl, rfl, hText⟩
  have hWord :
      Echo false left'.texts [.word text span] [.word text span] :=
    .word text span
  have hBoth := hTaken.follow hWord
  have hHidden :
      Echo false left'.texts (taken ++ [.word text span])
        [.word text span] := by
    rcases texts_of_run_visibility hFound with
      hNone | ⟨_, restriction, hTexts, hRestriction⟩
    · rw [hNone] at hBoth
      exact hBoth
    · refine ⟨?_, fun hStrict => by cases hStrict⟩
      have hReprints := hBoth.reprints
      rw [texts_append found.tokens, hTexts] at hReprints
      simp only [texts_cons, TokenTree.texts_word, texts_nil,
        List.append_nil, List.cons_append] at hReprints ⊢
      exact .variantVisibility hRestriction hText hReprints
  have hTrees :
      taken ++ .word text span :: left' =
        (taken ++ [.word text span]) ++ left' := by
    simp
  rw [hTrees] at hEcho ⊢
  exact (hNext _).resume hEcho hHidden hLast

theorem echoes_variant
    (hEchoing : Echoing g) :
    EchoesAs false g.variant Prod.snd := by
  refine .of_echoes ?_
  unfold variant
  refine .bind (echoes_outerTokens hEchoing) fun attributes => ?_
  refine Echoes.hiddenVisibility fun name => ?_
  have hValue :
      ∀ fields : Tokens,
        Echoes false ([] ++ attributes ++ [name] ++ fields)
          (do
            let value ←
              if ← sees (·.atMark "=") then
                let equals ← mark "="
                let value ← g.expression true
                pure (equals ++ value.tokens)
              else
                pure []
            return (wordText name, attributes ++ name :: fields ++ value))
          (fun (found : String × Tokens) printed => printed = found.2) := by
    intro fields
    refine .branch ?_ (.pure_bind (.pure (by simp)))
    refine .bind (echoes_mark _) fun equals => ?_
    exact .bind (hEchoing.expression true) fun value =>
      .pure_bind (.pure (by simp))
  have hFields :
      EchoesAs false (Prod.snd <$> g.fields) fun tokens => tokens :=
    .map hEchoing.fields fun _ => rfl
  have hTuple :
      EchoesAs false (Prod.snd <$> g.positionalFields) fun tokens =>
        tokens :=
    .map (echoes_positionalFields hEchoing) fun _ => rfl
  refine .look fun isRecord => .look fun isTuple => ?_
  exact .either (.bind hFields hValue)
    (.either (.bind hTuple hValue) (.bind .nothing hValue))

theorem echoes_enumItem
    (hEchoing : Echoing g)
    (attributes : List Attribute)
    (visibility : Visibility) :
    Echoes false (Attribute.outerTokens attributes ++ visibility.tokens)
      (g.enumItem attributes visibility)
      fun item printed => printed = item.tokens := by
  unfold enumItem
  refine .bind (echoes_word _) fun keyword => ?_
  refine .bind echoes_name fun name => ?_
  refine .bind (echoes_generics hEchoing) fun generics => ?_
  refine .bind (echoes_clause? hEchoing) fun clause => ?_
  refine .bind (.within (.listUntil (echoes_variant hEchoing))) ?_
  rintro ⟨variants, span⟩
  exact .pure (by simp [Item.tokens])

theorem echoes_unionItem
    (hEchoing : Echoing g)
    (attributes : List Attribute)
    (visibility : Visibility) :
    Echoes false (Attribute.outerTokens attributes ++ visibility.tokens)
      (g.unionItem attributes visibility)
      fun item printed => printed = item.tokens := by
  unfold unionItem
  refine .bind (echoes_word _) fun keyword => ?_
  refine .bind echoes_name fun name => ?_
  refine .bind (echoes_generics hEchoing) fun generics => ?_
  refine .bind (echoes_clause? hEchoing) fun clause => ?_
  refine .bind hEchoing.fields ?_
  rintro ⟨names, fields⟩
  exact .pure (by simp [Item.tokens])

------------------------------------------------------------
-- Function Bodies, Constants and Types
------------------------------------------------------------

theorem echoes_functionBody
    (hEchoing : Echoing g) :
    EchoesAs false g.functionBody Prod.snd := by
  refine .of_echoes ?_
  unfold functionBody
  have hInside :
      EchoesAs false
        (do
          let attributes ← g.innerAttributes
          let statements ← g.statements
          return (attributes,
            Attribute.innerTokens attributes ++ statements))
        (fun found : List Attribute × Tokens => found.2) := by
    refine .of_echoes ?_
    refine .bind (echoes_innerAttributes hEchoing) fun attributes => ?_
    exact .bind hEchoing.statements fun statements => .pure rfl
  refine .bind (.within hInside) ?_
  rintro ⟨⟨attributes, tokens⟩, span⟩
  exact .pure rfl

theorem echoes_memberMacro :
    EchoesAs false memberMacro fun tokens => tokens := by
  refine .of_echoes ?_
  unfold memberMacro
  refine .bind echoes_plainPath ?_
  rintro ⟨leading, segments, path⟩
  refine .bind echoes_macroCall ?_
  rintro ⟨call, braced⟩
  exact .pick .nothing (echoes_mark _) fun semicolon => .pure rfl

theorem echoes_valueAfterEquals
    {p : Parser Tokens}
    (hValue : EchoesAs false p fun tokens => tokens) :
    EchoesAs false (valueAfterEquals p) fun tokens => tokens := by
  refine .of_echoes ?_
  unfold valueAfterEquals
  refine .branch ?_ (.pure rfl)
  refine .bind (echoes_mark _) fun equals => ?_
  exact .bind hValue fun value => .pure rfl

/- Parameters without an opening bracket are none. -/
theorem tokens_eq_nil_of_opening
    {generics : Generics}
    (hRun : g.generics.run trees = some (generics, rest))
    (hOpening : generics.opening = []) :
    generics.tokens = [] := by
  rcases run_bind_eq_some hRun with ⟨_, _, hSees, hTail⟩
  cases hSees
  split at hTail
  · rcases run_bind_eq_some hTail with ⟨opening, _, hMark, hTail⟩
    rcases run_bind_eq_some hTail with ⟨values, _, _, hTail⟩
    rcases run_bind_eq_some hTail with ⟨closing, _, _, hPure⟩
    cases hPure
    exact absurd hOpening ((solid_mark (by decide)).ne_nil _ _ _ hMark)
  · cases hTail
    rfl

/- A constant without parameters and without a clause. -/
theorem echoes_constant
    (hEchoing : Echoing g) :
    Echoes false [] g.constant fun found printed =>
      found.2.1 = false → printed = found.1 := by
  unfold constant
  refine .bind (echoes_word _) fun keyword => ?_
  refine .choice echoes_anyWord echoes_name fun name => ?_
  refine .bind_of_run (echoes_generics hEchoing)
    fun generics trees rest hGenerics => ?_
  refine .bind (echoes_mark _) fun colon => ?_
  refine .bind (hEchoing.echoes_type true) fun type => ?_
  have hValue := echoes_valueAfterEquals (echoes_expressionTokens hEchoing)
  refine .bind hValue fun value => ?_
  refine .bind (echoes_clause? hEchoing) fun clause => ?_
  refine .bind (echoes_mark _) fun semicolon => .pure ?_
  intro hGeneric
  simp only [Bool.or_eq_false_iff, Bool.not_eq_false',
    List.isEmpty_iff, Option.isSome_eq_false_iff,
    Option.isNone_iff_eq_none] at hGeneric
  have hNone := tokens_eq_nil_of_opening hGenerics hGeneric.1
  simp [hNone, hGeneric.2]

theorem ends_of_atWord
    {trees : Tokens}
    (hWord : trees.atWord "where" = true) :
    Ends trees.texts := by
  unfold atWord at hWord
  split at hWord
  · intro text hText
    simp only [texts_cons, TokenTree.texts_word, List.cons_append,
      List.head?_cons, Option.some.injEq] at hText
    rw [← hText, eq_of_beq hWord]
    decide
  · cases hWord

/- Bounds up to a stop that are printed as nothing are none. -/
theorem of_run_boundList_nil
    (hEchoing : Echoing g)
    (hStop : ∀ trees, stop trees = true → Ends trees.texts)
    (trees rest : Tokens)
    (hRun :
      (flatten <$> listUntil stop "+"
        (Prod.snd <$> g.bound false true)).run trees = some ([], rest)) :
    rest = trees ∧ Ends trees.texts := by
  have hSolid := solid_boundTokens hEchoing
  have hNil :=
    run_of_run_flatten
      (fun _ _ _ hValues =>
        (listed_of_run_listUntil hValues).forall_kept hSolid.ne_nil)
      hRun
  rcases (listed_of_run_listUntil hNil).of_nil with ⟨rfl, hStopped⟩
  exact ⟨rfl, hStop _ hStopped⟩

/- Bounds up to a stop after a colon that may dangle. -/
theorem Echoes.colonList
    {next : Tokens → Tokens → Parser β}
    (hEchoing : Echoing g)
    (hStop : ∀ trees, stop trees = true → Ends trees.texts)
    (hNext :
      ∀ colon bounds, (colon.isEmpty = true → bounds = []) →
        Echoes false
          (before ++ (if bounds.isEmpty then [] else colon ++ bounds))
          (next colon bounds) post) :
    Echoes false before
      (do
        let colon ← mark? ":"
        if colon.isEmpty then
          let bounds ← pure []
          next colon bounds
        else
          let bounds ← flatten <$> listUntil stop "+"
            (Prod.snd <$> g.bound false true)
          next colon bounds)
      post := by
  intro written trees value rest hEcho hRun
  rcases run_bind_eq_some hRun with ⟨colon, left, hColon, hTail⟩
  rcases run_pick_eq_some hTail with ⟨bounds, left', hBounds, hLast⟩
  have hList :
      EchoesAs false
        (flatten <$> listUntil stop "+" (Prod.snd <$> g.bound false true))
        fun tokens => tokens :=
    .flatten (.listUntil (solid_boundTokens hEchoing).echoes.loose)
  have hNone : colon.isEmpty = true → bounds = [] := by
    intro hEmpty
    rw [if_pos hEmpty] at hBounds
    cases hBounds
    rfl
  rcases echo_of_colon hList (of_run_boundList_nil hEchoing hStop) hColon
      hBounds with
    ⟨taken, dropped, rfl, hDropped, hTaken⟩
  rw [← List.append_assoc] at hEcho ⊢
  exact (hNext colon bounds hNone).resume hEcho
    (hTaken.drop_colon hDropped) hLast

theorem ends_of_typeDeclaration
    {trees : Tokens}
    (hStop :
      (trees.atWord "where" || trees.atMark "=" || trees.atMark ";") =
        true) :
    Ends trees.texts := by
  simp only [Bool.or_eq_true] at hStop
  rcases hStop with (hWhere | hEquals) | hSemicolon
  · exact ends_of_atWord hWhere
  · exact ends_of_atMark (c := '=') rfl (by decide) hEquals
  · exact ends_of_atMark (c := ';') rfl (by decide) hSemicolon

/- A type declaration is printed by its parts. -/
theorem echoes_typeDeclaration
    (hEchoing : Echoing g)
    (place : ClausePlace) :
    Echoes false [] (g.typeDeclaration place) fun t printed =>
      printed = t.head ++ t.bounds ++ t.first ++ t.value ++ t.last ++
        t.semicolon ∧
      (t.colon = false → t.bounds = []) ∧
      (place = .afterValue → t.first = []) ∧
      (place = .beforeValue → t.last = []) := by
  unfold typeDeclaration
  refine .bind (echoes_word _) fun keyword => ?_
  refine .bind echoes_name fun name => ?_
  refine .bind (echoes_generics hEchoing) fun generics => ?_
  refine Echoes.colonList hEchoing (fun _ => ends_of_typeDeclaration)
    fun colon bounds hNone => ?_
  have hColon :
      (!colon.isEmpty) = false →
        (if bounds.isEmpty then [] else colon ++ bounds) = [] := by
    intro hEmpty
    rw [hNone (by simpa using hEmpty)]
    rfl
  have hValue :
      EchoesAs false (valueAfterEquals (Ty.tokens <$> g.type true))
        fun tokens => tokens :=
    echoes_valueAfterEquals (echoes_typeTokens hEchoing true)
  have hClause := echoes_clause? hEchoing
  cases place with
  | beforeValue =>
      refine .bind hClause fun before => ?_
      refine .bind hValue fun value => .pure_bind ?_
      exact .bind (echoes_mark _) fun semicolon =>
        .pure ⟨by simp, hColon, by simp, fun _ => rfl⟩
  | afterValue =>
      refine .pure_bind (.bind hValue fun value => ?_)
      refine .bind hClause fun after => ?_
      exact .bind (echoes_mark _) fun semicolon =>
        .pure ⟨by simp, hColon, fun _ => rfl, by simp⟩
  | both =>
      refine .bind hClause fun before => ?_
      refine .bind hValue fun value => .either (.pure_bind ?_) ?_
      · exact .bind (echoes_mark _) fun semicolon =>
          .pure ⟨by simp, hColon, by simp, by simp⟩
      · refine .bind hClause fun after => ?_
        exact .bind (echoes_mark _) fun semicolon =>
          .pure ⟨by simp, hColon, by simp, by simp⟩

------------------------------------------------------------
-- Traits
------------------------------------------------------------

theorem echoes_traitFunction
    (hEchoing : Echoing g) :
    EchoesAs false g.traitFunction Prod.snd := by
  refine .of_echoes ?_
  unfold traitFunction
  refine .bind (echoes_signature hEchoing false) fun signature => ?_
  refine .branch ?_ ?_
  · refine .bind (echoes_functionBody hEchoing) ?_
    rintro ⟨attributes, body⟩
    exact .pure rfl
  · exact .bind (echoes_mark _) fun semicolon => .pure rfl

theorem echoes_traitMemberBody
    (hEchoing : Echoing g)
    (inherited : Bool) :
    EchoesSome false (g.traitMemberBody inherited) Prod.snd := by
  refine .of_echoes ?_
  unfold traitMemberBody
  refine .branch ?_ (.branch ?_ (.branch ?_ (.branch ?_ .refuse)))
  · exact .bind (echoes_traitFunction hEchoing) fun found =>
      .pure (by simp)
  · refine .bind_post (echoes_constant hEchoing) ?_
    rintro ⟨tokens, generic, valued⟩ printed hPrinted
    refine .pure ?_
    cases generic with
    | true => simp
    | false => simpa using hPrinted rfl
  · refine .bind_post (echoes_typeDeclaration hEchoing .afterValue)
      fun t printed hPrinted => .pure ?_
    simp [hPrinted.1, hPrinted.2.2.1]
  · exact .bind echoes_memberMacro fun tokens => .pure (by simp)

theorem echoes_traitMember
    (hEchoing : Echoing g) :
    EchoesAs false g.traitMember Prod.snd := by
  refine echoes_orAsWritten (.of_echoes ?_) fun _ => rfl
  refine .bind (echoes_outerTokens hEchoing) fun attributes => ?_
  refine .bind_of_run echoes_visibility
    fun visibility trees rest hVisibility => ?_
  refine .bind (echoes_word? _) fun default => ?_
  refine .bind_post (echoes_traitMemberBody hEchoing _).echoes
    fun found printed hPrinted => .pure ?_
  rintro ⟨member, tokens⟩ hMember
  split at hMember
  · next hInherited =>
      rw [Bool.and_eq_true, decide_eq_true_eq,
        List.isEmpty_iff] at hInherited
      rcases Option.map_eq_some_iff.mp hMember with
        ⟨⟨_, tokens'⟩, hFound, hSame⟩
      cases hSame
      rw [hPrinted _ hFound, hInherited.2,
        tokens_eq_nil_of_inherited hVisibility hInherited.1]
      simp
  · cases hMember

theorem echoes_traitBody
    (hEchoing : Echoing g) :
    EchoesAs false g.traitBody (·.2.2) := by
  refine .of_echoes ?_
  unfold traitBody
  have hInside :
      EchoesAs false
        (do
          let attributes ← g.innerAttributes
          let members ← manyToEnd g.traitMember
          let tokens := Attribute.innerTokens attributes ++
            members.flatMap Prod.snd
          return (attributes, members.map Prod.fst, tokens))
        (fun found : List Attribute × List TraitMember × Tokens =>
          found.2.2) := by
    refine .of_echoes ?_
    refine .bind (echoes_innerAttributes hEchoing) fun attributes => ?_
    exact .bind (.manyToEnd (echoes_traitMember hEchoing))
      fun members => .pure rfl
  refine .bind (.within hInside) ?_
  rintro ⟨⟨attributes, members, tokens⟩, span⟩
  exact .pure rfl

theorem ends_of_endsSupertraits
    {trees : Tokens}
    (hStop : endsSupertraits trees = true) :
    Ends trees.texts := by
  rw [endsSupertraits, Bool.or_eq_true] at hStop
  rcases hStop with hWhere | hBrace
  · exact ends_of_atWord hWhere
  · exact ends_of_atGroup hBrace

theorem echoes_traitItem
    (hEchoing : Echoing g)
    (attributes : List Attribute)
    (visibility : Visibility) :
    Echoes false (Attribute.outerTokens attributes ++ visibility.tokens)
      (g.traitItem attributes visibility)
      fun item printed => printed = item.tokens := by
  unfold traitItem
  refine .bind (echoes_word? _) fun unsafety => ?_
  refine .bind (echoes_word? _) fun auto => ?_
  refine .bind (echoes_word _) fun keyword => ?_
  refine .bind echoes_name fun name => ?_
  refine .bind (echoes_generics hEchoing) fun generics => ?_
  refine .branch ?_ ?_
  · refine .bind (echoes_mark _) fun equals => ?_
    have hBound :
        EchoesAs false (Prod.snd <$> g.bound false false) fun tokens =>
          tokens :=
      .map (echoes_boundAlone hEchoing _ _) fun _ => rfl
    refine .bind (.flatten (.listUntil hBound)) fun bounds => ?_
    refine .bind (echoes_clause? hEchoing) fun clause => ?_
    exact .bind (echoes_mark _) fun semicolon =>
      .pure (by simp [Item.tokens])
  · refine Echoes.colonList hEchoing (fun _ => ends_of_endsSupertraits)
      fun colon bounds hNone => ?_
    refine .bind (echoes_clause? hEchoing) fun clause => ?_
    refine .bind (echoes_traitBody hEchoing) ?_
    rintro ⟨inner, members, body⟩
    exact .pure (by simp [Item.tokens])

------------------------------------------------------------
-- Implementations
------------------------------------------------------------

theorem echoes_implFunction
    (hEchoing : Echoing g)
    (attributes : Tokens)
    (visibility : Visibility)
    (default : Tokens) :
    Echoes false (attributes ++ visibility.tokens ++ default)
      (g.implFunction attributes visibility default)
      fun found printed =>
        ∀ value, found = some value → printed = value.2 := by
  unfold implFunction
  refine .bind (echoes_signature hEchoing false) fun signature => ?_
  refine .branch ?_ ?_
  · exact .bind (echoes_mark _) fun semicolon => .pure (by simp)
  · refine .bind (echoes_functionBody hEchoing) ?_
    rintro ⟨inner, body⟩
    exact .pure (by simp)

theorem echoes_implMember
    (hEchoing : Echoing g) :
    EchoesAs false g.implMember Prod.snd := by
  refine echoes_orAsWritten (.of_echoes ?_) fun _ => rfl
  refine .bind (echoes_outerTokens hEchoing) fun attributes => ?_
  refine .bind echoes_visibility fun visibility => ?_
  refine .bind (.when (echoes_word _)) fun default => ?_
  refine .branch ?_ (.branch ?_ (.branch ?_ (.branch ?_ .refuse)))
  · exact (echoes_implFunction hEchoing _ _ _).cast (by simp)
  · refine .bind_post (echoes_constant hEchoing) ?_
    rintro ⟨tokens, generic, valued⟩ printed hPrinted
    refine .pure ?_
    cases generic <;> cases valued <;> simp_all
  · refine .bind_post (echoes_typeDeclaration hEchoing .afterValue)
      fun t printed hPrinted => .pure ?_
    rcases hPrinted with ⟨rfl, hBounds, hFirst, _⟩
    intro value hValue
    split at hValue
    · cases hValue
    · next hPlain =>
        rw [Bool.or_eq_true, not_or, Bool.not_eq_true] at hPlain
        cases hValue
        simp [hBounds hPlain.1, hFirst rfl]
  · exact .bind echoes_memberMacro fun tokens => .pure (by simp)

theorem echoes_implBody
    (hEchoing : Echoing g) :
    EchoesAs false g.implBody (·.2.2) := by
  refine .of_echoes ?_
  unfold implBody
  have hInside :
      EchoesAs false
        (do
          let attributes ← g.innerAttributes
          let members ← manyToEnd g.implMember
          let tokens := Attribute.innerTokens attributes ++
            members.flatMap Prod.snd
          return (attributes, members.map Prod.fst, tokens))
        (fun found : List Attribute × List ImplMember × Tokens =>
          found.2.2) := by
    refine .of_echoes ?_
    refine .bind (echoes_innerAttributes hEchoing) fun attributes => ?_
    exact .bind (.manyToEnd (echoes_implMember hEchoing))
      fun members => .pure rfl
  refine .bind (.within hInside) ?_
  rintro ⟨⟨attributes, members, tokens⟩, span⟩
  exact .pure rfl

/-
  A parser whose result is printed or kept as written by what
  comes after it.
-/
theorem Echoes.written_branch
    {p : Parser α}
    {print : α → Tokens}
    {test : Tokens → Bool}
    {q r : α × Tokens → Parser β}
    (hFirst : EchoesAs false p print)
    (hThen :
      ∀ found, Echoes false (before ++ print found.1) (q found) post)
    (hElse : ∀ found, Echoes false (before ++ found.2) (r found) post) :
    Echoes false before
      (written p >>= fun found => sees test >>= fun holds =>
        if holds = true then q found else r found)
      post := by
  intro written trees value rest hEcho hRun
  rcases run_bind_eq_some hRun with
    ⟨⟨found, taken⟩, left, hWritten, hTail⟩
  rcases run_bind_eq_some hTail with ⟨_, _, hSees, hLast⟩
  cases hSees
  rcases run_written_eq_some hWritten with ⟨hFound, rfl⟩
  split at hLast
  · rcases hFirst _ found left hFound with ⟨taken', hTrees, hTaken⟩
    cases List.append_cancel_right hTrees
    exact (hThen (found, taken)).resume hEcho hTaken hLast
  · exact (hElse (found, taken)).resume hEcho (.refl taken) hLast

theorem echoes_implTarget
    (hEchoing : Echoing g) :
    EchoesAs false g.implTarget (·.2.2.2) := by
  refine .of_echoes ?_
  unfold implTarget
  refine .look fun negative => ?_
  have hType : EchoesAs false (g.type true) Ty.tokens :=
    hEchoing.echoes_type true
  cases negative with
  | true =>
      have hFirst :
          EchoesAs false
            (do
              let polarity ← mark "!"
              return (polarity, ← g.type true))
            (fun found : Tokens × Ty => found.1 ++ found.2.tokens) := by
        refine .of_echoes (.bind (echoes_mark _) fun polarity => ?_)
        exact .bind hType fun first => .pure rfl
      refine Echoes.written_branch hFirst ?_ ?_
      · rintro ⟨⟨polarity, first⟩, asWritten⟩
        refine .bind (echoes_word _) fun keyword => ?_
        exact .bind hType fun self => .pure (by simp)
      · rintro ⟨⟨polarity, first⟩, asWritten⟩
        exact .pure rfl
  | false =>
      have hFirst :
          EchoesAs false
            (do
              let polarity ← pure []
              return (polarity, ← g.type true))
            (fun found : Tokens × Ty => found.2.tokens) :=
        .of_echoes (.pure_bind (.bind hType fun first => .pure rfl))
      refine .bind_of_run hFirst.written_fst ?_
      rintro ⟨⟨polarity, first⟩, asWritten⟩ trees rest hRun
      rcases run_bind_eq_some (run_written_eq_some hRun).1 with
        ⟨_, _, hNone, hTail⟩
      cases hNone
      rcases run_bind_eq_some hTail with ⟨_, _, _, hPure⟩
      cases hPure
      refine .branch ?_ (.pure rfl)
      refine .bind (echoes_word _) fun keyword => ?_
      exact .bind hType fun self => .pure (by simp)

theorem echoes_implItem
    (hEchoing : Echoing g)
    (attributes : List Attribute)
    {visibility : Visibility}
    (hVisibility : visibility.scope = .inherited → visibility.tokens = []) :
    Echoes false (Attribute.outerTokens attributes ++ visibility.tokens)
      (g.implItem attributes visibility)
      fun found printed =>
        ∀ item, found = some item → printed = item.tokens := by
  unfold implItem
  refine .bind (echoes_word? _) fun default => ?_
  refine .bind (echoes_word? _) fun unsafety => ?_
  refine .bind (echoes_word _) fun keyword => ?_
  have hEmpty : EchoesAs false (pure Generics.empty) Generics.tokens :=
    .of_echoes (.pure rfl)
  refine .choice (echoes_generics hEchoing) hEmpty fun generics => ?_
  refine .look fun constant => ?_
  have hRest :
      ∀ before : Tokens,
        (visibility.scope = .inherited → constant = false →
          before = Attribute.outerTokens attributes ++ default ++
            unsafety ++ keyword ++ generics.tokens) →
        Echoes false before
          (do
            let target ← g.implTarget
            let clause ← g.clause?
            let clauseTokens := (clause.map (·.tokens)).getD []
            let body ← g.implBody
            if visibility.scope ≠ .inherited || constant || !target.2.1 then
              return none
            return some {
              attributes := attributes ++ body.1
              unsafety := !unsafety.isEmpty
              ofTrait := target.1
              self := target.2.2.1
              members := body.2.1
              tokens := Attribute.outerTokens attributes ++ default ++
                unsafety ++ keyword ++ generics.tokens ++
                target.2.2.2 ++ clauseTokens ++ body.2.2 : ImplItem })
          (fun found printed =>
            ∀ item, found = some item → printed = item.tokens) := by
    intro before hBefore
    refine .bind (echoes_implTarget hEchoing) ?_
    rintro ⟨ofTrait, apart, self, target⟩
    refine .bind (echoes_clause? hEchoing) fun clause => ?_
    refine .bind (echoes_implBody hEchoing) ?_
    rintro ⟨inner, members, body⟩
    dsimp only
    split
    · exact .pure nofun
    · next hPlain =>
        have hBoth :
            visibility.scope = .inherited ∧ constant = false := by
          simp only [Bool.or_eq_true, decide_eq_true_eq, not_or,
            Bool.not_eq_true, not_not] at hPlain
          exact hPlain.1
        refine .pure ?_
        rintro item hItem
        cases hItem
        rw [hBefore hBoth.1 hBoth.2]
  cases constant with
  | true =>
      refine .bind (echoes_mark? _) fun question => ?_
      exact .bind (echoes_word _) fun word => hRest _ nofun
  | false => exact hRest _ fun hScope _ => by simp [hVisibility hScope]

------------------------------------------------------------
-- Modules and Imports
------------------------------------------------------------

theorem echoes_moduleItem
    (hEchoing : Echoing g)
    (attributes : List Attribute)
    (visibility : Visibility) :
    Echoes false (Attribute.outerTokens attributes ++ visibility.tokens)
      (g.moduleItem attributes visibility)
      fun item printed => printed = item.tokens := by
  unfold moduleItem
  refine .bind (echoes_word? _) fun unsafety => ?_
  refine .bind (echoes_word _) fun keyword => ?_
  refine .choice echoes_anyWord echoes_name fun name => ?_
  refine .branch ?_ ?_
  · exact .bind (echoes_mark _) fun semicolon =>
      .pure (by simp [Item.tokens])
  · have hInside :
        EchoesAs false
          (do
            let inner ← g.innerAttributes
            let items ← manyToEnd g.item
            return (inner, items))
          (fun found : List Attribute × List Item =>
            Attribute.innerTokens found.1 ++
              found.2.flatMap (·.tokens)) := by
      refine .of_echoes ?_
      refine .bind (echoes_innerAttributes hEchoing) fun inner => ?_
      exact .bind (.manyToEnd hEchoing.item) fun items => .pure rfl
    refine .bind (.within hInside) ?_
    rintro ⟨⟨inner, items⟩, span⟩
    exact .pure (by simp [Item.tokens])

theorem echoes_rename :
    EchoesAs strict rename fun tokens => tokens := by
  refine .of_echoes ?_
  unfold rename
  refine .branch (.last (echoes_word _) fun _ => rfl) ?_
  exact .bind echoes_name fun name => .pure rfl

/- Trees in a list that are all taken apart. -/
theorem Echoes.allSome
    {separator : String}
    {p : Parser (Option Tokens)}
    (hTree : EchoesSome false p fun tokens => tokens) :
    Echoes false [] (listUntil stop separator p)
      fun found printed =>
        found.all (·.1.isSome) = true →
          printed = found.flatMap fun tree => tree.1.getD [] ++ tree.2 := by
  unfold Parser.listUntil
  have hLoop :
      Echoes false []
        (Parser.iterate [] fun found => do
          if ← sees stop then
            return (found, false)
          let tree ← p
          if ← sees stop then
            return ((tree, []) :: found, false)
          let comma ← mark separator
          return ((tree, comma) :: found, true))
        (fun found printed =>
          found.all (·.1.isSome) = true →
            printed = found.reverse.flatMap fun tree =>
              tree.1.getD [] ++ tree.2) := by
    refine .iterate ?_ fun _ => rfl
    intro found printed hPrinted
    refine .branch (.pure hPrinted) ?_
    refine .bind_post hTree.echoes fun tree printed' hTree' => ?_
    have hMore :
        ∀ comma : Tokens, tree.isSome = true →
          found.all (·.1.isSome) = true →
          printed ++ printed' ++ comma =
            ((tree, comma) :: found).reverse.flatMap
              fun tree => tree.1.getD [] ++ tree.2 := by
      intro comma hSome hAll
      rcases Option.isSome_iff_exists.mp hSome with ⟨tokens, rfl⟩
      simp [hPrinted hAll, hTree' tokens rfl]
    refine .branch (.pure ?_) (.bind (echoes_mark separator)
      fun comma => .pure ?_)
    · intro hAll
      rw [List.all_cons, Bool.and_eq_true] at hAll
      simpa using hMore [] hAll.1 hAll.2
    · intro hAll
      rw [List.all_cons, Bool.and_eq_true] at hAll
      exact hMore comma hAll.1 hAll.2
  refine .bind_post hLoop fun found printed hPrinted => .pure ?_
  intro hAll
  rw [List.all_reverse] at hAll
  exact hPrinted hAll

theorem echoes_useTreeWith
    (hEchoing : Echoing g)
    (allowRoot : Bool) :
    EchoesSome false (g.useTreeWith allowRoot) fun tokens => tokens := by
  refine .of_echoes ?_
  unfold useTreeWith
  refine .branch ?_ (.branch ?_ ?_)
  · refine .bind echoes_anyWord fun name => ?_
    refine .branch ?_ (.branch ?_ (.pure (by simp)))
    · refine .bind (echoes_mark _) fun colons => ?_
      refine .bind_post (hEchoing.useTree _).echoes
        fun tree printed hPrinted => ?_
      cases tree with
      | none => exact .refuse
      | some tree =>
          refine .pure ?_
          simp [hPrinted tree rfl]
    · refine .bind (echoes_word _) fun keyword => ?_
      exact .bind echoes_rename fun name => .pure (by simp)
  · exact .bind (echoes_mark _) fun star => .pure (by simp)
  · have hTree :
        EchoesSome false
          (do
            let root ← if allowRoot then mark? "::" else pure []
            let tree ← g.useTree (allowRoot && root.isEmpty)
            return if root.isEmpty then tree else none)
          (fun tokens => tokens) := by
      refine .of_echoes (.pick (echoes_mark? _) .nothing fun root => ?_)
      refine .bind_post (hEchoing.useTree _).echoes
        fun tree printed hPrinted => .pure ?_
      intro tokens hTokens
      split at hTokens
      · next hRoot =>
          rw [hPrinted tokens hTokens, List.isEmpty_iff.mp hRoot]
          rfl
      · cases hTokens
    refine .bind_post (Echoes.allSome hTree).within ?_
    rintro ⟨trees, span⟩ _ ⟨content, hContent, rfl⟩
    dsimp only
    split
    · next hAll =>
        rw [hContent hAll]
        exact .pure (by simp)
    · exact .pure nofun

theorem echoes_useItem
    (hEchoing : Echoing g)
    (head : Tokens) :
    Echoes false head (g.useItem head)
      fun found printed =>
        ∀ tokens, found = some tokens → printed = tokens := by
  unfold useItem
  refine .bind (echoes_word _) fun keyword => ?_
  refine .bind (echoes_mark? _) fun leading => ?_
  refine .bind_post (hEchoing.useTree _).echoes
    fun tree printed hPrinted => ?_
  refine .bind (echoes_mark _) fun semicolon => .pure ?_
  intro tokens hTokens
  rcases Option.map_eq_some_iff.mp hTokens with ⟨tree', rfl, rfl⟩
  rw [hPrinted tree' rfl]

theorem echoes_externCrate :
    EchoesAs strict externCrate fun tokens => tokens := by
  refine .of_echoes ?_
  unfold externCrate
  refine .bind (echoes_word _) fun keyword => ?_
  refine .bind (echoes_word _) fun crate => ?_
  refine .choice echoes_anyWord echoes_name fun name => ?_
  have hRest :
      ∀ renamed : Tokens,
        Echoes strict ([] ++ keyword ++ crate ++ [name] ++ renamed)
          (do
            let semicolon ← mark ";"
            return keyword ++ crate ++ name :: renamed ++ semicolon)
          (fun tokens printed => printed = tokens) :=
    fun renamed =>
      .bind (echoes_mark _) fun semicolon => .pure (by simp)
  refine .branch ?_ (.pure_bind ((hRest []).cast (by simp)))
  refine .bind (echoes_word _) fun as_ => ?_
  refine .bind echoes_rename fun name => ?_
  exact .pure_bind ((hRest _).cast (by simp))

------------------------------------------------------------
-- Foreign Declarations
------------------------------------------------------------

theorem echoes_foreignFunction
    (hEchoing : Echoing g)
    (head : Tokens) :
    Echoes false head (g.foreignFunction head)
      fun found printed =>
        ∀ tokens, found = some tokens → printed = tokens := by
  unfold foreignFunction
  refine .look fun marked => ?_
  refine .bind (echoes_signature hEchoing true) fun signature => ?_
  refine .branch ?_ ?_
  · exact .bind (echoes_functionBody hEchoing) fun body => .pure nofun
  · refine .bind (echoes_mark _) fun semicolon => .pure ?_
    cases marked <;> simp

theorem echoes_foreignStatic
    (hEchoing : Echoing g)
    (head : Tokens) :
    Echoes false head (g.foreignStatic head)
      fun found printed =>
        ∀ tokens, found = some tokens → printed = tokens := by
  unfold foreignStatic
  refine .bind (echoes_word? _) fun unsafety => ?_
  refine .pick (echoes_word? _) .nothing fun safety => ?_
  refine .bind (echoes_word _) fun keyword => ?_
  refine .bind (echoes_word? _) fun mutability => ?_
  refine .bind echoes_name fun name => ?_
  refine .bind (echoes_mark _) fun colon => ?_
  refine .bind (hEchoing.echoes_type true) fun type => ?_
  refine .bind (echoes_valueAfterEquals
    (echoes_expressionTokens hEchoing)) fun value => ?_
  refine .bind (echoes_mark _) fun semicolon => .pure ?_
  intro tokens hTokens
  split at hTokens
  · next hPlain =>
      rw [Bool.and_eq_true, Bool.and_eq_true, List.isEmpty_iff,
        List.isEmpty_iff, List.isEmpty_iff] at hPlain
      cases hTokens
      simp [hPlain.1.1, hPlain.1.2, hPlain.2]
  · cases hTokens

theorem echoes_foreignMember
    (hEchoing : Echoing g) :
    EchoesAs false g.foreignMember fun tokens => tokens := by
  refine echoes_orAsWritten (.of_echoes ?_) fun _ => rfl
  refine .bind (echoes_outerTokens hEchoing) fun attributes => ?_
  refine .bind echoes_visibility fun visibility => ?_
  refine .branch ?_ (.branch ?_ (.branch ?_ (.branch ?_ .refuse)))
  · exact (echoes_foreignFunction hEchoing _).cast (by simp)
  · exact (echoes_foreignStatic hEchoing _).cast (by simp)
  · refine .bind_post (echoes_typeDeclaration hEchoing .both)
      fun t printed hPrinted => .pure ?_
    rcases hPrinted with ⟨rfl, hBounds, _, _⟩
    intro tokens hTokens
    split at hTokens
    · cases hTokens
    · next hPlain =>
        rw [Bool.or_eq_true, not_or, Bool.not_eq_true,
          Bool.not_eq_true, Bool.not_eq_false',
          List.isEmpty_iff] at hPlain
        cases hTokens
        simp [hBounds hPlain.1, hPlain.2]
  · exact .bind echoes_memberMacro fun tokens => .pure (by simp)

theorem echoes_foreignModule
    (hEchoing : Echoing g)
    (attributes : List Attribute) :
    Echoes false (Attribute.outerTokens attributes)
      (g.foreignModule attributes)
      fun tokens printed => printed = tokens := by
  unfold foreignModule
  refine .bind (echoes_word? _) fun unsafety => ?_
  refine .bind echoes_abi fun convention => ?_
  have hInside :
      EchoesAs false
        (do
          let inner ← g.innerTokens
          let members ← manyToEnd g.foreignMember
          return inner ++ members.flatten)
        (fun tokens => tokens) := by
    refine .of_echoes ?_
    refine .bind (echoes_innerTokens hEchoing) fun inner => ?_
    exact .bind (.manyToEnd (echoes_foreignMember hEchoing))
      fun members => .pure (by simp [List.flatMap])
  exact .bind (.group hInside) fun body => .pure (by simp)

------------------------------------------------------------
-- Other Items
------------------------------------------------------------

theorem echoes_functionItem
    (hEchoing : Echoing g)
    (attributes : List Attribute)
    (visibility : Visibility) :
    Echoes false (Attribute.outerTokens attributes ++ visibility.tokens)
      (g.functionItem attributes visibility)
      fun found printed =>
        ∀ item, found = some item → printed = item.tokens := by
  unfold functionItem
  refine .bind (echoes_signature hEchoing false) fun signature => ?_
  refine .branch ?_ ?_
  · exact .bind (echoes_mark _) fun semicolon => .pure nofun
  · refine .bind (echoes_functionBody hEchoing) ?_
    rintro ⟨inner, body⟩
    exact .pure (by simp [Item.tokens])

theorem echoes_staticItem
    (hEchoing : Echoing g)
    (attributes : List Attribute)
    (visibility : Visibility) :
    Echoes false (Attribute.outerTokens attributes ++ visibility.tokens)
      (g.staticItem attributes visibility)
      fun found printed =>
        ∀ item, found = some item → printed = item.tokens := by
  unfold staticItem
  refine .bind (echoes_word _) fun keyword => ?_
  refine .bind (echoes_word? _) fun mutability => ?_
  refine .bind echoes_name fun name => .branch ?_ ?_
  · refine .bind (echoes_mark _) fun equals => ?_
    refine .bind (hEchoing.expression true) fun value => ?_
    exact .bind (echoes_mark _) fun semicolon => .pure nofun
  · refine .bind (echoes_mark _) fun colon => ?_
    refine .bind (hEchoing.echoes_type true) fun type => .branch ?_ ?_
    · exact .bind (echoes_mark _) fun semicolon => .pure nofun
    · refine .bind (echoes_mark _) fun equals => ?_
      refine .bind (hEchoing.expression true) fun value => ?_
      exact .bind (echoes_mark _) fun semicolon =>
        .pure (by simp [Item.tokens])

theorem echoes_itemMacro :
    EchoesAs strict itemMacro fun tokens => tokens := by
  refine .of_echoes ?_
  unfold itemMacro
  refine .bind echoes_plainPath ?_
  rintro ⟨leading, segments, path⟩
  refine .bind (echoes_mark _) fun bang => ?_
  have hRest :
      ∀ name : Tokens,
        Echoes strict ([] ++ path ++ bang ++ name)
          (do
            let body ← anyGroup
            let semicolon ←
              if Tokens.atGroup .brace [body] then pure [] else mark ";"
            return path ++ bang ++ name ++ [body] ++ semicolon)
          (fun tokens printed => printed = tokens) := by
    intro name
    refine .bind echoes_anyGroup fun body => ?_
    exact .pick .nothing (echoes_mark _) fun semicolon =>
      .pure (by simp)
  refine .branch ?_ (.pure_bind ((hRest []).cast (by simp)))
  exact .bind echoes_anyWord fun name =>
    .pure_bind ((hRest [name]).cast (by simp))

theorem echoes_itemBody
    (hEchoing : Echoing g)
    (attributes : List Attribute) :
    Echoes false (Attribute.outerTokens attributes)
      (g.itemBody attributes)
      fun found printed =>
        ∀ item, found = some item → printed = item.tokens := by
  unfold itemBody
  refine .bind_of_run echoes_visibility
    fun visibility trees rest hVisibility => ?_
  have hInherited :
      visibility.scope = .inherited → visibility.tokens = [] :=
    tokens_eq_nil_of_inherited hVisibility
  -- one case for each kind of item, in the order of the tests
  refine .branch ?_ (.branch ?_ (.branch_of_test ?_ (.branch ?_ (.branch ?_
    (.branch ?_ (.branch ?_ (.branch ?_ (.branch ?_ (.branch ?_ (.branch ?_
      (.branch ?_ (.branch ?_ (.branch ?_ (.branch ?_ .refuse))))))))))))))
  · exact echoes_functionItem hEchoing attributes visibility
  · exact .bind echoes_externCrate fun tokens =>
      .pure (by simp [Item.tokens])
  · intro trees hTest
    rw [Bool.and_eq_true, decide_eq_true_eq] at hTest
    rw [hInherited hTest.1, List.append_nil]
    refine .andThen (echoes_foreignModule hEchoing attributes)
      fun tokens => .pure ?_
    simp [Item.tokens]
  · refine .andThen_post (echoes_useItem hEchoing _)
      fun found printed hPrinted => .pure ?_
    intro item hItem
    rcases Option.map_eq_some_iff.mp hItem with ⟨tokens, hFound, rfl⟩
    exact hPrinted tokens hFound
  · exact echoes_staticItem hEchoing attributes visibility
  · refine .bind_post (echoes_constant hEchoing) ?_
    rintro ⟨tokens, generic, valued⟩ printed hPrinted
    refine .pure ?_
    cases generic <;> cases valued <;> simp_all [Item.tokens]
  · refine .andThen (echoes_moduleItem hEchoing attributes visibility)
      fun item => .pure ?_
    simp
  · refine .bind_post (echoes_typeDeclaration hEchoing .beforeValue)
      fun t printed hPrinted => .pure ?_
    rcases hPrinted with ⟨rfl, hBounds, _, hLast⟩
    intro item hItem
    split at hItem
    · cases hItem
    · next hPlain =>
        rw [Bool.or_eq_true, not_or, Bool.not_eq_true] at hPlain
        cases hItem
        simp [hBounds hPlain.1, hLast rfl, Item.tokens]
  · refine .andThen (echoes_structItem hEchoing attributes visibility)
      fun item => .pure ?_
    simp [Item.tokens]
  · refine .andThen (echoes_enumItem hEchoing attributes visibility)
      fun item => .pure ?_
    simp
  · refine .andThen (echoes_unionItem hEchoing attributes visibility)
      fun item => .pure ?_
    simp
  · refine .andThen (echoes_traitItem hEchoing attributes visibility)
      fun item => .pure ?_
    simp
  · refine .andThen_post (echoes_implItem hEchoing attributes hInherited)
      fun found printed hPrinted => .pure ?_
    intro item hItem
    rcases Option.map_eq_some_iff.mp hItem with ⟨found', hFound, rfl⟩
    exact hPrinted found' hFound
  · exact .bind_post (.asWritten macroDefinition) fun _ _ _ => .pure nofun
  · exact .bind echoes_itemMacro fun tokens =>
      .pure (by simp [Item.tokens])

theorem echoes_itemWith
    (hEchoing : Echoing g) :
    EchoesAs false g.itemWith Item.tokens := by
  refine echoes_orAsWritten (.of_echoes ?_) fun _ => rfl
  refine .bind (echoes_outerAttributes hEchoing) fun attributes => ?_
  exact echoes_itemBody hEchoing attributes

------------------------------------------------------------
-- Every Depth
------------------------------------------------------------

theorem echoing_level
    (depth : Nat) :
    Echoing (level depth) := by
  induction depth with
  | zero =>
      exact {
        type := fun _ => .refuse
        arguments := .refuse
        unary := fun _ => .refuse
        operand := fun _ _ => .refuse
        expression := fun _ => .refuse
        leading := .refuse
        pattern := .refuse
        statements := .refuse
        fields := .refuse
        item := .refuse
        useTree := fun _ => .refuse }
  | succ depth ih =>
      exact {
        type := solid_typeWith ih
        arguments := echoes_angleArguments ih
        unary := echoes_unaryWith ih
        operand := echoes_operandWith ih
        expression := echoes_expressionWith ih
        leading := echoes_leadingExpression ih
        pattern := echoes_singlePattern ih
        statements := echoes_statementList ih
        fields := echoes_namedFields ih
        item := echoes_itemWith ih
        useTree := echoes_useTreeWith ih }

end Grammar

end Nullary
