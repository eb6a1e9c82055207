import Nullary.Proofs.Grammar.Echo.Paths

/-
  Types are printed with the tokens they were written with.

  Main declarations:
    * `Grammar.solid_parenthesisedType`
    * `Grammar.solid_functionType`
    * `Grammar.echoes_pathTail`
    * `Grammar.solid_typeWith`
-/

namespace Nullary

open Nullary.Parser Nullary.Tokens

namespace Grammar

variable {g : Grammar}
variable {strict : Bool}

------------------------------------------------------------
-- Parentheses
------------------------------------------------------------

theorem echoes_boundAlone
    (hEchoing : Echoing g)
    (allowCapture allowConst : Bool) :
    EchoesAs strict (g.bound allowCapture allowConst) Prod.snd :=
  (solid_bound hEchoing allowCapture allowConst).echoes.of_strict

theorem echoes_objectBounds
    (hEchoing : Echoing g)
    (allowPlus allowCapture allowConst : Bool) :
    EchoesAs strict (g.objectBounds allowPlus allowCapture allowConst)
      fun tokens => tokens :=
  (solid_objectBounds hEchoing _ _ _).echoes.of_strict

theorem echoes_moreBounds
    (hEchoing : Echoing g) :
    EchoesAs strict g.moreBounds fun tokens => tokens := by
  refine .of_echoes ?_
  unfold moreBounds
  have hPart :
      EchoesAs strict
        (do
          let plus ← mark "+"
          let bound ← g.bound false false
          return plus ++ bound.2)
        fun tokens => tokens := by
    refine .of_echoes ?_
    refine .bind (echoes_mark _) fun plus => ?_
    refine .bind (echoes_boundAlone hEchoing _ _) ?_
    rintro ⟨sort, tokens⟩
    exact .pure rfl
  exact .bind (.many hPart) fun parts =>
    .pure (by simp [List.flatMap_id'])

/- The tokens between the parentheses of a type. -/
def Enclosed.tokens : Enclosed → Tokens
  | unit => []
  | relaxed tokens => tokens
  | tuple tokens => tokens
  | single type => type.tokens

theorem echoes_typeTokens
    (hEchoing : Echoing g)
    (allowPlus : Bool) :
    EchoesAs strict (Ty.tokens <$> g.type allowPlus) fun tokens =>
      tokens :=
  .map (hEchoing.echoes_type allowPlus) fun _ => rfl

theorem echoes_enclosed
    (hEchoing : Echoing g) :
    EchoesAs false g.enclosed Enclosed.tokens := by
  refine .of_echoes ?_
  unfold enclosed
  refine .branch (.pure rfl) (.branch ?_ (.branch ?_ ?_))
  · exact .bind (echoes_objectBounds hEchoing _ _ _) fun bounds =>
      .pure rfl
  · have hBound := (solid_traitBound hEchoing false).echoes.loose
    refine .bind hBound ?_
    rintro ⟨tokens, constant⟩
    exact .pure rfl
  · refine .bind (hEchoing.echoes_type true) fun first => ?_
    refine .branch ?_ (.pure rfl)
    refine .bind (echoes_mark _) fun comma => ?_
    exact .bind (.commaList (echoes_typeTokens hEchoing true))
      fun rest => .pure rfl

theorem solid_parenthesisedType
    (hEchoing : Echoing g)
    (allowPlus : Bool) :
    EchoesSolid (g.parenthesisedType allowPlus) Ty.tokens := by
  refine .of_echoes ?_
  unfold parenthesisedType
  refine .bind (.within (echoes_enclosed hEchoing)) ?_
  rintro ⟨content, span⟩
  cases content with
  | unit => exact .pure ⟨rfl, by simp [Ty.tokens]⟩
  | relaxed tokens =>
      exact .bind (echoes_moreBounds hEchoing) fun more =>
        .pure ⟨rfl, by simp [Ty.tokens]⟩
  | tuple tokens => exact .pure ⟨rfl, by simp [Ty.tokens]⟩
  | single type =>
      refine .look fun plus => .either ?_ ?_
      · exact .bind (echoes_moreBounds hEchoing) fun more =>
          .pure ⟨rfl, by simp [Ty.tokens]⟩
      · exact .pure ⟨rfl, by simp [Ty.tokens]⟩

------------------------------------------------------------
-- Function Types
------------------------------------------------------------

theorem echoes_abi :
    EchoesAs false abi fun tokens => tokens := by
  refine .of_echoes ?_
  unfold abi
  refine .bind (echoes_word _) fun keyword => ?_
  exact .bind (.when echoes_literal) fun name => .pure rfl

theorem echoes_abi? :
    EchoesAs false abi? fun tokens => tokens :=
  .when echoes_abi

theorem echoes_bareSelf :
    EchoesAs strict bareSelf fun tokens => tokens := by
  refine .of_echoes ?_
  unfold bareSelf
  refine .bind (echoes_word _) fun mutability => ?_
  exact .bind (echoes_word _) fun self => .pure rfl

theorem echoes_functionTypeParameter
    (hEchoing : Echoing g) :
    EchoesAs false g.functionTypeParameter fun tokens => tokens := by
  refine .of_echoes ?_
  unfold functionTypeParameter
  refine .branch (.branch ?_ ?_) (.branch ?_ ?_)
  · exact .last (echoes_verbatim _) fun tokens => rfl
  · exact .last echoes_bareSelf fun tokens => rfl
  · refine .bind echoes_anyWord fun name => ?_
    refine .bind (echoes_mark _) fun colon => .branch ?_ ?_
    · exact .bind echoes_bareSelf fun self => .pure (by simp)
    · exact .bind (hEchoing.echoes_type true) fun type =>
        .pure (by simp)
  · exact .last (echoes_typeTokens hEchoing true) fun tokens => rfl

theorem echoes_functionTypeVariadic :
    EchoesAs false functionTypeVariadic fun tokens => tokens := by
  refine .of_echoes ?_
  unfold functionTypeVariadic
  have hRest :
      ∀ name : Tokens,
        Echoes false name
          (do
            let dots ← mark "..."
            let comma ← mark? ","
            return name ++ dots ++ comma)
          fun value printed => printed = value := by
    intro name
    refine .bind (echoes_mark _) fun dots => ?_
    exact .bind (echoes_mark? _) fun comma => .pure rfl
  refine .branch ?_ ?_
  · refine .bind echoes_anyWord fun name => ?_
    exact .bind (echoes_mark _) fun colon => hRest (name :: colon)
  · exact hRest []

theorem echoes_functionTypeParameters
    (hEchoing : Echoing g) :
    EchoesAs false g.functionTypeParameters fun tokens => tokens := by
  refine .of_echoes ?_
  unfold functionTypeParameters
  refine .iterate ?_ rfl
  rintro found _ rfl
  refine .branch (.pure rfl) ?_
  refine .bind (echoes_outerTokens hEchoing) fun attributes => ?_
  refine .branch ?_ ?_
  · exact .bind echoes_functionTypeVariadic fun variadic => .pure rfl
  · refine .bind (echoes_outerTokens hEchoing) fun more => ?_
    refine .bind (echoes_functionTypeParameter hEchoing)
      fun parameter => ?_
    refine .branch (.pure (by simp)) ?_
    exact .bind (echoes_mark _) fun comma => .pure (by simp)

/- The calling convention may end in a literal, the type may not. -/
theorem solid_functionType
    (hEchoing : Echoing g) :
    EchoesSolid g.functionType fun tokens => tokens := by
  refine .of_echoes (Closes.echoes ?_)
  unfold functionType
  refine .bind (echoes_word? _) fun unsafety => ?_
  refine .bind echoes_abi? fun convention => ?_
  refine .close (solid_word _) fun keyword hKeyword => ?_
  have hParameters := echoes_functionTypeParameters hEchoing
  refine .bind (.group hParameters) fun parameters => ?_
  refine .bind (echoes_result hEchoing false) ?_
  rintro ⟨type, output⟩
  exact .pure ⟨by simp, by simp [hKeyword]⟩

------------------------------------------------------------
-- Types
------------------------------------------------------------

/- The texts of a quantifier. -/
theorem texts_of_run_quantifier
    {trees rest value : Tokens}
    (hRun : g.quantifier.run trees = some (value, rest)) :
    ∃ names, value.texts = "for" :: "<" :: (names ++ [">"]) := by
  rcases run_bind_eq_some hRun with ⟨keyword, _, hKeyword, hRun⟩
  rcases run_bind_eq_some hRun with ⟨opening, _, hOpening, hRun⟩
  rcases run_bind_eq_some hRun with ⟨names, _, _, hRun⟩
  rcases run_bind_eq_some hRun with ⟨closing, _, hClosing, hPure⟩
  cases hPure
  rcases eq_of_run_word hKeyword with ⟨span, _, rfl⟩
  refine ⟨names.texts, ?_⟩
  have hOpen : opening.texts = ["<"] := texts_of_run_mark hOpening
  have hClose : closing.texts = [">"] := texts_of_run_mark hClosing
  simp [hOpen, hClose]

/- The signs and bounds after a path. -/
theorem echoes_addedBounds
    (hEchoing : Echoing g) :
    EchoesAs strict
      (iterate ([] : Tokens) fun found => do
        if ← sees (·.atMark "+") then
          let plus ← mark "+"
          if ← sees (atBound false) then
            let (_, tokens) ← g.bound false false
            return (found ++ plus ++ tokens, true)
          return (found ++ plus, false)
        return (found, false))
      fun tokens => tokens := by
  refine .of_echoes (.iterate ?_ rfl)
  rintro found _ rfl
  refine .branch ?_ (.pure rfl)
  refine .bind (echoes_mark _) fun plus => .branch ?_ (.pure rfl)
  refine .bind (echoes_boundAlone hEchoing _ _) ?_
  rintro ⟨sort, tokens⟩
  exact .pure rfl

/- A macro call starts with its exclamation mark. -/
theorem texts_of_run_macroCall
    {trees rest : Tokens}
    {call : Tokens × Bool}
    (hRun : macroCall.run trees = some (call, rest)) :
    ∃ body, call.1.texts = "!" :: body := by
  rcases run_bind_eq_some hRun with ⟨bang, _, hBang, hRun⟩
  rcases run_bind_eq_some hRun with ⟨body, _, _, hPure⟩
  cases hPure
  have hMark : bang.texts = ["!"] := texts_of_run_mark hBang
  exact ⟨body.texts, by simp [hMark]⟩

/- A quantifier is left out before a macro call and nowhere else. -/
theorem echoes_pathTail
    (hEchoing : Echoing g)
    {quantifier : Tokens}
    (hQuantifier :
      quantifier = [] ∨
        ∃ names, quantifier.texts = "for" :: "<" :: (names ++ [">"]))
    (allowPlus : Bool)
    {path : Path}
    (hPath : path.tokens ≠ []) :
    Echoes true (quantifier ++ path.tokens)
      (do
        if path.isPlain && (← sees atMacroCall) then
          let (call, _) ← macroCall
          return .other (path.tokens ++ call)
        let plus ← sees (·.atMark "+")
        if !quantifier.isEmpty || (allowPlus && plus) then
          let more ←
            if allowPlus then
              iterate ([] : Tokens) fun found => do
                if ← sees (·.atMark "+") then
                  let plus ← mark "+"
                  if ← sees (atBound false) then
                    let (_, tokens) ← g.bound false false
                    return (found ++ plus ++ tokens, true)
                  return (found ++ plus, false)
                return (found, false)
            else
              pure []
          return .bounds more.isEmpty (quantifier ++ path.tokens ++ more)
        return .path path)
      fun (value : Ty) printed =>
        printed = value.tokens ∧ value.tokens ≠ [] := by
  refine .look fun isCall => .either ?_ (.look fun plus => ?_)
  · refine .bind_of_run echoes_macroCall ?_
    rintro ⟨call, braced⟩ trees rest hCall
    refine .change ?_ (.pure ⟨rfl, by simp [Ty.tokens, hPath]⟩)
    intro after written hEcho
    rcases hQuantifier with rfl | ⟨names, hNames⟩
    · exact hEcho
    · rcases texts_of_run_macroCall hCall with ⟨body, hBody⟩
      have hReprints := hEcho.reprints
      rw [List.append_assoc] at hEcho
      refine ⟨?_, fun _ => (hEcho.sameEnd rfl).of_append ?_⟩
      · simp only [Ty.tokens, texts_append, hNames, hBody,
          List.append_assoc, List.cons_append, List.nil_append]
          at hReprints ⊢
        exact .macroQuantifier hReprints
      · exact List.append_ne_nil_of_left_ne_nil hPath _
  · split
    · refine .pick (echoes_addedBounds hEchoing) .nothing fun more => ?_
      exact .pure ⟨rfl, by simp [Ty.tokens, hPath]⟩
    · next hNone =>
        have hNil : quantifier = [] := by
          simp only [Bool.or_eq_true, not_or, Bool.not_eq_true,
            Bool.not_eq_false', List.isEmpty_iff] at hNone
          exact hNone.1
        rw [hNil]
        exact .pure ⟨rfl, hPath⟩

theorem solid_indirection
    (hEchoing : Echoing g) :
    EchoesSolid g.indirection fun tokens => tokens := by
  refine .of_echoes ?_
  unfold indirection
  refine .branch ?_ ?_
  · refine .bind_solid (solid_mark (by decide)) fun star hStar => ?_
    refine .choice (echoes_word _) (echoes_word _) fun access => ?_
    exact .bind (hEchoing.echoes_type false) fun target =>
      .pure ⟨rfl, by simp [hStar]⟩
  · refine .bind_solid (solid_mark (by decide)) fun sign hSign => ?_
    refine .bind echoes_lifetime? fun lifetime => ?_
    refine .bind (echoes_word? _) fun mutability => ?_
    exact .bind (hEchoing.echoes_type false) fun target =>
      .pure ⟨rfl, by simp [hSign]⟩

theorem solid_sequenceType
    (hEchoing : Echoing g) :
    EchoesSolid g.sequenceType fun tokens => tokens := by
  refine .group (.of_echoes ?_)
  refine .bind (hEchoing.echoes_type true) fun element => ?_
  refine .branch ?_ (.pure rfl)
  refine .bind (echoes_mark _) fun semicolon => ?_
  exact .bind (hEchoing.expression true) fun length => .pure rfl

theorem solid_objectType
    (hEchoing : Echoing g)
    (allowPlus : Bool) :
    EchoesSolid (g.objectType allowPlus) fun tokens => tokens := by
  refine .of_echoes ?_
  unfold objectType
  have hSolid := solid_objectBounds hEchoing allowPlus false true
  refine .branch ?_ ?_
  · refine .last_solid (.verbatim ?_) fun tokens hTokens =>
      ⟨rfl, hTokens⟩
    intro taken value rest hRun
    rcases run_bind_eq_some hRun with ⟨keyword, left, hKeyword, hRun⟩
    rcases run_bind_eq_some hRun with ⟨star, left', hStar, hBounds⟩
    rcases (word "dyn").suffix_of_run hKeyword with ⟨taken₁, hTaken₁⟩
    rcases (mark "*").suffix_of_run hStar with ⟨taken₂, rfl⟩
    rcases hSolid.echoes left' value rest hBounds with
      ⟨taken₃, rfl, hEcho⟩
    have hSame := hEcho.sameEnd rfl
    have hTaken₃ : taken₃ ≠ [] := fun hNil =>
      hSolid.ne_nil _ value rest hBounds (hSame.eq_nil_iff.mp hNil)
    rcases Option.isSome_iff_exists.mp
        (List.getLast?_isSome.mpr hTaken₃) with
      ⟨last, hLast⟩
    rw [← List.append_assoc, ← List.append_assoc] at hTaken₁
    rw [← List.append_cancel_right hTaken₁, List.getLast?_append, hLast]
    exact ⟨last, rfl, hSame.isLiteral last hLast⟩
  · refine .bind (echoes_word _) fun keyword => ?_
    exact .bind_solid hSolid fun bounds hBounds =>
      .pure ⟨rfl, by simp [hBounds]⟩

/- What must follow a quantifier is a word. -/
theorem eq_word_of_quantified
    {trees : Tokens}
    (hTest :
      (trees.atName || atFunctionType trees || trees.atPathWord) = true) :
    ∃ text span rest, trees = .word text span :: rest := by
  cases trees with
  | nil => simp [atName, atFunctionType, atWord, atPathWord] at hTest
  | cons first rest =>
      cases first with
      | word text span => exact ⟨text, span, rest, rfl⟩
      | mark c joint span =>
          simp [atName, atFunctionType, atWord, atPathWord] at hTest
      | literal text span =>
          simp [atName, atFunctionType, atWord, atPathWord] at hTest
      | group delimiter content span =>
          simp [atName, atFunctionType, atWord, atPathWord] at hTest

theorem solid_pathType
    (hEchoing : Echoing g)
    (allowPlus : Bool) :
    EchoesSolid (g.pathType [] allowPlus) Ty.tokens := by
  refine .of_echoes ?_
  unfold pathType
  refine .bind_solid (solid_qualifiedPath hEchoing false) ?_
  rintro ⟨qualified, path⟩ hPath
  refine .either (.pure ⟨rfl, hPath⟩) ?_
  exact echoes_pathTail hEchoing (Or.inl rfl) allowPlus hPath

/- A path that starts with a word is not a qualified one. -/
theorem echo_of_run_pathType
    (hEchoing : Echoing g)
    {quantifier : Tokens}
    (hQuantifier :
      quantifier = [] ∨
        ∃ names, quantifier.texts = "for" :: "<" :: (names ++ [">"]))
    {allowPlus : Bool}
    {text : String}
    {span : Span}
    {written left rest : Tokens}
    {value : Ty}
    (hEcho :
      Echo true (texts (.word text span :: left)) written quantifier)
    (hRun :
      (g.pathType quantifier allowPlus).run (.word text span :: left) =
        some (value, rest)) :
    ∃ taken printed, .word text span :: left = taken ++ rest ∧
      (printed = value.tokens ∧ value.tokens ≠ []) ∧
      Echo true rest.texts (written ++ taken) printed := by
  rcases run_bind_eq_some hRun with
    ⟨⟨qualified, path⟩, left', hQualified, hTail⟩
  rcases run_bind_eq_some hQualified with ⟨_, _, hSees, hQualified⟩
  cases hSees
  rcases run_bind_eq_some hQualified with ⟨_, _, hPath, hPure⟩
  cases hPure
  have hSolid := solid_path hEchoing false
  rcases hSolid.echoes _ path left' hPath with ⟨taken, hTrees, hTaken⟩
  have hRest :=
    echoes_pathTail hEchoing hQuantifier allowPlus
      (hSolid.ne_nil _ path left' hPath)
  rw [hTrees] at hEcho ⊢
  exact hRest.resume hEcho hTaken hTail

/- A type whose kind is of no interest. -/
theorem Echoes.other
    {before : Tokens}
    {p : Parser Tokens}
    (hSolid : EchoesSolid p fun tokens => tokens) :
    Echoes true before
      (do
        let tokens ← p
        return Ty.other (before ++ tokens))
      fun type printed => printed = type.tokens ∧ type.tokens ≠ [] :=
  .bind_solid hSolid fun _ hTokens =>
    .pure ⟨rfl, List.append_ne_nil_of_right_ne_nil _ hTokens⟩

theorem solid_typeWith
    (hEchoing : Echoing g)
    (allowPlus : Bool) :
    EchoesSolid (g.typeWith allowPlus) Ty.tokens := by
  refine .of_echoes ?_
  unfold typeWith
  refine .bind_of_run (echoes_quantifier? hEchoing)
    fun quantifier before after hQuantifier => ?_
  by_cases hNil : quantifier = []
  · subst hNil
    refine .branch ?_ (.branch ?_ (.branch ?_ (.branch ?_ (.branch ?_
      (.branch ?_ (.branch ?_ (.branch ?_ (.branch ?_ (.branch ?_
        .refuse)))))))))
    · exact .last_solid (solid_parenthesisedType hEchoing allowPlus)
        fun type hType => ⟨rfl, hType⟩
    · exact Echoes.other (solid_functionType hEchoing)
    · exact .last_solid (solid_pathType hEchoing allowPlus)
        fun type hType => ⟨rfl, hType⟩
    · exact Echoes.other (solid_objectType hEchoing allowPlus)
    · exact Echoes.other (solid_sequenceType hEchoing)
    · exact Echoes.other (solid_indirection hEchoing)
    · exact Echoes.other (solid_mark (by decide))
    · refine .bind (echoes_word _) fun keyword => ?_
      exact Echoes.other (solid_objectBounds hEchoing _ _ _)
    · exact Echoes.other (solid_word _)
    · exact Echoes.other (solid_objectBounds hEchoing _ _ _)
  · -- A quantifier stands before a function type or a path only.
    intro written trees value rest hEcho hRun
    have hSome : (!quantifier.isEmpty) = true := by simpa using hNil
    rw [hSome] at hRun
    rcases run_bind_eq_some hRun with ⟨_, left, hRequired, hTail⟩
    clear hRun
    rcases of_run_require hRequired with ⟨rfl, hTest⟩
    rcases eq_word_of_quantified hTest with ⟨text, span, left', rfl⟩
    rcases run_bind_eq_some hTail with ⟨_, _, hSees, hRun⟩
    cases hSees
    rcases run_bind_eq_some hRun with ⟨_, _, hSees, hRun⟩
    cases hSees
    split at hRun
    · exact Echoes.other (solid_functionType hEchoing) written _ value
        rest hEcho hRun
    · next hFunction =>
        have hName :
            (atName (.word text span :: left') ||
              atPathWord (.word text span :: left')) = true := by
          simpa [hFunction] using hTest
        rcases run_bind_eq_some hRun with ⟨_, _, hSees, hRun⟩
        cases hSees
        have hTexts :
            ∃ names, quantifier.texts =
              "for" :: "<" :: (names ++ [">"]) := by
          rcases run_bind_eq_some hQuantifier with
            ⟨_, _, hSees, hQuantifier⟩
          split at hQuantifier
          · exact texts_of_run_quantifier hQuantifier
          · cases hQuantifier
            exact absurd rfl hNil
        split at hRun
        · exact echo_of_run_pathType hEchoing (Or.inr hTexts) hEcho hRun
        · next hOther =>
            exact absurd (by simp only [hName, Bool.true_or]) hOther

end Grammar

end Nullary
