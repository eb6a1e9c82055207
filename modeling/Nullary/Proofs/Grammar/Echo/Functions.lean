import Nullary.Proofs.Grammar.Echo.Expressions

/-
  Statements, signatures and fields are printed with the
  tokens they were written with, save that a parameter
  without a pattern is given a placeholder.

  Main declarations:
    * `Grammar.echoes_statementList`
    * `Grammar.echoes_orAsWritten`
    * `Grammar.echoes_parameters`
    * `Grammar.echoes_signature`
    * `Grammar.echoes_namedFields`
-/

namespace Nullary

open Nullary.Parser Nullary.Tokens

namespace Grammar

variable {α β : Type}
variable {g : Grammar}

------------------------------------------------------------
-- Statements
------------------------------------------------------------

variable (hEchoing : Echoing g)
include hEchoing

theorem echoes_localBinding :
    EchoesAs false g.localBinding fun tokens => tokens := by
  refine .of_echoes ?_
  unfold localBinding
  refine .bind (echoes_word _) fun keyword => ?_
  refine .bind hEchoing.pattern fun pattern => ?_
  have hEnd :
      ∀ type value : Tokens,
        Echoes false (keyword ++ pattern.tokens ++ type ++ value)
          (do
            let semicolon ← mark ";"
            return keyword ++ pattern.tokens ++ type ++ value ++ semicolon)
          fun tokens printed => printed = tokens :=
    fun type value => .bind (echoes_mark _) fun semicolon => .pure rfl
  have hValue :
      ∀ type : Tokens,
        Echoes false (keyword ++ pattern.tokens ++ type)
          (do
            let value ←
              if ← sees (·.atMark "=") then
                let equals ← mark "="
                let value ← g.expression true
                if !value.endsInBrace && (← sees (·.atWord "else")) then
                  let otherwise ← word "else"
                  pure (equals ++ value.tokens ++ otherwise ++ (← g.block))
                else
                  pure (equals ++ value.tokens)
              else
                pure []
            let semicolon ← mark ";"
            return keyword ++ pattern.tokens ++ type ++ value ++ semicolon)
          fun tokens printed => printed = tokens := by
    intro type
    refine .branch ?_ (.pure_bind ((hEnd type []).cast (by simp)))
    refine .bind (echoes_mark _) fun equals => ?_
    refine .bind (hEchoing.expression true) fun value => ?_
    refine .look fun otherwise => .either ?_ ?_
    · refine .bind (echoes_word _) fun otherwise => ?_
      refine .bind (echoes_block hEchoing) fun block => .pure_bind ?_
      exact (hEnd type _).cast (by simp)
    · exact .pure_bind ((hEnd type _).cast (by simp))
  refine .branch ?_ (.pure_bind ((hValue []).cast (by simp)))
  refine .bind (echoes_mark _) fun colon => ?_
  refine .bind (hEchoing.echoes_type true) fun type => .pure_bind ?_
  exact (hValue _).cast (by simp)

theorem echoes_statement :
    EchoesAs false g.statement Prod.fst := by
  refine .of_echoes ?_
  unfold statement
  refine .branch ?_ (.branch ?_ (.branch ?_ ?_))
  · refine .bind (echoes_outerTokens hEchoing) fun attributes => ?_
    refine .bind echoes_plainPath ?_
    rintro ⟨leading, segments, path⟩
    refine .bind echoes_macroCall ?_
    rintro ⟨call, braced⟩
    exact .bind (echoes_mark? _) fun semicolon => .pure rfl
  · refine .bind (echoes_outerTokens hEchoing) fun attributes => ?_
    exact .bind (echoes_localBinding hEchoing) fun binding => .pure rfl
  · exact .bind hEchoing.item fun item => .pure rfl
  · refine .bind (echoes_outerTokens hEchoing) fun attributes => ?_
    refine .bind hEchoing.leading fun value => ?_
    exact .bind (echoes_mark? _) fun semicolon => .pure rfl

theorem echoes_statementList :
    EchoesAs false g.statementList fun tokens => tokens := by
  refine .of_echoes ?_
  unfold statementList
  refine .iterate ?_ rfl
  rintro found _ rfl
  refine .branch (.pure rfl) (.branch ?_ ?_)
  · exact .bind (echoes_mark _) fun semicolon => .pure rfl
  · refine .bind (echoes_statement hEchoing) ?_
    rintro ⟨tokens, more⟩
    exact .branch (.pure rfl) (.refuseIf (.pure rfl))

------------------------------------------------------------
-- Signatures
------------------------------------------------------------

/- What is not taken apart is printed as it was written. -/
omit hEchoing in
theorem echoes_orAsWritten
    {p : Parser (Option α)}
    {print : α → Tokens}
    {asWritten : Tokens → α}
    (hSome : EchoesSome false p print)
    (hNone : ∀ tokens, print (asWritten tokens) = tokens) :
    EchoesAs false (orAsWritten p asWritten) print := by
  intro trees value rest hRun
  rcases run_bind_eq_some hRun with
    ⟨⟨found, taken⟩, left, hWritten, hTail⟩
  rcases run_written_eq_some hWritten with ⟨hFound, hTrees⟩
  cases found with
  | some result =>
      cases hTail
      exact hSome trees value rest hFound
  | none =>
      cases hTail
      refine ⟨taken, hTrees, ?_⟩
      rw [hNone]
      exact .refl taken

theorem echoes_receiver :
    EchoesAs false g.receiver fun tokens => tokens := by
  refine .of_echoes ?_
  unfold receiver
  have hRest :
      ∀ reference : Tokens,
        Echoes false reference
          (do
            let mutability ← word? "mut"
            let self ← word "self"
            let type ←
              if reference.isEmpty && (← sees (·.atMark ":")) then
                let colon ← mark ":"
                let type ← g.type true
                pure (colon ++ type.tokens)
              else
                pure []
            return reference ++ mutability ++ self ++ type)
          fun tokens printed => printed = tokens := by
    intro reference
    refine .bind (echoes_word? _) fun mutability => ?_
    refine .bind (echoes_word _) fun self => .look fun typed => ?_
    refine .either ?_ (.pure_bind (.pure (by simp)))
    refine .bind (echoes_mark _) fun colon => ?_
    exact .bind (hEchoing.echoes_type true) fun type =>
      .pure_bind (.pure (by simp))
  refine .branch ?_ (.pure_bind (hRest []))
  refine .bind (echoes_mark _) fun sign => ?_
  exact .bind echoes_lifetime? fun lifetime =>
    .pure_bind ((hRest _).cast (by simp))

/- The tokens of a parameter. -/
omit hEchoing in
def ParameterForm.tokens : ParameterForm → Tokens
  | argument _ tokens => tokens
  | variadic tokens => tokens

/- A type alone is given a placeholder. -/
theorem echo_of_bareType
    {trees rest : Tokens}
    {type : Ty}
    (hName : trees.atName = true)
    (hType : (g.type true).run trees = some (type, rest))
    (span : Span) :
    ∃ taken, trees = taken ++ rest ∧
      Echo false rest.texts taken
        (.word "_" span :: .mark ':' false span :: type.tokens) := by
  have hSolid := hEchoing.type true
  rcases hSolid.echoes trees type rest hType with ⟨taken, rfl, hEcho⟩
  have hTaken : taken ≠ [] := fun hNil =>
    hSolid.ne_nil _ type rest hType
      ((hEcho.sameEnd rfl).eq_nil_iff.mp hNil)
  refine ⟨taken, rfl, ?_, fun hStrict => by cases hStrict⟩
  have hReprints := hEcho.reprints
  rcases List.exists_cons_of_ne_nil hTaken with ⟨first, more, rfl⟩
  cases first with
  | word text span' =>
      have hText : text ∉ reserved := by simpa [atName] using hName
      simp only [texts_cons, TokenTree.texts_word, List.cons_append,
        List.nil_append] at hReprints ⊢
      exact .placeholder hText hReprints
  | mark c joint span' => cases hName
  | literal text span' => cases hName
  | group delimiter content span' => cases hName

theorem echoes_parameter :
    EchoesAs false g.parameter ParameterForm.tokens := by
  refine .of_echoes ?_
  unfold parameter
  refine .bind (.attempt (echoes_receiver hEchoing)) fun found => ?_
  cases found with
  | some tokens => exact .pure rfl
  | none =>
      have hTyped :
          Echoes false []
            (do
              let pattern ← g.pattern
              let colon ← mark ":"
              if ← sees (·.atMark "...") then
                return ParameterForm.variadic
                  (pattern.tokens ++ colon ++ (← mark "..."))
              let type ← g.type true
              return .argument (.typed pattern.tokens type)
                (pattern.tokens ++ colon ++ type.tokens))
            fun form printed => printed = form.tokens := by
        refine .bind hEchoing.pattern fun pattern => ?_
        refine .bind (echoes_mark _) fun colon => .branch ?_ ?_
        · exact .bind (echoes_mark _) fun dots => .pure rfl
        · exact .bind (hEchoing.echoes_type true) fun type => .pure rfl
      intro written trees value rest hEcho hRun
      rcases run_bind_eq_some hRun with ⟨_, _, hSees, hTail⟩
      cases hSees
      split at hTail
      · next hTest =>
          rcases run_bind_eq_some hTail with ⟨span, _, hSpan, hTail⟩
          cases hSpan
          rcases run_bind_eq_some hTail with ⟨type, left, hType, hPure⟩
          cases hPure
          have hName := (Bool.and_eq_true_iff.mp hTest).1
          rcases echo_of_bareType hEchoing hName hType
              (Tokens.span (trees.take 1)) with
            ⟨taken, hTrees, hTaken⟩
          refine ⟨taken, _, hTrees, rfl, ?_⟩
          rw [hTrees] at hEcho
          exact hEcho.follow hTaken
      · exact hTyped written trees value rest hEcho hTail

omit hEchoing in
theorem echoes_closingComma :
    EchoesAs false closingComma fun tokens => tokens := by
  refine .of_echoes ?_
  unfold closingComma
  exact .branch (.pure rfl) (.last (echoes_mark _) fun tokens => rfl)

theorem echoes_parameters :
    EchoesAs false g.parameters Prod.snd := by
  refine .of_echoes ?_
  unfold parameters
  refine .iterate ?_ rfl
  rintro ⟨found, _⟩ tokens rfl
  refine .branch (.pure rfl) ?_
  refine .bind (echoes_outerTokens hEchoing) fun attributes => ?_
  refine .branch ?_ ?_
  · refine .bind (echoes_mark _) fun dots => ?_
    exact .bind echoes_closingComma fun comma => .pure rfl
  · refine .bind (echoes_parameter hEchoing) fun form => ?_
    cases form with
    | variadic more =>
        exact .bind echoes_closingComma fun comma => .pure rfl
    | argument argument more =>
        have hRest :
            Echoes false (tokens ++ attributes ++ more)
              (do
                if ← sees (·.isEmpty) then
                  return ((found ++ [argument], tokens ++ attributes ++ more),
                    false)
                return ((found ++ [argument],
                  tokens ++ attributes ++ more ++ (← mark ",")), true))
              fun (next : (List Argument × Tokens) × Bool) printed =>
                printed = next.1.2 := by
          refine .branch (.pure rfl) ?_
          exact .bind (echoes_mark _) fun comma => .pure rfl
        cases argument with
        | receiver => exact .refuseIf hRest
        | typed pattern type => exact .pure_bind hRest

theorem echoes_signature
    (allowSafe : Bool) :
    EchoesAs false (g.signature allowSafe) Signature.tokens := by
  refine .of_echoes ?_
  unfold signature
  refine .bind (echoes_word? _) fun constness => ?_
  refine .bind (echoes_word? _) fun asyncness => ?_
  refine .bind (echoes_word? _) fun unsafety => ?_
  refine .pick (echoes_word? _) .nothing fun safety => ?_
  refine .bind echoes_abi? fun convention => ?_
  refine .bind (echoes_word _) fun keyword => ?_
  refine .bind echoes_name fun name => ?_
  refine .bind (echoes_generics hEchoing) fun generics => ?_
  refine .bind (.within (echoes_parameters hEchoing)) ?_
  rintro ⟨⟨arguments, inputs⟩, span⟩
  refine .bind (echoes_result hEchoing true) ?_
  rintro ⟨result, output⟩
  exact .bind (echoes_clause? hEchoing) fun clause => .pure (by simp)

------------------------------------------------------------
-- Fields
------------------------------------------------------------

theorem echoes_namedField :
    EchoesAs false g.namedField Prod.snd := by
  refine .of_echoes ?_
  unfold namedField
  refine .bind (echoes_outerTokens hEchoing) fun attributes => ?_
  refine .bind echoes_visibility fun visibility => ?_
  refine .look fun placeholder => ?_
  refine .pick echoes_anyWord echoes_name fun name => ?_
  refine .bind (echoes_mark _) fun colon => .look fun record => ?_
  exact .pick (echoes_verbatim _) (echoes_typeTokens hEchoing true)
    fun type => .pure (by simp)

theorem echoes_namedFields :
    EchoesAs false g.namedFields Prod.snd := by
  refine .of_echoes ?_
  unfold namedFields
  refine .bind (.within (.listUntil (echoes_namedField hEchoing))) ?_
  rintro ⟨fields, span⟩
  exact .pure rfl

theorem echoes_positionalField :
    EchoesAs false g.positionalField fun tokens => tokens := by
  refine .of_echoes ?_
  unfold positionalField
  refine .bind (echoes_outerTokens hEchoing) fun attributes => ?_
  refine .bind echoes_visibility fun visibility => ?_
  exact .bind (hEchoing.echoes_type true) fun type => .pure rfl

theorem echoes_positionalFields :
    EchoesAs false g.positionalFields Prod.snd := by
  refine .of_echoes ?_
  unfold positionalFields
  refine .bind (.within (.listUntil (echoes_positionalField hEchoing))) ?_
  rintro ⟨fields, span⟩
  exact .pure rfl

end Grammar

end Nullary
