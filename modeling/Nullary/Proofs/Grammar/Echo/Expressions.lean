import Nullary.Proofs.Grammar.Echo.Patterns

/-
  Expressions are printed with the tokens they were written
  with, save for the positions of fields.

  Main declarations:
    * `Grammar.echoes_closure`
    * `Grammar.echoes_continueFrom`
    * `Grammar.echoes_trailers`
    * `Grammar.echoes_atom`
    * `Grammar.echoes_unaryWith`
    * `Grammar.echoes_leadingExpression`
-/

namespace Nullary

open Nullary.Parser Nullary.Tokens

namespace Grammar

variable {g : Grammar}

------------------------------------------------------------
-- Records, Tuples and Sequences
------------------------------------------------------------

variable (hEchoing : Echoing g)
include hEchoing

theorem echoes_fieldValue :
    EchoesAs false g.fieldValue fun tokens => tokens := by
  refine .of_echoes ?_
  unfold fieldValue
  refine .bind (echoes_outerTokens hEchoing) fun attributes => ?_
  refine .bind echoes_member ?_
  rintro ⟨named, field⟩
  refine .look fun colon => .either ?_ (.pure rfl)
  refine .bind (echoes_mark _) fun colon => ?_
  exact .bind (hEchoing.expression true) fun value => .pure (by simp)

theorem echoes_fieldValues :
    EchoesAs false g.fieldValues fun tokens => tokens := by
  refine .of_echoes ?_
  unfold fieldValues
  refine .iterate ?_ rfl
  rintro found _ rfl
  refine .branch (.pure rfl) (.branch ?_ ?_)
  · refine .bind (echoes_mark _) fun dots => .branch (.pure rfl) ?_
    exact .bind (hEchoing.expression true) fun base => .pure rfl
  · refine .bind (echoes_fieldValue hEchoing) fun field => ?_
    refine .branch (.pure rfl) ?_
    exact .bind (echoes_mark _) fun comma => .pure rfl

theorem echoes_expressionTokens :
    EchoesAs false (Expression.tokens <$> g.expression true) fun tokens =>
      tokens :=
  .map (hEchoing.expression true) fun _ => rfl

theorem echoes_expressionList :
    EchoesAs false g.expressionList fun tokens => tokens :=
  .commaList (echoes_expressionTokens hEchoing)

theorem echoes_sequenceContent :
    EchoesAs false g.sequenceContent fun tokens => tokens := by
  refine .of_echoes ?_
  unfold sequenceContent
  refine .branch (.pure rfl) ?_
  refine .bind (hEchoing.expression true) fun first => ?_
  refine .branch (.pure rfl) (.branch ?_ ?_)
  · refine .bind (echoes_mark _) fun comma => ?_
    exact .bind (echoes_expressionList hEchoing) fun rest => .pure rfl
  · refine .bind (echoes_mark _) fun semicolon => ?_
    exact .bind (hEchoing.expression true) fun length => .pure rfl

theorem echoes_pathExpression
    (allowRecord : Bool) :
    EchoesAs false (g.pathExpression allowRecord) Expression.tokens := by
  refine .of_echoes ?_
  unfold pathExpression
  have hPath := (solid_qualifiedPath hEchoing true).echoes.loose
  refine .bind hPath ?_
  rintro ⟨qualified, path⟩
  refine .look fun isCall => .either ?_ (.look fun isRecord => ?_)
  · refine .bind echoes_macroCall ?_
    rintro ⟨call, braced⟩
    exact .pure rfl
  · refine .either ?_ (.pure rfl)
    exact .bind (.group (echoes_fieldValues hEchoing)) fun fields =>
      .pure rfl

------------------------------------------------------------
-- Control Flow
------------------------------------------------------------

theorem echoes_conditionalBranch :
    EchoesAs false g.conditionalBranch fun tokens => tokens := by
  refine .of_echoes ?_
  unfold conditionalBranch
  refine .bind (echoes_word _) fun keyword => ?_
  refine .bind (hEchoing.expression false) fun condition => ?_
  exact .bind (echoes_block hEchoing) fun body => .pure rfl

theorem echoes_conditional :
    EchoesAs false g.conditional fun tokens => tokens := by
  refine .of_echoes ?_
  unfold conditional
  have hBranch := echoes_conditionalBranch hEchoing
  refine .bind hBranch fun first => .iterate ?_ rfl
  rintro found _ rfl
  refine .branch ?_ (.pure rfl)
  refine .bind (echoes_word _) fun keyword => .branch ?_ ?_
  · exact .bind hBranch fun branch => .pure rfl
  · exact .bind (echoes_block hEchoing) fun block => .pure rfl

theorem echoes_forLoop :
    EchoesAs false g.forLoop fun tokens => tokens := by
  refine .of_echoes ?_
  unfold forLoop
  refine .bind (echoes_word _) fun keyword => ?_
  refine .bind (echoes_alternatives hEchoing) fun pattern => ?_
  refine .bind (echoes_word _) fun inWord => ?_
  refine .bind (hEchoing.expression false) fun values => ?_
  exact .bind (echoes_attributedBlock hEchoing) fun body => .pure rfl

theorem echoes_whileLoop :
    EchoesAs false g.whileLoop fun tokens => tokens := by
  refine .of_echoes ?_
  unfold whileLoop
  refine .bind (echoes_word _) fun keyword => ?_
  refine .bind (hEchoing.expression false) fun condition => ?_
  exact .bind (echoes_attributedBlock hEchoing) fun body => .pure rfl

theorem echoes_wordBlock
    (keyword : String) :
    EchoesAs false (g.wordBlock keyword) fun tokens => tokens := by
  refine .of_echoes ?_
  unfold wordBlock
  refine .bind (echoes_word _) fun found => ?_
  exact .bind (echoes_attributedBlock hEchoing) fun body => .pure rfl

theorem echoes_endlessLoop :
    EchoesAs false g.endlessLoop fun tokens => tokens :=
  echoes_wordBlock hEchoing "loop"

theorem echoes_labelled :
    EchoesAs false g.labelled Expression.tokens := by
  refine .of_echoes ?_
  unfold labelled
  refine .bind echoes_lifetime fun label => ?_
  refine .bind (echoes_mark _) fun colon => ?_
  refine .look fun isWhile => .look fun isFor => .look fun isLoop => ?_
  refine .either ?_ (.either ?_ (.either ?_ ?_))
  · exact .bind (echoes_whileLoop hEchoing) fun body => .pure rfl
  · exact .bind (echoes_forLoop hEchoing) fun body => .pure rfl
  · exact .bind (echoes_endlessLoop hEchoing) fun body => .pure rfl
  · exact .bind (echoes_attributedBlock hEchoing) fun body => .pure rfl

theorem echoes_jumpValue :
    EchoesAs false g.jumpValue fun tokens => tokens := by
  refine .of_echoes ?_
  unfold jumpValue
  refine .branch ?_ (.pure rfl)
  exact .bind (hEchoing.expression true) fun value => .pure rfl

theorem echoes_breakExpression
    (allowRecord : Bool) :
    EchoesAs false (g.breakExpression allowRecord) fun tokens =>
      tokens := by
  refine .of_echoes ?_
  unfold breakExpression
  refine .bind (echoes_word _) fun keyword => ?_
  refine .look fun labelled => .refuseIf ?_
  refine .bind echoes_lifetime? fun label => .branch (.pure rfl) ?_
  exact .bind (echoes_jumpValue hEchoing) fun value => .pure rfl

theorem echoes_closureParameter :
    EchoesAs false g.closureParameter fun tokens => tokens := by
  refine .of_echoes ?_
  unfold closureParameter
  refine .bind (echoes_outerTokens hEchoing) fun attributes => ?_
  refine .bind hEchoing.pattern fun pattern => .branch ?_ (.pure rfl)
  refine .bind (echoes_mark _) fun colon => ?_
  exact .bind (hEchoing.echoes_type true) fun type => .pure rfl

theorem echoes_closure
    (allowRecord : Bool) :
    EchoesAs false (g.closure allowRecord) fun tokens => tokens := by
  refine .of_echoes ?_
  unfold closure
  refine .bind (echoes_quantifier? hEchoing) fun quantifier => ?_
  refine .bind (echoes_word? _) fun constness => ?_
  refine .bind (echoes_word? _) fun movability => ?_
  refine .bind (echoes_word? _) fun asyncness => ?_
  refine .bind (echoes_word? _) fun capture => ?_
  refine .bind (echoes_mark _) fun opening => ?_
  have hParameter := echoes_closureParameter hEchoing
  refine .bind (.flatten (.listUntil hParameter)) fun parameters => ?_
  refine .bind (echoes_mark _) fun closing => .branch ?_ ?_
  · refine .bind (echoes_result hEchoing true) ?_
    rintro ⟨type, result⟩
    exact .bind (echoes_block hEchoing) fun body => .pure rfl
  · exact .bind (hEchoing.expression allowRecord) fun body => .pure rfl

------------------------------------------------------------
-- Operators
------------------------------------------------------------

omit hEchoing in
theorem echoes_dots :
    EchoesAs false dots Prod.snd := by
  refine .of_echoes ?_
  unfold dots
  refine .branch ?_ (.look fun three => .refuseIf ?_)
  · exact .bind (echoes_mark _) fun dots => .pure rfl
  · exact .bind (echoes_mark _) fun dots => .pure rfl

theorem echoes_rangeTail
    (allowRecord : Bool) :
    EchoesAs false (g.rangeTail allowRecord) fun tokens => tokens := by
  refine .of_echoes ?_
  unfold rangeTail
  refine .bind echoes_dots ?_
  rintro ⟨closed, dots⟩
  refine .branch (.pure rfl) ?_
  exact .bind (hEchoing.operand allowRecord _) fun stop => .pure rfl

/- One more operator is printed after the left side. -/
theorem echoes_continueStep
    (allowRecord : Bool)
    (base : Nat)
    (left : Expression) :
    Echoes false left.tokens (g.continueStep allowRecord base left)
      fun next printed => printed = next.1.tokens := by
  unfold continueStep
  refine .either (.pure rfl) (.look fun operator => ?_)
  cases operator with
  | some found =>
      refine .either (.pure rfl) (.refuseIf ?_)
      refine .bind (echoes_mark _) fun symbol => ?_
      exact .bind (hEchoing.operand allowRecord _) fun right => .pure rfl
  | none =>
      refine .look fun assignment => .either ?_ ?_
      · refine .bind (echoes_mark _) fun equals => ?_
        exact .bind (hEchoing.operand allowRecord _) fun right =>
          .pure rfl
      · refine .look fun range => .either ?_ ?_
        · exact .bind (echoes_rangeTail hEchoing allowRecord) fun tail =>
            .pure rfl
        · refine .look fun cast => .either ?_ (.pure rfl)
          refine .bind (echoes_word _) fun keyword => ?_
          refine .bind (hEchoing.echoes_type false) fun type => ?_
          exact .look fun follows => .refuseIf (.pure rfl)

theorem echoes_continueFrom
    (allowRecord : Bool)
    (base : Nat)
    (left : Expression) :
    Echoes false left.tokens (g.continueFrom allowRecord base left)
      fun whole printed => printed = whole.tokens := by
  refine .iterate ?_ rfl
  rintro next _ rfl
  exact echoes_continueStep hEchoing allowRecord base next

theorem echoes_operandWith
    (allowRecord : Bool)
    (level : Nat) :
    EchoesAs false (g.operandWith allowRecord level)
      Expression.tokens := by
  refine .of_echoes ?_
  unfold operandWith
  refine .bind (hEchoing.unary allowRecord) fun first => .iterate ?_ rfl
  rintro right _ rfl
  refine .look fun next => .either (.look fun before => ?_) (.pure rfl)
  refine .andThen (echoes_continueFrom hEchoing allowRecord next right)
    fun whole => ?_
  exact .look fun after => .pure rfl

theorem echoes_expressionWith
    (allowRecord : Bool) :
    EchoesAs false (g.expressionWith allowRecord) Expression.tokens := by
  refine .of_echoes ?_
  unfold expressionWith
  refine .bind (hEchoing.unary allowRecord) fun left => ?_
  exact echoes_continueFrom hEchoing allowRecord _ left

theorem echoes_binds
    (allowRecord : Bool)
    (base : Nat) :
    EchoesAs false
      (g.binds (g.continueFrom allowRecord base) allowRecord)
      fun tokens => tokens := by
  refine .of_echoes ?_
  unfold binds
  refine .bind (echoes_word _) fun keyword => ?_
  refine .bind (echoes_alternatives hEchoing) fun pattern => ?_
  refine .bind (echoes_mark _) fun equals => .bind_assoc ?_
  have hValue :
      EchoesAs false
        (g.unary allowRecord >>= g.continueFrom allowRecord base)
        Expression.tokens := by
    refine .of_echoes (.bind (hEchoing.unary allowRecord) fun left => ?_)
    exact echoes_continueFrom hEchoing allowRecord base left
  exact .bind hValue fun value => .pure rfl

------------------------------------------------------------
-- Selections, Calls and Indices
------------------------------------------------------------

/- Positions with dots between them. -/
omit hEchoing in
theorem texts_dotted
    (found : List Nat)
    (span : Span) :
    texts ((found.map fun n => TokenTree.literal (toString n) span).intersperse
        (.mark '.' false span)) =
      (found.map toString).intersperse "." := by
  induction found with
  | nil => simp
  | cons first others ih =>
      cases others with
      | nil => simp
      | cons second others =>
          simp only [List.map_cons, List.intersperse_cons_cons, texts_cons,
            TokenTree.texts_literal, TokenTree.texts_mark,
            List.cons_append, List.nil_append] at ih ⊢
          rw [ih]
          rfl

/- The positions in a floating point literal are taken apart. -/
omit hEchoing in
theorem echoes_positions :
    EchoesAs false positions Prod.fst := by
  refine .tree ?_
  intro first value after hRead
  split at hRead
  · next text span =>
      split at hRead
      · cases hRead
      · rcases Option.bind_eq_some_iff.mp hRead with
          ⟨found, hFound, hPure⟩
        cases hPure
        refine ⟨?_, fun hStrict => by cases hStrict⟩
        dsimp only
        rw [texts_cons, TokenTree.texts_literal, texts_nil]
        split
        · rw [texts_append, texts_dotted]
          exact .fieldPositions after hFound (Or.inr (by simp))
        · rw [texts_dotted, ← List.append_nil (List.intersperse _ _)]
          exact .fieldPositions after hFound (Or.inl rfl)
  · cases hRead

theorem echoes_selected :
    EchoesAs false g.selected fun tokens => tokens := by
  refine .of_echoes ?_
  unfold selected
  refine .branch ?_ ?_
  · exact .last (echoes_word _) fun tokens => rfl
  · refine .bind echoes_member ?_
    rintro ⟨named, field⟩
    refine .look fun turbofish => ?_
    have hCall :
        ∀ arguments : Tokens,
          Echoes false ([field] ++ arguments)
            (do
              let call ← group .parenthesis g.expressionList
              return field :: arguments ++ call)
            fun tokens printed => printed = tokens := by
      intro arguments
      exact .bind (.group (echoes_expressionList hEchoing)) fun call =>
        .pure rfl
    cases named with
    | false => exact .pure_bind (.look fun isCall => .pure rfl)
    | true =>
        refine .pick hEchoing.echoes_arguments .nothing
          fun arguments => .look fun isCall => ?_
        cases arguments with
        | nil => exact .either (hCall []) (.pure rfl)
        | cons first others => exact hCall (first :: others)

theorem echoes_selection :
    EchoesAs false g.selection fun tokens => tokens := by
  refine .of_echoes ?_
  unfold selection
  have hSelected := echoes_selected hEchoing
  refine .bind (.attempt echoes_positions) fun found => ?_
  rcases found with _ | ⟨tokens, trailing⟩
  · exact .last hSelected fun tokens => rfl
  · cases trailing with
    | false => exact .pure rfl
    | true => exact .bind hSelected fun more => .pure rfl

theorem echoes_trailerStep
    (e : Expression) :
    Echoes false e.tokens (g.trailerStep e) fun next printed =>
      printed = next.1.tokens := by
  unfold trailerStep
  refine .branch ?_ (.branch ?_ (.branch ?_ (.branch ?_ (.pure rfl))))
  · exact .bind (.group (echoes_expressionList hEchoing))
      fun arguments => .pure rfl
  · refine .bind (echoes_mark _) fun dot => ?_
    exact .bind (echoes_selection hEchoing) fun selected => .pure rfl
  · exact .bind (.group (echoes_expressionTokens hEchoing))
      fun index => .pure rfl
  · exact .bind (echoes_mark _) fun question => .pure rfl

theorem echoes_trailers
    (e : Expression) :
    Echoes false e.tokens (g.trailers e) fun whole printed =>
      printed = whole.tokens := by
  refine .iterate ?_ rfl
  rintro next _ rfl
  exact echoes_trailerStep hEchoing next

------------------------------------------------------------
-- Atoms
------------------------------------------------------------

theorem echoes_matchArm :
    EchoesAs false g.matchArm fun tokens => tokens := by
  refine .of_echoes ?_
  unfold matchArm
  refine .bind (echoes_outerTokens hEchoing) fun attributes => ?_
  refine .bind (echoes_alternatives hEchoing) fun pattern => ?_
  have hRest :
      ∀ guarded : Tokens,
        Echoes false ([] ++ attributes ++ pattern.tokens ++ guarded)
          (do
            let arrow ← mark "=>"
            let value ← g.leading
            let comma ←
              if !value.isBlock && (← sees (!·.isEmpty)) then mark ","
              else mark? ","
            return attributes ++ pattern.tokens ++ guarded ++ arrow ++
              value.tokens ++ comma)
          fun tokens printed => printed = tokens := by
    intro guarded
    refine .bind (echoes_mark _) fun arrow => ?_
    refine .bind hEchoing.leading fun value => .look fun more => ?_
    exact .pick (echoes_mark _) (echoes_mark? _) fun comma =>
      .pure (by simp)
  refine .branch ?_ ?_
  · refine .bind (echoes_word _) fun keyword => ?_
    refine .bind (hEchoing.expression true) fun condition => ?_
    exact .pure_bind ((hRest _).cast (by simp))
  · exact .pure_bind ((hRest _).cast (by simp))

theorem echoes_matchExpression :
    EchoesAs false g.matchExpression fun tokens => tokens := by
  refine .of_echoes ?_
  unfold matchExpression
  refine .bind (echoes_word _) fun keyword => ?_
  refine .bind (hEchoing.expression false) fun value => ?_
  have hArms :
      EchoesAs false
        (do
          let attributes ← g.innerTokens
          let arms ← manyToEnd g.matchArm
          return attributes ++ arms.flatten)
        fun tokens => tokens := by
    refine .of_echoes ?_
    refine .bind (echoes_innerTokens hEchoing) fun attributes => ?_
    exact .bind (.manyToEnd (echoes_matchArm hEchoing)) fun arms =>
      .pure (by simp [List.flatMap_id'])
  exact .bind (.group hArms) fun arms => .pure rfl

/- An expression of a given shape. -/
omit hEchoing in
theorem Echoes.shaped
    {p : Parser Tokens}
    (shape : ExpressionShape)
    (hEchoes : EchoesAs false p fun tokens => tokens) :
    Echoes false [] (Expression.mk shape <$> p) fun e printed =>
      printed = e.tokens := by
  have hShaped :
      EchoesAs false (Expression.mk shape <$> p) Expression.tokens :=
    .map hEchoes fun _ => rfl
  exact .last hShaped fun e => rfl

theorem echoes_atom
    (allowRecord : Bool) :
    EchoesAs false (g.atom allowRecord) Expression.tokens := by
  refine .of_echoes ?_
  unfold atom
  refine .branch ?literal (.branch ?async (.branch ?try_ (.branch ?closure
    (.branch ?builtin (.branch ?path (.branch ?tuple (.branch ?break_
    (.branch ?continue_ (.branch ?return_ (.branch ?become (.branch ?list
    (.branch ?let_ (.branch ?if_ (.branch ?while_ (.branch ?for_
    (.branch ?loop (.branch ?match_ (.branch ?unchecked (.branch ?const
    (.branch ?block (.branch ?range (.branch ?placeholder (.branch ?label
    .refuse)))))))))))))))))))))))
  case literal => exact Echoes.shaped _ echoes_literal
  case async =>
    refine .bind (echoes_word _) fun keyword => ?_
    refine .bind (echoes_word? _) fun capture => ?_
    exact .bind (echoes_block hEchoing) fun block => .pure rfl
  case try_ =>
    refine .bind (echoes_word _) fun keyword => ?_
    exact .bind (echoes_block hEchoing) fun block => .pure rfl
  case closure => exact Echoes.shaped _ (echoes_closure hEchoing _)
  case builtin => exact Echoes.shaped _ (echoes_verbatim _)
  case path =>
    exact .last (echoes_pathExpression hEchoing _) fun e => rfl
  case tuple =>
    exact Echoes.shaped _ (.group (echoes_expressionList hEchoing))
  case break_ => exact Echoes.shaped _ (echoes_breakExpression hEchoing _)
  case continue_ =>
    refine .bind (echoes_word _) fun keyword => ?_
    exact .bind echoes_lifetime? fun label => .pure rfl
  case return_ =>
    refine .bind echoes_anyWord fun keyword => ?_
    exact .bind (echoes_jumpValue hEchoing) fun value => .pure rfl
  case become => exact Echoes.shaped _ (echoes_verbatim _)
  case list =>
    exact Echoes.shaped _ (.group (echoes_sequenceContent hEchoing))
  case let_ => exact Echoes.shaped _ (echoes_binds hEchoing _ _)
  case if_ => exact Echoes.shaped _ (echoes_conditional hEchoing)
  case while_ => exact Echoes.shaped _ (echoes_whileLoop hEchoing)
  case for_ => exact Echoes.shaped _ (echoes_forLoop hEchoing)
  case loop => exact Echoes.shaped _ (echoes_endlessLoop hEchoing)
  case match_ => exact Echoes.shaped _ (echoes_matchExpression hEchoing)
  case unchecked => exact Echoes.shaped _ (echoes_wordBlock hEchoing _)
  case const => exact Echoes.shaped _ (echoes_wordBlock hEchoing _)
  case block => exact Echoes.shaped _ (echoes_attributedBlock hEchoing)
  case range =>
    exact .bind (echoes_rangeTail hEchoing _) fun tail => .pure rfl
  case placeholder => exact Echoes.shaped _ (echoes_word _)
  case label => exact .last (echoes_labelled hEchoing) fun e => rfl

------------------------------------------------------------
-- Unary and Leading Expressions
------------------------------------------------------------

omit hEchoing in
theorem echoes_referenceSign :
    EchoesAs false referenceSign fun tokens => tokens := by
  refine .of_echoes ?_
  unfold referenceSign
  refine .bind (echoes_mark _) fun sign => .branch ?_ ?_
  · refine .bind (echoes_word _) fun raw => ?_
    exact .bind echoes_anyWord fun access => .pure rfl
  · exact .bind (echoes_word? _) fun mutability => .pure rfl

theorem echoes_unaryWith
    (allowRecord : Bool) :
    EchoesAs false (g.unaryWith allowRecord) Expression.tokens := by
  refine .of_echoes ?_
  unfold unaryWith
  refine .bind (echoes_outerTokens hEchoing) fun attributes => ?_
  refine .branch ?_ (.branch ?_ ?_)
  · refine .bind echoes_referenceSign fun sign => ?_
    exact .bind (hEchoing.unary allowRecord) fun operand => .pure rfl
  · have hSigned :
        ∀ operator,
          Echoes false ([] ++ attributes)
            (do
              let sign ← mark operator
              let operand ← g.unary allowRecord
              return Expression.plain (attributes ++ sign ++ operand.tokens))
            fun e printed => printed = e.tokens := by
      intro operator
      refine .bind (echoes_mark _) fun sign => ?_
      exact .bind (hEchoing.unary allowRecord) fun operand => .pure rfl
    refine .look fun star => .look fun bang => ?_
    exact .either (hSigned _) (.either (hSigned _) (hSigned _))
  · have hWhole :
        EchoesAs false (g.atom allowRecord >>= g.trailers)
          Expression.tokens := by
      refine .of_echoes (.bind (echoes_atom hEchoing _) fun first => ?_)
      exact echoes_trailers hEchoing first
    refine .bind_assoc (.bind hWhole fun whole => ?_)
    exact .refuseIf (.pure rfl)

theorem echoes_leadingExpression :
    EchoesAs false g.leadingExpression Expression.tokens := by
  refine .of_echoes ?_
  unfold leadingExpression
  refine .bind (echoes_outerTokens hEchoing) fun attributes => ?_
  refine .choice (echoes_atom hEchoing true) (echoes_unaryWith hEchoing true)
    fun first => ?_
  have hFrom := echoes_continueFrom hEchoing true Level.lowest
  refine .either ?_ (.branch ?_ (.pure rfl))
  · exact hFrom { first with tokens := attributes ++ first.tokens }
  · have hTrailers :=
      echoes_trailers hEchoing
        { first with tokens := attributes ++ first.tokens }
    exact .andThen hTrailers fun whole => hFrom whole

end Grammar

end Nullary
