import Nullary.Proofs.Grammar.Echo.Generics

/-
  Patterns are printed with the tokens they were written
  with, save for the positions of fields and for the three
  dots of a closed range.

  Main declarations:
    * `Grammar.echoes_member`
    * `Grammar.echoes_rangeDots`
    * `Grammar.echoes_alternatives`
    * `Grammar.echoes_singlePattern`
-/

namespace Nullary

open Nullary.Parser Nullary.Tokens

namespace Grammar

variable {g : Grammar}

/- The position of a field is printed in decimal digits. -/
theorem echoes_fieldPosition :
    EchoesAs false fieldPosition fun tree => [tree] := by
  refine .tree ?_
  intro first value after hRead
  split at hRead
  · next text span =>
      rcases Option.bind_eq_some_iff.mp hRead with
        ⟨position, hPosition, hPure⟩
      cases hPure
      refine ⟨?_, fun hStrict => by cases hStrict⟩
      simpa using Reprints.fieldPosition after hPosition
  · cases hRead

theorem echoes_member :
    EchoesAs false member fun found => [found.2] := by
  refine .of_echoes ?_
  unfold member
  refine .branch ?_ ?_
  · exact .bind echoes_anyWord fun name => .pure rfl
  · exact .bind echoes_fieldPosition fun position => .pure rfl

variable (hEchoing : Echoing g)
include hEchoing

theorem echoes_alternatives :
    EchoesAs false g.alternatives Pattern.tokens := by
  refine .of_echoes ?_
  unfold alternatives
  refine .bind (echoes_mark? _) fun leading => ?_
  refine .bind hEchoing.pattern fun first => ?_
  have hPart :
      EchoesAs false
        (do
          let bar ← mark "|"
          let pattern ← g.pattern
          return bar ++ pattern.tokens)
        fun tokens => tokens := by
    refine .of_echoes ?_
    refine .bind (echoes_mark _) fun bar => ?_
    exact .bind hEchoing.pattern fun pattern => .pure rfl
  refine .bind (.many hPart) fun rest => ?_
  split
  · next hNone =>
      simp only [Bool.and_eq_true, List.isEmpty_iff] at hNone
      exact .pure (by simp [hNone])
  · exact .pure (by simp [List.flatMap_id'])

------------------------------------------------------------
-- Ranges
------------------------------------------------------------

theorem echoes_rangeBound :
    EchoesAs false g.rangeBound fun tokens => tokens := by
  refine .of_echoes ?_
  unfold rangeBound
  refine .branch (.pure rfl) (.branch ?_ (.branch ?_ ?_))
  · exact .last echoes_literal fun tokens => rfl
  · have hPath := (solid_qualifiedPath hEchoing true).echoes.loose
    refine .bind hPath ?_
    rintro ⟨qualified, path⟩
    exact .pure rfl
  · refine .bind (echoes_word _) fun keyword => ?_
    exact .bind (echoes_attributedBlock hEchoing) fun block => .pure rfl

/- Three dots are printed as those of a closed range. -/
omit hEchoing in
theorem echoes_rangeDots :
    EchoesAs false rangeDots Prod.snd := by
  have hOther :
      ∀ closed operator,
        EchoesAs false
          (do
            let dots ← mark operator
            return (closed, dots))
          (fun found : Bool × Tokens => found.2) := by
    intro closed operator
    refine .of_echoes ?_
    exact .bind (echoes_mark _) fun dots => .pure rfl
  intro trees value rest hRun
  rcases run_bind_eq_some hRun with ⟨_, _, hSees, hTail⟩
  cases hSees
  split at hTail
  · exact hOther true _ trees value rest hTail
  · rcases run_bind_eq_some hTail with ⟨_, _, hSees, hTail⟩
    cases hSees
    split at hTail
    · rcases run_bind_eq_some hTail with ⟨dots, left, hDots, hTail⟩
      split at hTail
      · cases hTail
        rcases texts_taken_of_run_mark hDots with
          ⟨taken, hTrees, hTaken, _⟩
        refine ⟨taken, hTrees, ?_, fun hStrict => by cases hStrict⟩
        have hMarks : "...".toList.map (·.toString) = [".", ".", "."] :=
          rfl
        rw [hTaken, hMarks]
        simpa using Reprints.closedRange rest.texts
      · cases hTail
    · exact hOther false _ trees value rest hTail

theorem echoes_rangeFrom
    (start : Tokens) :
    Echoes false start (g.rangeFrom start) fun pattern printed =>
      printed = pattern.tokens := by
  unfold rangeFrom
  refine .bind echoes_rangeDots ?_
  rintro ⟨closed, dots⟩
  refine .bind (echoes_rangeBound hEchoing) fun stop => ?_
  exact .refuseIf (.pure rfl)

theorem echoes_rangeTo :
    EchoesAs false g.rangeTo Pattern.tokens := by
  refine .of_echoes ?_
  unfold rangeTo
  refine .branch ?_ ?_
  all_goals
    refine .bind (echoes_mark _) fun dots => .pure_bind ?_
    refine .bind (echoes_rangeBound hEchoing) fun stop => ?_
    exact .refuseIf (.pure rfl)

------------------------------------------------------------
-- Records
------------------------------------------------------------

theorem echoes_fieldPattern :
    EchoesAs false g.fieldPattern fun tokens => tokens := by
  refine .of_echoes ?_
  unfold fieldPattern
  refine .bind (echoes_word? _) fun boxed => ?_
  refine .bind (echoes_word? _) fun byReference => ?_
  refine .bind (echoes_word? _) fun mutability => ?_
  rw [List.nil_append]
  generalize boxed ++ byReference ++ mutability = binding
  cases binding with
  | nil =>
      refine .bind echoes_member ?_
      rintro ⟨named, field⟩
      refine .look fun colon => .either ?_ (.pure rfl)
      refine .bind (echoes_mark _) fun colon => ?_
      exact .bind (echoes_alternatives hEchoing) fun pattern =>
        .pure (by simp)
  | cons first others =>
      -- A field that is bound in some way has no pattern of its own.
      refine .bind echoes_name fun field => .pure_bind ?_
      exact .look fun colon => .pure rfl

theorem echoes_fieldPatterns :
    EchoesAs false g.fieldPatterns fun tokens => tokens := by
  refine .of_echoes ?_
  unfold fieldPatterns
  refine .iterate ?_ rfl
  rintro found _ rfl
  refine .branch (.pure rfl) ?_
  refine .bind (echoes_outerTokens hEchoing) fun attributes => ?_
  refine .branch ?_ ?_
  · exact .bind (echoes_mark _) fun dots => .pure rfl
  · refine .bind (echoes_fieldPattern hEchoing) fun field => ?_
    refine .branch (.pure rfl) ?_
    exact .bind (echoes_mark _) fun comma => .pure rfl

theorem echoes_patternList :
    EchoesAs false g.patternList fun tokens => tokens :=
  .commaList (.map (echoes_alternatives hEchoing) fun _ => rfl)

theorem echoes_sequencePattern :
    EchoesAs false g.sequencePattern fun tokens => tokens := by
  refine .group (.commaList (.of_echoes ?_))
  refine .bind (echoes_alternatives hEchoing) fun pattern => ?_
  exact .refuseIf (.pure rfl)

theorem echoes_pathPattern :
    EchoesAs false g.pathPattern Pattern.tokens := by
  refine .of_echoes ?_
  unfold pathPattern
  have hPath := (solid_qualifiedPath hEchoing true).echoes.loose
  refine .bind hPath ?_
  rintro ⟨qualified, path⟩
  refine .look fun isCall => .either ?_ (.branch ?_ (.branch ?_
    (.branch ?_ (.pure rfl))))
  · refine .bind echoes_macroCall ?_
    rintro ⟨call, braced⟩
    exact .pure rfl
  · exact .bind (.group (echoes_fieldPatterns hEchoing)) fun fields =>
      .pure rfl
  · exact .bind (.group (echoes_patternList hEchoing)) fun elements =>
      .pure rfl
  · exact echoes_rangeFrom hEchoing path.tokens

------------------------------------------------------------
-- Patterns
------------------------------------------------------------

theorem echoes_binding :
    EchoesAs false g.binding fun tokens => tokens := by
  refine .of_echoes ?_
  unfold binding
  refine .bind (echoes_word? _) fun byReference => ?_
  refine .bind (echoes_word? _) fun mutability => ?_
  refine .choice echoes_anyWord echoes_name fun name => ?_
  refine .branch ?_ (.pure_bind (.pure (by simp)))
  refine .bind (echoes_mark _) fun sign => ?_
  exact .bind hEchoing.pattern fun pattern =>
    .pure_bind (.pure (by simp))

theorem echoes_singlePattern :
    EchoesAs false g.singlePattern Pattern.tokens := by
  refine .of_echoes ?_
  unfold singlePattern
  refine .branch ?_ (.branch ?_ (.branch ?_ (.branch ?_ (.branch ?_
    (.branch ?_ (.branch ?_ (.branch ?_ (.branch ?_ .refuse))))))))
  · exact .last (echoes_pathPattern hEchoing) fun pattern => rfl
  · exact .bind (echoes_word _) fun tokens => .pure rfl
  · exact .bind (echoes_verbatim _) fun tokens => .pure rfl
  · refine .bind (echoes_rangeBound hEchoing) fun start => ?_
    exact .branch (echoes_rangeFrom hEchoing start) (.pure rfl)
  · exact .bind (echoes_binding hEchoing) fun tokens => .pure rfl
  · refine .bind (echoes_mark _) fun sign => ?_
    refine .bind (echoes_word? _) fun mutability => ?_
    exact .bind hEchoing.pattern fun pattern => .pure rfl
  · exact .bind (.group (echoes_patternList hEchoing)) fun tokens =>
      .pure rfl
  · exact .bind (echoes_sequencePattern hEchoing) fun tokens => .pure rfl
  · exact .last (echoes_rangeTo hEchoing) fun pattern => rfl

end Grammar

end Nullary
