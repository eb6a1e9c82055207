import Nullary.Proofs.Grammar.Echo.Types

/-
  Generic parameters and `where` clauses are printed with the
  tokens they were written with.

  Of a parameter more is said, since it is also cut out of
  the text that it was written in: where its declaration
  starts and ends, and where its default starts.

  Main declarations:
    * `GenericParameter.WrittenAs`
    * `Grammar.writtenAs_of_run_genericParameter`
    * `Grammar.echoes_generics`
    * `Grammar.echoes_clause?`
    * `Grammar.echoes_visibility`
-/

namespace Nullary

open Nullary.Parser Nullary.Tokens

------------------------------------------------------------
-- Starts
------------------------------------------------------------

namespace Tokens

/- Two sequences start at one place. -/
def SameStart
    (written printed : Tokens) : Prop :=
  written.head?.map (·.span.start) = printed.head?.map (·.span.start)

theorem SameStart.append
    {written₁ written₂ printed₁ printed₂ : Tokens}
    (hFirst : SameStart written₁ printed₁)
    (hSecond : SameStart written₂ printed₂) :
    SameStart (written₁ ++ written₂) (printed₁ ++ printed₂) := by
  unfold SameStart at *
  cases written₁ with
  | nil =>
      cases printed₁ with
      | nil => exact hSecond
      | cons => cases hFirst
  | cons =>
      cases printed₁ with
      | nil => cases hFirst
      | cons => exact hFirst

end Tokens

namespace Parser

variable {α : Type}

/- Results that are repeated: the first one, if there is one. -/
theorem cons_of_run_many
    {test : Tokens → Bool}
    {p : Parser α}
    {trees rest : Tokens}
    {values : List α}
    (hRun : (many test p).run trees = some (values, rest)) :
    values = [] ∧ rest = trees ∨
      ∃ value others left, values = value :: others ∧
        p.run trees = some (value, left) := by
  rcases run_bind_eq_some hRun with ⟨found, _, hFound, hPure⟩
  cases hPure
  rcases run_bind_eq_some hFound with ⟨count, _, hCount, hLoop⟩
  cases hCount
  rcases run_bind_eq_some hLoop with ⟨⟨next, more⟩, left, hStep, hLoop⟩
  rcases run_bind_eq_some hStep with ⟨_, _, hSees, hStep⟩
  cases hSees
  split at hStep
  · rcases run_bind_eq_some hStep with ⟨value, _, hValue, hPure⟩
    cases hPure
    -- What has been found stays at the end.
    have hSuffix : [value] <:+ found := by
      let kept : List α → Prop := fun state => [value] <:+ state
      have hKept : kept found := by
        refine of_run_loop ?_ (List.suffix_refl _) hLoop
        intro state trees next rest hState hNext
        rcases run_bind_eq_some hNext with ⟨_, _, _, hNext⟩
        split at hNext
        · rcases run_bind_eq_some hNext with ⟨_, _, _, hPure⟩
          cases hPure
          exact List.IsSuffix.trans hState (List.suffix_cons _ _)
        · cases hNext
          exact hState
      exact hKept
    rcases hSuffix with ⟨others, rfl⟩
    exact Or.inr ⟨value, others.reverse, left, by simp, hValue⟩
  · cases hStep
    cases hLoop
    exact Or.inl ⟨rfl, rfl⟩

end Parser

namespace Grammar

variable {g : Grammar}
variable {strict : Bool}

/- Attributes start where they were written. -/
theorem sameStart_of_run_outerTokens
    (hEchoing : Echoing g)
    {trees rest tokens : Tokens}
    (hRun : g.outerTokens.run trees = some (tokens, rest)) :
    ∃ taken, trees = taken ++ rest ∧ SameStart taken tokens ∧
      Echo true rest.texts taken tokens := by
  rcases echoes_outerTokens hEchoing trees tokens rest hRun with
    ⟨taken, rfl, hEcho⟩
  refine ⟨taken, rfl, ?_, hEcho⟩
  have hSame := (hEcho.sameEnd rfl).eq_nil_iff
  rcases run_bind_eq_some hRun with ⟨attributes, _, hAttributes, hPure⟩
  cases hPure
  rcases cons_of_run_many hAttributes with
    ⟨rfl, _⟩ | ⟨first, others, left, rfl, hFirst⟩
  · rw [hSame.mpr rfl]
    rfl
  · rcases run_bind_eq_some hFirst with ⟨hash, _, hHash, hFirst⟩
    rcases run_bind_eq_some hFirst with ⟨_, _, _, hPure⟩
    cases hPure
    have hMark : "#".toList = ['#'] := rfl
    rcases eq_mark_of_run_mark hMark hHash with
      ⟨joint, span, hTrees, rfl⟩
    cases taken with
    | nil =>
        have hNil := hSame.mp rfl
        simp [Attribute.outerTokens] at hNil
    | cons head more =>
        cases hTrees
        simp [Attribute.outerTokens, SameStart, TokenTree.span]

end Grammar

------------------------------------------------------------
-- Parameters
------------------------------------------------------------

/-
  How a parameter was written before other trees: its
  declaration, a colon that no bounds follow, and its default.
-/
structure GenericParameter.WrittenAs
    (p : GenericParameter)
    (declared colon assigned rest : Tokens) : Prop where
  start : SameStart declared p.declaration
  declaration :
    Echo true (texts (colon ++ (assigned ++ rest))) declared p.declaration
  colon : DanglingColon colon (assigned ++ rest)
  default : Echo false rest.texts assigned p.default
  equals :
    assigned = [] ∧ p.default = [] ∨
      ∃ joint span value value', assigned = .mark '=' joint span :: value ∧
        p.default = .mark '=' false span :: value'
  name :
    ∃ text span, .word text span ∈ declared ∧
      ((p.sort == .lifetime) = false ∧ p.name = [.word text span] ∨
        p.sort = .lifetime ∧
          ∃ quote, p.name = [.mark '\'' true quote, .word text span])

/- A parameter that is a lifetime has a quote. -/
theorem GenericParameter.WrittenAs.quote_mem
    {p : GenericParameter}
    {declared colon assigned rest : Tokens}
    (hWritten : p.WrittenAs declared colon assigned rest)
    (hSort : (p.sort == .lifetime) = true) :
    "'" ∈ p.name.texts := by
  rcases hWritten.name with
    ⟨text, span, _, ⟨hOther, _⟩ | ⟨_, quote, hName⟩⟩
  · rw [hOther] at hSort
    cases hSort
  · rw [hName, texts_cons, TokenTree.texts_mark]
    exact List.mem_append_left _ (List.mem_singleton.mpr rfl)

namespace Grammar

variable {attributes written trees rest : Tokens}
variable {p : GenericParameter}

theorem writtenAs_of_run_lifetimeGeneric
    (hEchoing : Echoing g)
    (hStart : SameStart written attributes)
    (hWritten : Echo true trees.texts written attributes)
    (hRun : (g.lifetimeGeneric attributes).run trees = some (p, rest)) :
    ∃ declared colon assigned,
      trees = declared ++ (colon ++ (assigned ++ rest)) ∧
      p.WrittenAs (written ++ declared) colon assigned rest := by
  rcases run_bind_eq_some hRun with ⟨more, left, hMore, hTail⟩
  rcases run_bind_eq_some hTail with ⟨name, left', hName, hTail⟩
  rcases run_bind_eq_some hTail with ⟨bounds, left'', hBounds, hPure⟩
  cases hPure
  rcases sameStart_of_run_outerTokens hEchoing hMore with
    ⟨taken, rfl, hStartMore, hEchoMore⟩
  rcases echo_of_run_lifetimeBounds (fun _ => ends_of_parameter)
      hBounds with
    ⟨taken', colon, rfl, hColon, hEchoBounds⟩
  rcases eq_of_run_lifetime hName with
    ⟨joint, quote, text, span, rfl, rfl⟩
  have hEchoName :
      Echo true (texts (taken' ++ (colon ++ rest)))
        [.mark '\'' joint quote, .word text span]
        [.mark '\'' true quote, .word text span] :=
    (Echo.mark '\'' joint true quote).append (.word text span)
  have hDeclared :=
    ((hWritten.follow hEchoMore).follow hEchoName).follow hEchoBounds
  refine ⟨taken ++ (.mark '\'' joint quote :: .word text span :: taken'),
    colon, [], by simp, ?_⟩
  have hStartName :
      SameStart (.mark '\'' joint quote :: .word text span :: taken')
        (.mark '\'' true quote :: .word text span :: bounds) := by
    simp [SameStart, TokenTree.span]
  exact
    { start := by
        simpa [GenericParameter.declaration] using
          hStart.append (hStartMore.append hStartName)
      declaration := by
        simpa [GenericParameter.declaration] using hDeclared
      colon := hColon
      default := .nil
      equals := Or.inl ⟨rfl, rfl⟩
      name :=
        ⟨text, span, by simp, Or.inr ⟨rfl, quote, rfl⟩⟩ }

/- What ends the bounds of a type parameter. -/
theorem ends_of_typeParameter
    (hStop :
      (trees.atMark "," || trees.atMark ">" || trees.atMark "=") = true) :
    Ends trees.texts := by
  rw [Bool.or_eq_true] at hStop
  rcases hStop with hParameter | hEquals
  · exact ends_of_parameter hParameter
  · exact ends_of_atMark (c := '=') rfl (by decide) hEquals

/- Bounds up to a stop that are printed as nothing are none. -/
theorem of_run_boundsUntil_nil
    (hEchoing : Echoing g)
    {stop : Tokens → Bool}
    (hStop : ∀ trees, stop trees = true → Ends trees.texts)
    (trees rest : Tokens)
    (hRun : (g.boundsUntil stop).run trees = some ([], rest)) :
    rest = trees ∧ Ends trees.texts := by
  rcases of_run_flatten_nil (solid_boundTokens hEchoing) hRun with
    ⟨rfl, hStopped⟩
  exact ⟨rfl, hStop _ hStopped⟩

/- A default after its equality sign, if there is one. -/
theorem assigned_of_run
    {α : Type}
    {value : Parser α}
    {print : α → Tokens}
    (hValue : EchoesAs false value print)
    (make : Tokens → GenericParameter)
    (hRun :
      (do
        if ← sees (·.atMark "=") then
          let equals ← mark "="
          let default ← value
          return make (equals ++ print default)
        return make []).run trees = some (p, rest)) :
    ∃ assigned default, trees = assigned ++ rest ∧ p = make default ∧
      Echo false rest.texts assigned default ∧
      (assigned = [] ∧ default = [] ∨
        ∃ joint span taken printed,
          assigned = .mark '=' joint span :: taken ∧
          default = .mark '=' false span :: printed) := by
  rcases run_bind_eq_some hRun with ⟨_, _, hSees, hTail⟩
  cases hSees
  split at hTail
  · rcases run_bind_eq_some hTail with ⟨equals, left, hEquals, hTail⟩
    rcases run_bind_eq_some hTail with ⟨default, _, hDefault, hPure⟩
    cases hPure
    have hMark : "=".toList = ['='] := rfl
    rcases eq_mark_of_run_mark hMark hEquals with
      ⟨joint, span, rfl, rfl⟩
    rcases hValue left default rest hDefault with ⟨taken, rfl, hTaken⟩
    have hSign :
        Echo false (texts (taken ++ rest)) [.mark '=' joint span]
          [.mark '=' false span] :=
      .mark '=' joint false span
    exact ⟨.mark '=' joint span :: taken, _, rfl, rfl,
      hSign.follow hTaken,
      Or.inr ⟨joint, span, taken, _, rfl, rfl⟩⟩
  · cases hTail
    exact ⟨[], [], rfl, rfl, .nil, Or.inl ⟨rfl, rfl⟩⟩

theorem writtenAs_of_run_typeGeneric
    (hEchoing : Echoing g)
    (hStart : SameStart written attributes)
    (hWritten : Echo true trees.texts written attributes)
    (hRun : (g.typeGeneric attributes).run trees = some (p, rest)) :
    ∃ declared colon assigned,
      trees = declared ++ (colon ++ (assigned ++ rest)) ∧
      p.WrittenAs (written ++ declared) colon assigned rest := by
  rcases run_bind_eq_some hRun with ⟨name, left, hName, hTail⟩
  rcases run_bind_eq_some hTail with ⟨colon, left', hColon, hTail⟩
  rcases run_pick_eq_some hTail with ⟨bounds, left'', hBounds, hLast⟩
  rcases eq_of_run_name hName with ⟨text, span, rfl, rfl, _⟩
  have hNone :=
    of_run_boundsUntil_nil hEchoing fun _ => ends_of_typeParameter
  rcases echo_of_colon (echoes_boundsUntil hEchoing _) hNone hColon
      hBounds with
    ⟨taken, dropped, rfl, hDropped, hEchoBounds⟩
  rcases assigned_of_run (hEchoing.echoes_type true)
      (⟨.type, attributes, [], [.word text span],
        if bounds.isEmpty then [] else colon ++ bounds, ·, []⟩) hLast with
    ⟨assigned, default, rfl, rfl, hDefault, hEquals⟩
  have hEchoName :
      Echo true (texts (taken ++ (dropped ++ (assigned ++ rest))))
        [.word text span] [.word text span] :=
    .word text span
  have hDeclared := hWritten.follow (hEchoName.follow hEchoBounds)
  have hStartName :
      SameStart (.word text span :: taken)
        (.word text span ::
          (if bounds.isEmpty then [] else colon ++ bounds)) := by
    simp [SameStart]
  refine ⟨.word text span :: taken, dropped, assigned, by simp, ?_⟩
  exact
    { start := by
        simpa [GenericParameter.declaration] using
          hStart.append hStartName
      declaration := by
        simpa [GenericParameter.declaration] using hDeclared
      colon := hDropped
      default := hDefault
      equals := hEquals
      name := ⟨text, span, by simp, Or.inl ⟨rfl, rfl⟩⟩ }

theorem writtenAs_of_run_constGeneric
    (hEchoing : Echoing g)
    (hStart : SameStart written attributes)
    (hWritten : Echo true trees.texts written attributes)
    (hRun : (g.constGeneric attributes).run trees = some (p, rest)) :
    ∃ declared colon assigned,
      trees = declared ++ (colon ++ (assigned ++ rest)) ∧
      p.WrittenAs (written ++ declared) colon assigned rest := by
  rcases run_bind_eq_some hRun with ⟨keyword, left₁, hKeyword, hTail⟩
  rcases run_bind_eq_some hTail with ⟨name, left₂, hName, hTail⟩
  rcases run_bind_eq_some hTail with ⟨colon, left₃, hColon, hTail⟩
  rcases run_bind_eq_some hTail with ⟨type, left₄, hType, hLast⟩
  rcases eq_of_run_word hKeyword with ⟨span', rfl, rfl⟩
  rcases eq_of_run_name hName with ⟨text, span, rfl, rfl, _⟩
  rcases echoes_mark ":" left₂ colon left₃ hColon with
    ⟨taken, rfl, hEchoColon⟩
  rcases hEchoing.echoes_type true left₃ type left₄ hType with
    ⟨taken', rfl, hEchoType⟩
  rcases assigned_of_run (echoes_constArgument hEchoing)
      (⟨.const, attributes, [.word "const" span'], [.word text span],
        colon ++ type.tokens, ·, []⟩) hLast with
    ⟨assigned, default, rfl, rfl, hDefault, hEquals⟩
  have hEchoName :
      Echo true (texts (taken ++ (taken' ++ (assigned ++ rest))))
        [.word "const" span', .word text span]
        [.word "const" span', .word text span] :=
    (Echo.word "const" span').append (.word text span)
  have hDeclared :=
    ((hWritten.follow hEchoName).follow hEchoColon).follow hEchoType
  have hStartName :
      SameStart (.word "const" span' :: .word text span :: taken)
        (.word "const" span' :: .word text span :: colon) := by
    simp [SameStart]
  refine ⟨.word "const" span' :: .word text span :: (taken ++ taken'),
    [], assigned, by simp, ?_⟩
  exact
    { start := by
        simpa [GenericParameter.declaration, SameStart] using
          hStart.append hStartName
      declaration := by
        simpa [GenericParameter.declaration] using hDeclared
      colon := Or.inl rfl
      default := hDefault
      equals := hEquals
      name := ⟨text, span, by simp, Or.inl ⟨rfl, rfl⟩⟩ }

/- A placeholder has no bounds and no default. -/
theorem writtenAs_of_run_placeholder
    (hStart : SameStart written attributes)
    (hWritten : Echo true trees.texts written attributes)
    (hRun :
      (do
        let name ← word "_"
        return (⟨.type, attributes, [], name, [], [], []⟩ :
          GenericParameter)).run trees = some (p, rest)) :
    ∃ declared colon assigned,
      trees = declared ++ (colon ++ (assigned ++ rest)) ∧
      p.WrittenAs (written ++ declared) colon assigned rest := by
  rcases run_bind_eq_some hRun with ⟨name, left, hName, hPure⟩
  cases hPure
  rcases eq_of_run_word hName with ⟨span, rfl, rfl⟩
  have hEchoName :
      Echo true rest.texts [.word "_" span] [.word "_" span] :=
    .word "_" span
  have hDeclared := hWritten.follow hEchoName
  have hStartName :
      SameStart [.word "_" span] [.word "_" span] :=
    rfl
  refine ⟨[.word "_" span], [], [], rfl, ?_⟩
  exact
    { start := by
        simpa [GenericParameter.declaration] using
          hStart.append hStartName
      declaration := by
        simpa [GenericParameter.declaration] using hDeclared
      colon := Or.inl rfl
      default := .nil
      equals := Or.inl ⟨rfl, rfl⟩
      name := ⟨"_", span, by simp, Or.inl ⟨rfl, rfl⟩⟩ }

/- How a parameter was written. -/
theorem writtenAs_of_run_genericParameter
    (hEchoing : Echoing g)
    (hRun : g.genericParameter.run trees = some (p, rest)) :
    ∃ declared colon assigned,
      trees = declared ++ (colon ++ (assigned ++ rest)) ∧
      p.WrittenAs declared colon assigned rest := by
  rcases run_bind_eq_some hRun with ⟨attributes, left, hAttributes, hTail⟩
  rcases sameStart_of_run_outerTokens hEchoing hAttributes with
    ⟨taken, rfl, hStart, hEcho⟩
  have hSorts :
      ∃ declared colon assigned,
        left = declared ++ (colon ++ (assigned ++ rest)) ∧
        p.WrittenAs (taken ++ declared) colon assigned rest := by
    rcases run_bind_eq_some hTail with ⟨_, _, hSees, hTail⟩
    cases hSees
    split at hTail
    · exact writtenAs_of_run_lifetimeGeneric hEchoing hStart hEcho hTail
    · rcases run_bind_eq_some hTail with ⟨_, _, hSees, hTail⟩
      cases hSees
      split at hTail
      · exact writtenAs_of_run_typeGeneric hEchoing hStart hEcho hTail
      · rcases run_bind_eq_some hTail with ⟨_, _, hSees, hTail⟩
        cases hSees
        split at hTail
        · exact writtenAs_of_run_constGeneric hEchoing hStart hEcho hTail
        · exact writtenAs_of_run_placeholder hStart hEcho hTail
  rcases hSorts with ⟨declared, colon, assigned, rfl, hWritten⟩
  exact ⟨taken ++ declared, colon, assigned, by simp, hWritten⟩

theorem echoes_genericParameter
    (hEchoing : Echoing g) :
    EchoesAs false g.genericParameter GenericParameter.tokens := by
  intro trees p rest hRun
  rcases writtenAs_of_run_genericParameter hEchoing hRun with
    ⟨declared, colon, assigned, rfl, hWritten⟩
  refine ⟨declared ++ colon ++ assigned, by simp, ?_⟩
  have hDeclared := hWritten.declaration.drop_colon hWritten.colon
  exact hDeclared.follow hWritten.default

end Grammar

------------------------------------------------------------
-- Lists of Parameters
------------------------------------------------------------

/- Parameters are printed as other lists in angle brackets are. -/
theorem Generics.printWith_eq
    (g : Generics)
    (print : GenericParameter → Tokens)
    (hParameters : g.parameters ≠ []) :
    g.printWith print =
      g.opening ++
        Grammar.inOrder (g.parameters.map fun p =>
          ((p.sort == .lifetime, print p), p.comma)) ++
        g.closing := by
  have hSome : g.parameters.isEmpty = false := by simpa using hParameters
  rw [Generics.printWith, hSome, Grammar.inOrder]
  simp only [List.filter_map, List.flatMap_map, List.getLast?_map,
    List.isEmpty_map, Option.all_map, Function.comp_def,
    Bool.false_eq_true, if_false, List.append_assoc]
  rfl

namespace Grammar

theorem echoes_generics
    (hEchoing : Echoing g) :
    EchoesAs false g.generics Generics.tokens := by
  intro trees value rest hRun
  rcases run_bind_eq_some hRun with ⟨_, _, hSees, hTail⟩
  cases hSees
  split at hTail
  · rcases run_bind_eq_some hTail with ⟨opening, left₁, hOpening, hTail⟩
    rcases run_bind_eq_some hTail with ⟨values, left₂, hValues, hTail⟩
    rcases run_bind_eq_some hTail with ⟨closing, left₃, hClosing, hPure⟩
    cases hPure
    by_cases hNil : values = []
    · subst hNil
      rcases (listed_of_run_listUntil hValues).of_nil with ⟨rfl, _⟩
      have hOpen : "<".toList = ['<'] := rfl
      have hClose : ">".toList = ['>'] := rfl
      rcases eq_mark_of_run_mark hOpen hOpening with
        ⟨joint, span, rfl, rfl⟩
      rcases eq_mark_of_run_mark hClose hClosing with
        ⟨joint', span', rfl, rfl⟩
      refine ⟨[.mark '<' joint span, .mark '>' joint' span'], rfl, ?_,
        fun hStrict => by cases hStrict⟩
      simpa [Generics.tokens, Generics.printWith] using
        Reprints.emptyParameters rest.texts
    · have hFirst :
          ∀ trees (p : GenericParameter) rest,
            g.genericParameter.run trees = some (p, rest) →
            (p.sort == .lifetime) = true → "'" ∈ p.tokens.texts := by
        intro trees p rest hRun hSort
        rcases writtenAs_of_run_genericParameter hEchoing hRun with
          ⟨_, _, _, _, hWritten⟩
        have hName := hWritten.quote_mem hSort
        simp [GenericParameter.tokens, GenericParameter.declaration, hName]
      rcases echo_of_angled (echoes_genericParameter hEchoing) hFirst
          hOpening hValues hClosing with
        ⟨taken, hTrees, hTaken⟩
      refine ⟨taken, hTrees, ?_⟩
      rw [Generics.tokens, Generics.printWith_eq _ _ (by simpa using hNil)]
      rw [List.map_map]
      exact hTaken
  · cases hTail
    exact ⟨[], rfl, .nil⟩

------------------------------------------------------------
-- Where Clauses
------------------------------------------------------------

theorem solid_predicate
    (hEchoing : Echoing g) :
    EchoesSolid g.predicate fun tokens => tokens := by
  refine .of_echoes ?_
  unfold predicate
  refine .branch ?_ ?_
  · refine .bind_solid solid_lifetime fun name hName => ?_
    refine .bind (echoes_mark _) fun colon => ?_
    exact .bind (echoes_lifetimes _) fun bounds =>
      .pure ⟨rfl, by simp [hName]⟩
  · refine .bind (echoes_quantifier? hEchoing) fun quantifier => ?_
    refine .bind_solid (hEchoing.type true) fun type hType => ?_
    refine .bind (echoes_mark _) fun colon => ?_
    exact .bind (echoes_boundsUntil hEchoing _) fun bounds =>
      .pure ⟨rfl, by simp [hType]⟩

/- What ends a clause ends a list. -/
theorem ends_of_endsClause
    {trees : Tokens}
    (hEnds : endsClause trees = true) :
    Ends trees.texts := by
  simp only [endsClause, Bool.or_eq_true] at hEnds
  rcases hEnds with ((((hEmpty | hBrace) | hComma) | hSemicolon) | hColon) |
    hEquals
  · exact ends_of_isEmpty hEmpty
  · exact ends_of_atGroup hBrace
  · exact ends_of_atMark (c := ',') rfl (by decide) hComma
  · exact ends_of_atMark (c := ';') rfl (by decide) hSemicolon
  · rw [atColon, Bool.and_eq_true] at hColon
    exact ends_of_atMark (c := ':') rfl (by decide) hColon.1
  · exact ends_of_atMark (c := '=') rfl (by decide) hEquals

/-
  How a clause was written: its keyword and its predicates.
  A keyword alone stands before the end of a list.
-/
theorem echo_of_run_clause
    (hEchoing : Echoing g)
    {trees rest : Tokens}
    {value : WhereClause}
    (hRun : g.clause.run trees = some (value, rest)) :
    ∃ span taken, trees = .word "where" span :: (taken ++ rest) ∧
      value.keyword = [.word "where" span] ∧
      (value.predicates = [] → taken = [] ∧ Ends rest.texts) ∧
      Echo true rest.texts taken value.predicates := by
  rcases run_bind_eq_some hRun with ⟨keyword, left, hKeyword, hTail⟩
  rcases run_bind_eq_some hTail with ⟨_, _, hSees, hTail⟩
  cases hSees
  split at hTail
  · cases hTail
  · rcases run_bind_eq_some hTail with
      ⟨predicates, _, hPredicates, hPure⟩
    cases hPure
    rcases eq_of_run_word hKeyword with ⟨span, rfl, rfl⟩
    have hSolid := solid_predicate hEchoing
    rcases EchoesAs.flatten (.listWhile hSolid.echoes) left predicates
        rest hPredicates with
      ⟨taken, rfl, hEcho⟩
    refine ⟨span, taken, rfl, rfl, ?_, hEcho⟩
    rintro rfl
    rcases of_run_flatten_nil hSolid hPredicates with ⟨hRest, hStop⟩
    have hNil : taken = [] := (hEcho.sameEnd rfl).eq_nil_iff.mpr rfl
    rw [hNil] at hStop
    exact ⟨hNil, ends_of_endsClause hStop⟩

theorem echoes_clause
    (hEchoing : Echoing g) :
    EchoesAs false g.clause WhereClause.tokens := by
  intro trees value rest hRun
  rcases echo_of_run_clause hEchoing hRun with
    ⟨span, taken, rfl, hKeyword, hNone, hEcho⟩
  refine ⟨.word "where" span :: taken, rfl, ?_⟩
  unfold WhereClause.tokens
  split
  · next hEmpty =>
      rcases hNone (List.isEmpty_iff.mp hEmpty) with ⟨rfl, hEnds⟩
      refine ⟨?_, fun hStrict => by cases hStrict⟩
      simpa using Reprints.emptyWhere hEnds
  · rw [hKeyword]
    have hWord :
        Echo true (texts (taken ++ rest)) [.word "where" span]
          [.word "where" span] :=
      .word "where" span
    exact (hWord.follow hEcho).loose

/- The tokens of a clause that may be missing. -/
theorem echoes_clause?
    (hEchoing : Echoing g) :
    EchoesAs false g.clause? fun clause =>
      (clause.map (·.tokens)).getD [] := by
  refine .of_echoes ?_
  unfold clause?
  refine .branch ?_ (.pure rfl)
  exact .bind (echoes_clause hEchoing) fun clause => .pure rfl

------------------------------------------------------------
-- Visibility
------------------------------------------------------------

theorem echoes_shortRestriction :
    EchoesAs strict shortRestriction Prod.snd := by
  refine .of_echoes ?_
  unfold shortRestriction
  have hInside :
      EchoesAs false
        (do
          require fun trees =>
            trees.atWord "crate" || trees.atWord "self" ||
              trees.atWord "super"
          let name ← anyWord
          return (if wordText name = "crate" then Scope.crate
            else .restricted, [name]))
        (fun found : Scope × Tokens => found.2) := by
    refine .of_echoes (.require ?_)
    exact .bind echoes_anyWord fun name => .pure rfl
  refine .bind (.within hInside) ?_
  rintro ⟨⟨scope, tokens⟩, span⟩
  exact .pure rfl

theorem echoes_pathRestriction :
    EchoesAs strict pathRestriction fun tokens => tokens := by
  refine .group (.of_echoes ?_)
  refine .bind (echoes_word _) fun keyword => ?_
  refine .bind echoes_plainPath ?_
  rintro ⟨leading, segments, path⟩
  exact .pure rfl

theorem echoes_visibility :
    EchoesAs strict visibility Visibility.tokens := by
  refine .of_echoes ?_
  unfold visibility
  refine .branch ?_ (.pure rfl)
  refine .bind (echoes_word _) fun keyword => .branch ?_ ?_
  · exact .bind echoes_pathRestriction fun path => .pure rfl
  · refine .bind (.attempt echoes_shortRestriction) fun found => ?_
    cases found with
    | none => exact .pure (by simp)
    | some found => exact .pure rfl

end Grammar

end Nullary
