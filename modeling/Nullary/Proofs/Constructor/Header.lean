import Nullary.Constructor.Tokens
import Nullary.Proofs.Grammar.Records
import Nullary.Proofs.Token.Cutting.Folding

/-
  The header of the generated implementation, as text and as
  tokens.

  The text cuts the parameters and the clause of a record out
  of the file that declares it; the tokens print what was
  parsed.  Both say the same of a record unless a comment or a
  literal does not survive the cutting.

  Main declarations:
    * `GenericParameter.exists_yields_source`
    * `WhereClause.exists_yields_source`
    * `Generics.yields_angled`
    * `Generics.reprints_printWith`
    * `DropsCommas`
    * `StructItem.headerText_reads_as_headerTokens`
-/

namespace Nullary

open SourceText Nullary.Tokens Nullary.Lexeme

------------------------------------------------------------
-- Slices
------------------------------------------------------------

/-
  A span leads to its text: no mark is dropped when the text
  is parsed, or the span does not start on the first line.
-/
def SourceText.IsFirm
    (body : List Char)
    (span : Span) : Prop :=
  body.head? ≠ some byteOrderMark ∨ 1 < span.start.line

instance
    (body : List Char)
    (span : Span) :
    Decidable (IsFirm body span) :=
  inferInstanceAs (Decidable (_ ∨ _))

theorem SourceText.between_of_isFirm
    {body : List Char}
    {start stop stop' : Nat}
    (hFirm :
      IsFirm body (spanAt (dropByteOrderMark body) start stop'))
    (hOrder : start ≤ stop)
    (hStop : stop ≤ (dropByteOrderMark body).length) :
    between body (positionAt (dropByteOrderMark body) start)
        (positionAt (dropByteOrderMark body) stop) =
      ((dropByteOrderMark body).drop start).take (stop - start) := by
  unfold IsFirm at hFirm
  unfold dropByteOrderMark at *
  split at hStop
  · next hMark =>
      rw [if_pos hMark] at hFirm ⊢
      rcases List.head?_eq_some_iff.mp hMark with ⟨text, rfl⟩
      rw [List.tail_cons] at *
      have hNewline : '\n' ∈ text.take start := by
        have hLine := hFirm.resolve_left (fun hNot => hNot hMark)
        rw [spanAt, positionAt, after_first] at hLine
        exact List.count_pos_iff.mp (by simpa using hLine)
      have hOffset :
          ∀ offset, start ≤ offset → offset ≤ text.length →
            SourceText.offset (byteOrderMark :: text)
                (positionAt text offset) =
              offset + 1 := by
        intro offset hFrom hTo
        rw [offset_cons_positionAt (by decide) hTo,
          if_pos (List.take_subset_take_left text hFrom hNewline)]
      rw [between, hOffset start (Nat.le_refl start) (hOrder.trans hStop),
        hOffset stop hOrder hStop, List.drop_succ_cons,
        Nat.add_sub_add_right]
  · next hMark =>
      rw [if_neg hMark]
      rw [between, offset_positionAt (hOrder.trans hStop),
        offset_positionAt hStop]

/- A text from one offset on, cut in two at another one. -/
theorem SourceText.drop_eq_take_append
    (text : List Char)
    {start stop : Nat}
    (hOrder : start ≤ stop) :
    text.drop start = (text.drop start).take (stop - start) ++
      text.drop stop := by
  have hParts := List.take_append_drop (stop - start) (text.drop start)
  rw [List.drop_drop, Nat.add_sub_cancel' hOrder] at hParts
  exact hParts.symm

------------------------------------------------------------
-- Spans of What is Printed
------------------------------------------------------------

namespace Tokens

/- What starts at one place goes on doing so. -/
theorem span_start_append
    {written printed : Tokens}
    (hStart : SameStart written printed)
    (hSome : written ≠ [])
    (more more' : Tokens) :
    (span (printed ++ more)).start = (span (written ++ more')).start := by
  cases written with
  | nil => exact absurd rfl hSome
  | cons first rest =>
      cases printed with
      | nil => cases hStart
      | cons first' rest' =>
          have hSame := (Option.some.inj hStart).symm
          simpa [span, List.getLast?_cons, Span.join] using hSame

/- What starts and ends at one place has one span. -/
theorem span_eq_of_same
    {written printed : Tokens}
    (hStart : SameStart written printed)
    (hEnd : SameEnd written printed) :
    span printed = span written := by
  have hStop := hEnd.stop
  unfold SameStart at hStart
  cases written with
  | nil =>
      rw [hEnd.eq_nil_iff.mp rfl]
  | cons first rest =>
      cases printed with
      | nil => cases hStart
      | cons first' rest' =>
          simp only [List.head?_cons, Option.map_some,
            Option.some.injEq, List.getLast?_cons] at hStart hStop
          simp [span, List.getLast?_cons, Span.join, hStart, hStop]

end Tokens

------------------------------------------------------------
-- Pieces That Are Cut Out
------------------------------------------------------------

/-
  A piece of a text spells the trees that are read from it,
  also without the blanks at its end.
-/
theorem Tokens.Between.yields
    {text piece tail : List Char}
    {start stop : Nat}
    {trees : Tokens}
    (hBetween : Between text start stop trees)
    (hEnds : EndsToken (text.drop stop))
    (hPiece : (text.drop start).take (stop - start) = piece ++ tail)
    (hTail : ∀ c ∈ tail, isBlank c = true)
    (hClosed : ¬ Reaches Comment.OpenLine piece)
    (hLine :
      Reaches Comment.OpenLine (piece ++ tail) →
        ∃ c, text[stop]? = some c ∧ c ≠ '\n') :
    Yields piece trees.texts := by
  have hOrder := hBetween.le.1
  rcases hBetween with ⟨lexemes, hLexemes, hNesting⟩
  have hCut := drop_eq_take_append text hOrder
  rw [hPiece] at hCut
  rcases hLexemes.spells hCut hEnds hLine with ⟨found, hFound, hTexts⟩
  rcases hFound.cut (fun c hMem => Or.inl (hTail c hMem)) hClosed with
    ⟨before, after, rfl, hAfter, hYields⟩
  rcases hAfter.texts_of_tail (fun c hMem => Or.inl (hTail c hMem)) with
    ⟨count, hCount, hNone⟩
  rw [hNone hTail, List.replicate_zero] at hCount
  rw [textsAll_append, hCount, List.append_nil] at hTexts
  rw [hNesting.texts_eq, ← hTexts]
  exact hYields

------------------------------------------------------------
-- Parameters
------------------------------------------------------------

namespace GenericParameter

variable {body : List Char}
variable {p : GenericParameter}

/-
  A parameter can be cut out of a text: it is found by its
  span, and no comment is left open at its end.
-/
structure CutsCleanly
    (body : List Char)
    (p : GenericParameter) : Prop where
  firm : IsFirm body (span p.tokens)
  closed : ¬ Reaches Comment.OpenLine (p.source body)

instance
    (body : List Char)
    (p : GenericParameter) :
    Decidable (p.CutsCleanly body) :=
  decidable_of_iff
    (IsFirm body (span p.tokens) ∧
      ¬ Reaches Comment.OpenLine (p.source body))
    ⟨fun h => ⟨h.1, h.2⟩, fun h => ⟨h.firm, h.closed⟩⟩

/- A parameter without a default is cut out as it stands. -/
theorem yields_source_of_plain
    (hClean : p.CutsCleanly body)
    {start stop : Nat}
    {declared rest : Tokens}
    (hBetween :
      Between (dropByteOrderMark body) start stop (declared ++ rest))
    (hStops : Stops rest)
    (hSome : declared ≠ [])
    (hSpan : span p.declaration = span declared)
    (hDefault : p.default = []) :
    Yields (p.source body) declared.texts := by
  rcases hBetween.split (Or.inr hStops.isContinuation) with
    ⟨middle, hDeclared, hRest⟩
  rcases hDeclared.tight hSome with
    ⟨first, last, _, hTight, hAfter, hAt⟩
  have hTokens :
      span p.tokens = spanAt (dropByteOrderMark body) first last := by
    rw [tokens, hDefault, List.append_nil, hSpan, hAt]
  have hFirm := hClean.firm
  rw [hTokens] at hFirm
  have hPiece :
      ((dropByteOrderMark body).drop first).take (last - first) =
        p.source body ++ [] := by
    rw [source, hDefault, hTokens, List.append_nil]
    exact (between_of_isFirm hFirm hTight.le.1 hTight.le.2).symm
  refine hTight.yields ((hAfter.append hRest).endsToken hStops) hPiece
    (List.forall_mem_nil _) hClean.closed fun hReaches => ?_
  rw [List.append_nil] at hReaches
  exact absurd hReaches hClean.closed

/- A parameter with a default is cut out up to its equality sign. -/
theorem yields_source_of_default
    (hClean : p.CutsCleanly body)
    {start stop : Nat}
    {declared rest default : Tokens}
    {joint : Bool}
    {equals : Span}
    (hBetween :
      Between (dropByteOrderMark body) start stop
        (declared ++ .mark '=' joint equals :: rest))
    (hSome : declared ≠ [])
    (hStart : (span p.tokens).start = (span declared).start)
    (hDefault : p.default = .mark '=' false equals :: default) :
    Yields (p.source body) declared.texts := by
  have hStops : Stops (.mark '=' joint equals :: rest) :=
    ⟨_, rest, rfl, rfl⟩
  rcases hBetween.split (Or.inr hStops.isContinuation) with
    ⟨middle, hDeclared, hRest⟩
  rcases hRest.exists_mark (by decide) with
    ⟨place, hGaps, hChar, hPlace⟩
  rcases hDeclared.tight hSome with
    ⟨first, last, _, hTight, hAfter, hAt⟩
  -- The blanks and comments before the sign are cut out, too.
  have hWhole :
      Between (dropByteOrderMark body) first place declared := by
    have hAll := (hTight.append hAfter).append hGaps
    rwa [List.append_nil, List.append_nil] at hAll
  rw [hAt] at hStart
  have hFirm :
      IsFirm body (spanAt (dropByteOrderMark body) first last) := by
    have hLine := hClean.firm
    unfold IsFirm at hLine ⊢
    rwa [hStart] at hLine
  have hSource :
      p.source body =
        Text.trimEnd (((dropByteOrderMark body).drop first).take
          (place - first)) := by
    rw [source, hDefault]
    dsimp only
    rw [hStart]
    exact congrArg Text.trimEnd
      ((congrArg _ hPlace).trans
        (between_of_isFirm hFirm hWhole.le.1 hWhole.le.2))
  have hClosed := hClean.closed
  rcases Text.reverse_dropWhile_reverse isBlank
      (((dropByteOrderMark body).drop first).take (place - first)) with
    ⟨tail, hTrimmed, hTail, _⟩
  rw [hSource] at hClosed ⊢
  have hEnds : EndsToken ((dropByteOrderMark body).drop place) := by
    rcases List.head?_eq_some_iff.mp hChar with ⟨more, hMore⟩
    rw [hMore]
    exact endsToken_cons (by rw [GoesOn]; decide) more
  rw [List.head?_drop] at hChar
  exact hWhole.yields hEnds hTrimmed hTail hClosed
    fun _ => ⟨'=', hChar, by decide⟩

/-
  What is cut out for a parameter spells tokens that are
  printed as the parameter without its default.
-/
theorem exists_yields_source
    (hStands : p.StandsIn (dropByteOrderMark body))
    (hClean : p.CutsCleanly body) :
    ∃ written, Yields (p.source body) written ∧
      ∀ after, Ends after →
        Reprints after written p.declaration.texts := by
  rcases hStands with
    ⟨start, stop, declared, colon, assigned, rest, hBetween, hWritten,
      hStops⟩
  have hSome : declared ≠ [] := by
    rcases hWritten.name with ⟨text, place, hMem, _⟩
    exact List.ne_nil_of_mem hMem
  have hColon := hWritten.colon
  rcases hWritten.equals with
    ⟨rfl, hDefault⟩ | ⟨joint, equals, value, value', rfl, hDefault⟩
  · rw [List.nil_append] at hBetween hColon
    have hStops' := hColon.stops hStops
    have hSpan :=
      span_eq_of_same hWritten.start (hWritten.declaration.sameEnd rfl)
    refine ⟨declared.texts, yields_source_of_plain hClean hBetween
      hStops' hSome hSpan hDefault, ?_⟩
    intro after hAfter
    exact hWritten.declaration.reprints.of_context
      (Or.inr ⟨hStops'.ends, hAfter⟩)
  · have hTrees :
        declared ++ (colon ++ (.mark '=' joint equals :: value ++ rest)) =
          (declared ++ colon) ++
            .mark '=' joint equals :: (value ++ rest) := by
      simp
    rw [hTrees] at hBetween
    have hStart :=
      span_start_append hWritten.start hSome p.default colon
    refine ⟨(declared ++ colon).texts,
      yields_source_of_default hClean hBetween (by simp [hSome]) hStart
        hDefault, ?_⟩
    intro after hAfter
    have hEcho := hWritten.declaration.drop_colon hColon
    have hStops' : Stops (.mark '=' joint equals :: value ++ rest) :=
      ⟨_, _, rfl, rfl⟩
    exact hEcho.reprints.of_context (Or.inr ⟨hStops'.ends, hAfter⟩)

/- The name of a parameter spells its tokens. -/
theorem yields_nameText
    {text : List Char}
    (hStands : p.StandsIn text) :
    Yields p.nameText p.name.texts := by
  rcases hStands with
    ⟨start, stop, declared, colon, assigned, rest, hBetween, hWritten,
      _⟩
  rcases hWritten.name with ⟨word, span, hMem, hName⟩
  have hWord : IsIdentifier word.toList :=
    hBetween.isIdentifier (List.mem_append_left _ hMem)
  rcases hName with ⟨_, hName⟩ | ⟨_, quote, hName⟩
  · rw [nameText, hName]
    simpa [TokenTree.printAll, TokenTree.print] using Yields.word hWord
  · rw [nameText, hName]
    simpa [TokenTree.printAll, TokenTree.print, TokenTree.isJoint] using
      Yields.lifetime hWord

end GenericParameter

------------------------------------------------------------
-- Clauses
------------------------------------------------------------

namespace WhereClause

/-
  A clause can be cut out of a text and put on one line: it
  has no predicates, or it is found by its span and nothing
  in it needs its line breaks and repeated blanks.
-/
def FoldsCleanly
    (body : List Char)
    (clause : WhereClause) : Prop :=
  clause.predicates = [] ∨
    IsFirm body (span clause.tokens) ∧
      ¬ Reaches Uneven (slice body (span clause.tokens))

instance
    (body : List Char)
    (clause : WhereClause) :
    Decidable (clause.FoldsCleanly body) :=
  inferInstanceAs (Decidable (_ ∨ _))

/- Nothing is cut out for a clause without predicates. -/
theorem source_of_nil
    {clause : WhereClause}
    (hNone : clause.predicates = [])
    (body : List Char) :
    clause.source body = [] := by
  simp [source, tokens, hNone, span, slice, between, Text.words,
    Text.wordsFrom, Text.joinWith, Text.trimEndChar, Span.nowhere]

/-
  What is cut out for a clause spells tokens that are printed
  as the clause, once the commas at its end are put back.
-/
theorem exists_yields_source
    {body : List Char}
    {clause : WhereClause}
    (hStands : clause.StandsIn (dropByteOrderMark body))
    (hClean : clause.FoldsCleanly body) :
    ∃ written count, Yields (clause.source body) written ∧
      ∀ after, Ends after →
        Reprints after (written ++ List.replicate count ",")
          clause.tokens.texts := by
  by_cases hNone : clause.predicates = []
  · refine ⟨[], 0, ?_, fun after _ => ?_⟩
    · rw [source_of_nil hNone]
      exact .nil
    · simpa [tokens, hNone] using Reprints.nil after
  rcases hClean.resolve_left hNone with ⟨hFirm, hEven⟩
  rcases hStands with
    ⟨start, stop, keyword, taken, rest, hBetween, hKeyword, hEcho,
      hStops⟩
  have hTokens :
      clause.tokens = .word "where" keyword :: clause.predicates := by
    rw [tokens, hKeyword]
    simp [hNone]
  have hWhere :
      Echo true (texts (taken ++ rest)) [.word "where" keyword]
        [.word "where" keyword] :=
    .word "where" keyword
  have hWhole := hWhere.follow hEcho
  have hSpan :
      span clause.tokens = span (.word "where" keyword :: taken) := by
    rw [hTokens]
    exact span_eq_of_same rfl (hWhole.sameEnd rfl)
  have hParts : Between (dropByteOrderMark body) start stop
      ((.word "where" keyword :: taken) ++ rest) :=
    hBetween
  rcases hParts.split (Or.inr hStops.isContinuation) with
    ⟨middle, hClause, hRest⟩
  rcases hClause.tight (by simp) with
    ⟨first, last, _, hTight, hAfter, hAt⟩
  rw [hAt] at hSpan
  have hSlice :
      slice body (span clause.tokens) =
        ((dropByteOrderMark body).drop first).take (last - first) := by
    rw [hSpan] at hFirm ⊢
    exact between_of_isFirm hFirm hTight.le.1 hTight.le.2
  have hEnds := (hAfter.append hRest).endsToken hStops
  have hCut := drop_eq_take_append (dropByteOrderMark body) hTight.le.1
  rw [← hSlice] at hCut
  rcases hTight with ⟨lexemes, hLexemes, hNesting⟩
  rcases hLexemes.spells hCut hEnds
      (fun hLine => absurd (hLine.imp fun _ h => Or.inl h.1) hEven) with
    ⟨found, hFound, hTexts⟩
  rcases Text.trimEndChar_joinWith_words
      (slice body (span clause.tokens)) with
    ⟨piece, tail, hPiece, hTail, hSource⟩
  rw [hPiece] at hFound hEven
  rcases hFound.squeeze hTail hEven true with
    ⟨before, after, rfl, hSpells, hYields⟩
  rcases hSpells.texts_of_tail hTail with ⟨count, hCount, _⟩
  rw [textsAll_append, hCount, ← hNesting.texts_eq] at hTexts
  refine ⟨textsAll before, count, ?_, ?_⟩
  · rw [source, hSource]
    exact hYields
  · intro after hAfter
    rw [hTexts, hTokens]
    exact hWhole.reprints.of_context (Or.inr ⟨hStops.ends, hAfter⟩)

end WhereClause

------------------------------------------------------------
-- Lists of Parameters
------------------------------------------------------------

/- Texts with a comma between them. -/
def commaTexts
    (values : List (List String)) : List String :=
  [","].intercalate values

namespace GenericParameter

variable {parameters : List GenericParameter}

/- Parameters with their commas, each of them written in some way. -/
def listTexts
    (parameters : List GenericParameter)
    (written : GenericParameter → List String) : List String :=
  parameters.flatMap fun p => written p ++ p.comma.texts

/- Only after the last parameter a comma may be missing. -/
theorem Separated.listTexts_eq
    (hSeparated : Separated parameters)
    (written : GenericParameter → List String) :
    ∃ final, (final = [] ∨ final = [","]) ∧
      listTexts parameters written =
        commaTexts (parameters.map written) ++ final := by
  induction parameters with
  | nil => exact ⟨[], Or.inl rfl, rfl⟩
  | cons p others ih =>
      cases others with
      | nil =>
          refine ⟨p.comma.texts, hSeparated, ?_⟩
          simp [listTexts, commaTexts]
      | cons next others =>
          rcases ih hSeparated.2 with ⟨final, hFinal, hTexts⟩
          refine ⟨final, hFinal, ?_⟩
          have hList :
              listTexts (p :: next :: others) written =
                written p ++ p.comma.texts ++
                  listTexts (next :: others) written :=
            rfl
          rw [hList, hTexts, hSeparated.1]
          simp [commaTexts, List.intercalate]

theorem Separated.comma
    (hSeparated : Separated parameters)
    (p : GenericParameter)
    (hMem : p ∈ parameters) :
    p.comma.texts = [] ∨ p.comma.texts = [","] := by
  induction parameters with
  | nil => cases hMem
  | cons first others ih =>
      cases others with
      | nil =>
          cases List.mem_singleton.mp hMem
          exact hSeparated
      | cons next others =>
          rcases List.mem_cons.mp hMem with rfl | hOther
          · exact Or.inr hSeparated.1
          · exact ih hSeparated.2 hOther

/- Parameters that are printed in their order. -/
theorem Separated.reprints
    (hSeparated : Separated parameters)
    {written printed : GenericParameter → List String}
    (hPrinted :
      ∀ p ∈ parameters, ∀ after, Ends after →
        Reprints after (written p) (printed p))
    {after : List String}
    (hAfter : Ends after) :
    Reprints after (listTexts parameters written)
      (listTexts parameters printed) := by
  have hComma : ∀ rest : List String, Ends ("," :: rest) := by
    rintro rest text ⟨⟩
    decide
  induction parameters with
  | nil => exact .nil after
  | cons p others ih =>
      rw [List.forall_mem_cons] at hPrinted
      have hOne :
          ∀ after', Ends (p.comma.texts ++ after') →
            Reprints after' (written p ++ p.comma.texts)
              (printed p ++ p.comma.texts) :=
        fun after' hEnds =>
          .append (hPrinted.1 _ hEnds) (.refl after' _)
      cases others with
      | nil =>
          simp only [listTexts, List.flatMap_cons, List.flatMap_nil,
            List.append_nil]
          apply hOne
          rcases hSeparated with hNone | hSome
          · rw [hNone]
            exact hAfter
          · rw [hSome]
            exact hComma after
      | cons next others =>
          refine .append (hOne _ ?_) (ih hSeparated.2 hPrinted.2)
          rw [hSeparated.1]
          exact hComma _

end GenericParameter

namespace Generics

variable {g : Generics}

/- The parameters in angle brackets with a comma between them. -/
def angledTexts
    (g : Generics)
    (written : GenericParameter → List String) : List String :=
  if g.parameters.isEmpty then
    []
  else
    "<" :: (commaTexts (g.parameters.map written) ++ [">"])

/- The parameters as they were written. -/
def writtenTexts
    (g : Generics)
    (written : GenericParameter → List String) : List String :=
  if g.parameters.isEmpty then
    []
  else
    "<" :: (GenericParameter.listTexts g.parameters written ++ [">"])

/- Parameters are printed as a list in angle brackets. -/
theorem reprints_printWith
    (hBrackets :
      g.parameters ≠ [] →
        g.opening.texts = ["<"] ∧ g.closing.texts = [">"])
    (hSeparated : GenericParameter.Separated g.parameters)
    {written : GenericParameter → List String}
    {print : GenericParameter → Tokens}
    (hPrinted :
      ∀ p ∈ g.parameters, ∀ after, Ends after →
        Reprints after (written p) (print p).texts)
    (hLifetimes :
      ∀ p ∈ g.parameters, (p.sort == .lifetime) = true →
        "'" ∈ (print p).texts)
    (after : List String) :
    Reprints after (g.writtenTexts written) (g.printWith print).texts := by
  by_cases hNone : g.parameters = []
  · simpa [writtenTexts, printWith, hNone] using Reprints.nil after
  rcases hBrackets hNone with ⟨hOpening, hClosing⟩
  rw [printWith_eq g print hNone, texts_append, texts_append,
    Grammar.texts_inOrder, hOpening, hClosing, List.singleton_append,
    List.cons_append, writtenTexts, if_neg (by simpa using hNone)]
  refine .lifetimesFirst ?_ ?_ ?_
  · simp only [Grammar.valueTexts, List.map_map, List.mem_map]
    rintro _ ⟨p, hMem, rfl⟩
    exact hLifetimes p hMem
  · simp only [Grammar.valueTexts, List.map_map, List.mem_map]
    rintro _ ⟨p, hMem, rfl⟩
    exact hSeparated.comma p hMem
  · have hClose : Ends [">"] := by
      rintro text ⟨⟩
      decide
    have hAfter : Ends ([">"] ++ after) := hClose
    have hList :
        (Grammar.valueTexts (g.parameters.map fun p =>
            ((p.sort == .lifetime, print p), p.comma))).flatMap
          (fun value => value.1.2 ++ value.2) =
        GenericParameter.listTexts g.parameters
          fun p => (print p).texts := by
      simp [Grammar.valueTexts, GenericParameter.listTexts,
        List.flatMap_map]
    rw [hList]
    exact .append (.same _ "<")
      (.append (hSeparated.reprints hPrinted hAfter) (.same _ ">"))

/- Texts with commas between them spell their tokens. -/
theorem yields_joinWith
    {α : Type}
    {values : List α}
    {text : α → List Char}
    {written : α → List String}
    (hText : ∀ value ∈ values, Yields (text value) (written value)) :
    Yields (Text.joinWith ", ".toList (values.map text))
      (commaTexts (values.map written)) := by
  induction values with
  | nil => exact .nil
  | cons value others ih =>
      rw [List.forall_mem_cons] at hText
      cases others with
      | nil =>
          simpa [Text.joinWith, commaTexts, List.intercalate] using
            hText.1
      | cons next others =>
          have hRest := (ih hText.2).blank (c := ' ') (by decide)
          have hComma :=
            hRest.mark (c := ',') (by decide) (by decide) (by decide)
          have hAll :=
            hText.1.append hComma fun rest _ =>
              endsPiece_cons (by decide) _
          simpa [Text.joinWith, commaTexts, List.intercalate] using hAll

/- Texts of the parameters in angle brackets spell their tokens. -/
theorem yields_angled
    {text : GenericParameter → List Char}
    {written : GenericParameter → List String}
    (hText : ∀ p ∈ g.parameters, Yields (text p) (written p)) :
    Yields (g.angled text) (g.angledTexts written) := by
  unfold angled angledTexts
  split
  · exact .nil
  have hClose : Yields ['>'] [">"] :=
    Yields.nil.mark (by decide) (by decide) (by decide)
  have hList := (yields_joinWith hText).append hClose fun rest _ =>
    endsPiece_cons (by decide) rest
  exact hList.mark (by decide) (by decide) (by decide)

end Generics

------------------------------------------------------------
-- Headers
------------------------------------------------------------

/-
  `DropsCommas written fewer`: commas are left out where a
  bracket that closes parameters or a brace comes next.
-/
inductive DropsCommas : List String → List String → Prop where
  | nil : DropsCommas [] []
  | keep
      (text : String)
      {written fewer : List String}
      (hRest : DropsCommas written fewer) :
      DropsCommas (text :: written) (text :: fewer)
  | drop
      {written fewer : List String}
      (hNext : fewer.head? = some ">" ∨ fewer.head? = some "\x7b")
      (hRest : DropsCommas written fewer) :
      DropsCommas ("," :: written) fewer

namespace DropsCommas

variable {written fewer : List String}

theorem append_left
    (texts : List String)
    (hRest : DropsCommas written fewer) :
    DropsCommas (texts ++ written) (texts ++ fewer) := by
  induction texts with
  | nil => exact hRest
  | cons text texts ih => exact .keep text ih

theorem replicate
    (count : Nat)
    (hNext : fewer.head? = some ">" ∨ fewer.head? = some "\x7b")
    (hRest : DropsCommas written fewer) :
    DropsCommas (List.replicate count "," ++ written) fewer := by
  induction count with
  | zero => exact hRest
  | succ count ih => exact .drop hNext ih

end DropsCommas

namespace Generics

variable {g : Generics}

/- Commas are left out at the end of the parameters only. -/
theorem dropsCommas
    (hSeparated : GenericParameter.Separated g.parameters)
    (texts : GenericParameter → List String)
    {written fewer : List String}
    (hRest : DropsCommas written fewer) :
    DropsCommas (g.writtenTexts texts ++ written)
      (g.angledTexts texts ++ fewer) := by
  unfold writtenTexts angledTexts
  split
  · exact hRest
  rcases hSeparated.listTexts_eq texts with ⟨final, hFinal, hList⟩
  rw [hList, List.cons_append, List.cons_append, List.append_assoc,
    List.append_assoc, List.append_assoc]
  refine .keep "<" (.append_left _ ?_)
  have hClose : DropsCommas (">" :: written) (">" :: fewer) :=
    .keep ">" hRest
  rcases hFinal with rfl | rfl
  · exact hClose
  · exact .drop (Or.inl rfl) hClose

theorem endsPiece_angled
    (text : GenericParameter → List Char)
    (rest : List Char)
    (hRest : EndsPiece rest) :
    EndsPiece (g.angled text ++ rest) := by
  unfold angled
  split
  · exact hRest
  · exact endsPiece_cons (by decide) _

theorem endsPiece_clauseSource
    (text rest : List Char)
    (hRest : EndsPiece rest) :
    EndsPiece (g.clauseSource text ++ rest) := by
  unfold clauseSource
  split
  · exact hRest
  · exact endsPiece_cons (by decide) _

/- What is cut out for a clause, if there is one. -/
theorem exists_yields_clauseSource
    {body : List Char}
    (hStands :
      ∀ clause ∈ g.clause, clause.StandsIn (dropByteOrderMark body))
    (hClean : ∀ clause ∈ g.clause, clause.FoldsCleanly body) :
    ∃ written count, Yields (g.clauseSource body) written ∧
      ∀ after, Ends after →
        Reprints after (written ++ List.replicate count ",")
          g.clauseTokens.texts := by
  unfold clauseSource clauseTokens
  cases hClause : g.clause with
  | none =>
      refine ⟨[], 0, .nil, fun after _ => ?_⟩
      simpa using Reprints.nil after
  | some clause =>
      rcases WhereClause.exists_yields_source (hStands clause hClause)
          (hClean clause hClause) with
        ⟨written, count, hYields, hReprints⟩
      exact ⟨written, count, hYields.blank (by decide), hReprints⟩

end Generics

/- The record that an item declares, if it declares one. -/
def Item.record? : Item → Option StructItem
  | .struct record => some record
  | _ => none

theorem Item.record?_eq_some_iff
    {item : Item}
    {record : StructItem} :
    item.record? = some record ↔ item = .struct record := by
  cases item <;> simp [record?]

namespace StructItem

/- The text of a header spells the tokens of its parts. -/
theorem yields_headerText
    {record : StructItem}
    {body : List Char}
    (hName : IsIdentifier record.name.toList)
    {declared : GenericParameter → List String}
    (hDeclared :
      ∀ p ∈ record.generics.parameters,
        Yields (p.source body) (declared p))
    (hNames :
      ∀ p ∈ record.generics.parameters, Yields p.nameText p.name.texts)
    {clause : List String}
    (hClause : Yields (record.generics.clauseSource body) clause) :
    Yields (record.headerText body)
      ("impl" :: (record.generics.angledTexts declared ++
        record.name :: (record.generics.angledTexts (·.name.texts) ++
          clause))) := by
  have hImpl : Yields "impl".toList ["impl"] := .word (by decide)
  have hWord := (Yields.word hName).blank (c := ' ') (by decide)
  have hAll :=
    (((hImpl.append (Generics.yields_angled hDeclared)
        (Generics.endsPiece_angled _)).append hWord
        fun rest _ => endsPiece_cons (by decide) _).append
          (Generics.yields_angled hNames)
          (Generics.endsPiece_angled _)).append hClause
            (Generics.endsPiece_clauseSource body)
  unfold headerText
  simpa using hAll

/- The tokens of a header are printed from those of its parts. -/
theorem reprints_headerTokens
    {record : StructItem}
    {text : List Char}
    (hStands : record.StandsIn text)
    {declared : GenericParameter → List String}
    (hDeclared :
      ∀ p ∈ record.generics.parameters, ∀ after, Ends after →
        Reprints after (declared p) p.declaration.texts)
    {after clause : List String}
    (hClause : Reprints after clause record.generics.clauseTokens.texts) :
    Reprints after
      ("impl" :: (record.generics.writtenTexts declared ++
        record.name :: (record.generics.writtenTexts (·.name.texts) ++
          clause)))
      record.headerTokens.texts := by
  have hQuote :
      ∀ p ∈ record.generics.parameters, (p.sort == .lifetime) = true →
        "'" ∈ p.name.texts := by
    intro p hMem hSort
    rcases hStands.parameters p hMem with
      ⟨_, _, _, _, _, _, _, hWritten, _⟩
    exact hWritten.quote_mem hSort
  have hParameters (rest : List String) :
      Reprints rest (record.generics.writtenTexts declared)
        record.generics.implementation.texts :=
    Generics.reprints_printWith hStands.brackets hStands.separated
      hDeclared
      (fun p hMem hSort => by
        simp [GenericParameter.declaration, hQuote p hMem hSort])
      rest
  have hArguments (rest : List String) :
      Reprints rest (record.generics.writtenTexts (·.name.texts))
        record.generics.arguments.texts :=
    Generics.reprints_printWith hStands.brackets hStands.separated
      (fun p _ rest _ => .refl rest p.name.texts) hQuote rest
  rcases hStands.nameToken with ⟨span, hName⟩
  have hHeader :
      record.headerTokens.texts =
        ["impl"] ++ (record.generics.implementation.texts ++
          ([record.name] ++ (record.generics.arguments.texts ++
            record.generics.clauseTokens.texts))) := by
    simp [headerTokens, generatedWord, hName]
  rw [hHeader]
  exact .append (.same _ "impl") (.append (hParameters _)
    (.append (.same _ record.name) (.append (hArguments _) hClause)))

/-
  For every record of every file that is parsed, the text of
  the header and an opening brace read as the tokens of the
  header and the brace: with the tokens that were written,
  which differ from the printed ones by normal spellings, and
  without the commas at the end of the parameters and of the
  clause.

  The parameters and the clause have to be cut out cleanly.
-/
theorem headerText_reads_as_headerTokens
    {body : List Char}
    {file : SourceFile}
    (hParse : SourceFile.parse? body = some file)
    {path : List Nat}
    {p : Placement}
    (hAt : Item.placementAt? file.items path = some p)
    {record : StructItem}
    (hRecord : p.item = .struct record)
    (hParameters :
      ∀ q ∈ record.generics.parameters, q.CutsCleanly body)
    (hClause :
      ∀ clause ∈ record.generics.clause, clause.FoldsCleanly body) :
    ∃ lexemes written,
      Lexeme.ofText .first (record.headerText body ++ " \x7b".toList) =
          some lexemes ∧
        DropsCommas (written ++ ["\x7b"]) (textsAll lexemes) ∧
        Reprints ["\x7b"] written record.headerTokens.texts := by
  have hStands := SourceFile.standsIn_of_parse? hParse hAt hRecord
  have hBrace : Ends ["\x7b"] := by
    rintro text ⟨⟩
    decide
  have hAll :
      ∀ q ∈ record.generics.parameters, ∃ declared,
        Yields (q.source body) declared ∧
          ∀ after, Ends after →
            Reprints after declared q.declaration.texts :=
    fun q hMem =>
      GenericParameter.exists_yields_source
        (hStands.parameters q hMem) (hParameters q hMem)
  choose! declared hDeclared hReprints using hAll
  rcases Generics.exists_yields_clauseSource hStands.clause hClause
    with
    ⟨clause, count, hYields, hPrinted⟩
  have hNames :
      ∀ q ∈ record.generics.parameters, Yields q.nameText q.name.texts :=
    fun q hMem =>
      GenericParameter.yields_nameText (hStands.parameters q hMem)
  have hHeader :=
    yields_headerText hStands.identifier hDeclared hNames hYields
  rcases hHeader.exists_ofText .first with ⟨lexemes, hLexemes, hTexts⟩
  refine ⟨lexemes,
    "impl" :: (record.generics.writtenTexts declared ++
      record.name :: (record.generics.writtenTexts (·.name.texts) ++
        (clause ++ List.replicate count ","))),
    hLexemes, ?_, ?_⟩
  · rw [hTexts]
    have hEnd : DropsCommas ["\x7b"] ["\x7b"] := .keep _ .nil
    have hClauseEnd :=
      (hEnd.replicate count (Or.inr rfl)).append_left clause
    have hFrom :=
      (Generics.dropsCommas hStands.separated (·.name.texts)
        hClauseEnd).keep record.name
    have hWhole :=
      (Generics.dropsCommas hStands.separated declared hFrom).keep "impl"
    simpa using hWhole
  · exact reprints_headerTokens hStands hReprints (hPrinted _ hBrace)

/-
  A record in a module, with a default, with a lifetime after
  another parameter, and with a clause on two lines.
-/
theorem headerText_reads_as_headerTokens_default :
    ∃ file p record,
      SourceFile.parse?
          ("mod m \x7b struct P<T: Copy = u8, 'a>(T) " ++
            "where T:\n Copy,; \x7d").toList =
        some file ∧
      Item.placementAt? file.items [0, 0] = some p ∧
      p.item = .struct record ∧
      record.headerText
          ("mod m \x7b struct P<T: Copy = u8, 'a>(T) " ++
            "where T:\n Copy,; \x7d").toList =
        "impl<T: Copy, 'a> P<T, 'a> where T: Copy".toList ∧
      ∃ lexemes written,
        Lexeme.ofText .first
            "impl<T: Copy, 'a> P<T, 'a> where T: Copy \x7b".toList =
          some lexemes ∧
        DropsCommas (written ++ ["\x7b"]) (textsAll lexemes) ∧
        Reprints ["\x7b"] written record.headerTokens.texts := by
  have hSome :
      ((SourceFile.parse?
          ("mod m \x7b struct P<T: Copy = u8, 'a>(T) " ++
            "where T:\n Copy,; \x7d").toList).any
        fun file => (Item.placementAt? file.items [0, 0]).any
          fun p => p.item.record?.any fun record =>
            decide (record.headerText
                ("mod m \x7b struct P<T: Copy = u8, 'a>(T) " ++
                  "where T:\n Copy,; \x7d").toList =
              "impl<T: Copy, 'a> P<T, 'a> where T: Copy".toList) &&
            decide (∀ q ∈ record.generics.parameters,
              q.CutsCleanly
                ("mod m \x7b struct P<T: Copy = u8, 'a>(T) " ++
                  "where T:\n Copy,; \x7d").toList) &&
            decide (∀ clause ∈ record.generics.clause,
              clause.FoldsCleanly
                ("mod m \x7b struct P<T: Copy = u8, 'a>(T) " ++
                  "where T:\n Copy,; \x7d").toList)) = true := by
    decide +kernel
  simp only [Option.any_eq_true, Bool.and_eq_true,
    decide_eq_true_eq] at hSome
  rcases hSome with
    ⟨file, hParse, p, hAt, record, hFound, ⟨hText, hParameters⟩,
      hClause⟩
  have hRecord := Item.record?_eq_some_iff.mp hFound
  have hReads :=
    headerText_reads_as_headerTokens hParse hAt hRecord hParameters
      hClause
  rw [hText] at hReads
  exact ⟨file, p, record, hParse, hAt, hRecord, hText, hReads⟩

/-
  A comment up to the end of its line takes in what is put
  after it, and so the brace as well.
-/
example :
    ((SourceFile.parse?
        "struct P<T>(T) where T: A, // a\n T: B;".toList).bind
      fun file => (Item.placementAt? file.items [0]).bind
        fun p => p.item.record?.bind fun record =>
          (Lexeme.ofText .first
            (record.headerText
                "struct P<T>(T) where T: A, // a\n T: B;".toList ++
              " \x7b".toList)).map textsAll) =
      some ["impl", "<", "T", ">", "P", "<", "T", ">", "where", "T", ":",
        "A", ","] := by
  decide +kernel

end StructItem

end Nullary
