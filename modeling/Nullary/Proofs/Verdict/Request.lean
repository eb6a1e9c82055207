import Nullary.Proofs.Verdict.Spelling
import Nullary.Verdict.Request

/-
  The answer to a request is read back as the outcome that it
  reports.

  An answer wraps the anchor of its request in one object
  more than the request did.  The deepest anchors that a
  request can carry are therefore lost: they can be written,
  but the text is too deep to be read.

  Main declarations:
    * `Json.Decoder.exists_draft_of_record`
    * `Diagnostic.decoder_document`
    * `Outcome.decoder_document`
    * `Request.readable_anchor`
    * `Request.decodeText_answer`
    * `Request.answer_of_deepest_anchor`
-/

namespace Nullary

open Nullary.Json

------------------------------------------------------------
-- Drafts of Records
------------------------------------------------------------

namespace Json.Decoder

variable {σ α : Type}
variable {context : Context}
variable {Holds : σ → Prop}

/- Filling in a field keeps what is known of a draft. -/
def Keeps
    (Holds : σ → Prop)
    (context : Context)
    (field : RecordField σ) : Prop :=
  ∀ document draft next,
    document.Fits →
    Holds draft →
    field.decode context document draft = .ok next →
    Holds next

theorem holds_of_recordEntries
    {fields : List (RecordField σ)}
    (hKeeps : ∀ field ∈ fields, Keeps Holds context field)
    (entries : Entries)
    (hFits : entries.Fits)
    {draft result : σ}
    (hDraft : Holds draft)
    (hResult :
      recordEntries fields context entries draft = .ok result) :
    Holds result := by
  cases entries with
  | closed =>
      cases hResult
      exact hDraft
  | cut fault => cases hResult
  | stray found => cases hResult
  | field name value rest =>
      rw [recordEntries, bind_eq_ok_iff] at hResult
      rcases hResult with ⟨text, _, hResult⟩
      split at hResult
      · next field hFind =>
          rw [bind_eq_ok_iff] at hResult
          rcases hResult with ⟨next, hNext, hResult⟩
          rw [setField] at hNext
          split at hNext
          · cases hNext
          · have hHolds :=
              hKeeps field (List.mem_of_find?_eq_some hFind)
                value draft next hFits.1 hDraft hNext
            exact holds_of_recordEntries hKeeps rest hFits.2
              hHolds hResult
      · rw [bind_eq_ok_iff] at hResult
        rcases hResult with ⟨_, _, hResult⟩
        exact holds_of_recordEntries hKeeps rest hFits.2 hDraft
          hResult

theorem holds_of_recordElements
    {fields : List (RecordField σ)}
    (hKeeps : ∀ field ∈ fields, Keeps Holds context field)
    {elements rest : Elements}
    (hFits : elements.Fits)
    {draft result : σ}
    (hDraft : Holds draft)
    (hResult :
      recordElements context fields elements draft =
        .ok (result, rest)) :
    Holds result := by
  induction fields generalizing elements draft with
  | nil =>
      cases hResult
      exact hDraft
  | cons field fields ih =>
      cases elements with
      | closed =>
          cases hResult
          exact hDraft
      | cut fault => cases hResult
      | element value others =>
          rw [recordElements, bind_eq_ok_iff] at hResult
          rcases hResult with ⟨next, hNext, hResult⟩
          have hHolds :=
            hKeeps field List.mem_cons_self value draft next
              hFits.1 hDraft hNext
          exact ih
            (fun other hMem =>
              hKeeps other (List.mem_cons_of_mem _ hMem))
            hFits.2 hHolds hResult

/- A record is built from a draft that was filled in field by field. -/
theorem exists_draft_of_record
    {format : RecordFormat σ α}
    {document : Document}
    {result : α}
    (hFits : document.Fits)
    (hResult : record format context document = .ok result) :
    ∃ inner, context.enter = .ok inner ∧
      ∀ Holds : σ → Prop,
        Holds format.empty →
        (∀ field ∈ format.fields, Keeps Holds inner field) →
        ∃ missing draft, Holds draft ∧
          format.build missing draft = .ok result := by
  cases document with
  | object entries =>
      rw [record, bind_eq_ok_iff] at hResult
      rcases hResult with ⟨inner, hEnter, hResult⟩
      rw [bind_eq_ok_iff] at hResult
      rcases hResult with ⟨draft, hDraft, hBuild⟩
      refine ⟨inner, hEnter, fun Holds hEmpty hKeeps => ?_⟩
      exact ⟨_, draft,
        holds_of_recordEntries hKeeps entries hFits hEmpty hDraft,
        hBuild⟩
  | array elements =>
      rw [record, bind_eq_ok_iff] at hResult
      rcases hResult with ⟨inner, hEnter, hResult⟩
      rw [bind_eq_ok_iff] at hResult
      rcases hResult with ⟨⟨draft, rest⟩, hDraft, hResult⟩
      rw [bind_eq_ok_iff] at hResult
      rcases hResult with ⟨found, hBuild, hResult⟩
      rw [bind_eq_ok_iff] at hResult
      rcases hResult with ⟨_, _, hResult⟩
      cases hResult
      refine ⟨inner, hEnter, fun Holds hEmpty hKeeps => ?_⟩
      exact ⟨_, draft,
        holds_of_recordElements hKeeps hFits hEmpty hDraft,
        hBuild⟩
  | _ => cases hResult

end Json.Decoder

------------------------------------------------------------
-- Outcomes
------------------------------------------------------------

/- A diagnostic is read as itself where its anchor is. -/
theorem Diagnostic.decoder_document
    (d : Diagnostic Value)
    {depth : Nat}
    (hAnchor : d.anchor.Readable depth)
    (context : Context) :
    decoder context d.toJson.document =
      Value.readIn context (d.anchor.nesting + 1) d := by
  have hDocument :
      d.toJson.document =
        .object (.ofFields (d.mapAnchor Value.document).fields) :=
    rfl
  rw [hDocument, decoder_fields]
  rcases context.enter_cases with
    ⟨hEnter, hNone⟩ | ⟨inner, hEnter, hInner⟩
  · rw [hEnter, Value.readIn, if_neg (hNone _)]
    rfl
  · have hValue := hAnchor.value_document inner
    rw [Value.readIn_enter _ (hInner _)] at hValue
    rw [hEnter, ok_bind, mapAnchor, hValue]
    exact Value.readIn_bind_ok context (d.anchor.nesting + 1)
      d.anchor (Diagnostic.mk d.kind d.message d.severity)

namespace Outcome

/- How deep an outcome is nested around its anchor. -/
def nesting : Outcome Value → Nat
  | synthesized _ => 0
  | redundant d => d.anchor.nesting + 2
  | rejected d => d.anchor.nesting + 2

/- The tag of an outcome is read first, then its content. -/
theorem decoder_tagged
    {name : String}
    (kind : OutcomeKind)
    (hKind : (name, kind) ∈ OutcomeKind.named)
    (content : Value)
    {context inner : Context}
    (hEnter : context.enter = .ok inner) :
    decoder context (tagged name content).document =
      kind.content inner content.document := by
  have hDocument :
      (tagged name content).document =
        .object (.ofFields
          ([] ++ (tagField, .string (some name)) ::
            ([] ++ (contentField, content.document) :: []))) :=
    rfl
  rw [hDocument, decoder, hEnter, ok_bind]
  exact decodeEntries_kind_content (by simp) (by simp) (by simp)
    hKind inner

/- What is reported is read in an object inside the outcome. -/
theorem map_decoder_document
    (report : Diagnostic Value → Outcome Value)
    (d : Diagnostic Value)
    {depth : Nat}
    (hAnchor : d.anchor.Readable depth)
    {context inner : Context}
    (hInner : ∀ n, inner.Admits n ↔ context.Admits (n + 1)) :
    report <$> Diagnostic.decoder inner d.toJson.document =
      Value.readIn context (d.anchor.nesting + 2) (report d) := by
  rw [d.decoder_document hAnchor, Value.readIn_enter _ (hInner _)]
  unfold Value.readIn
  split <;> rfl

/-
  An outcome is read as itself in a whole text, unless its
  anchor is nested too deep for two objects around it.
-/
theorem decoder_document
    (o : Outcome Value)
    (hAnchor :
      ∀ d ∈ o.diagnostic?, ∃ depth, d.anchor.Readable depth) :
    decoder .start o.toJson.document =
      Value.readIn .start o.nesting o := by
  rcases Context.start.enter_cases with
    ⟨hEnter, _⟩ | ⟨inner, hEnter, hInner⟩
  · cases hEnter
  · cases o with
    | synthesized fragments =>
        have hFragments :=
          Fragment.readsBack_decoder.list fragments inner
            ((hInner 4).mpr (Or.inr (by decide)))
        rw [toJson, decoder_tagged .synthesized (by decide) _ hEnter,
          nesting, Value.readIn_zero]
        simp only [OutcomeKind.content, hFragments, map_ok]
    | redundant d =>
        rcases hAnchor d rfl with ⟨depth, hReadable⟩
        rw [toJson, decoder_tagged .redundant (by decide) _ hEnter]
        exact map_decoder_document .redundant d hReadable hInner
    | rejected d =>
        rcases hAnchor d rfl with ⟨depth, hReadable⟩
        rw [toJson, decoder_tagged .rejected (by decide) _ hEnter]
        exact map_decoder_document .rejected d hReadable hInner

theorem numbers_toJson
    (o : Outcome Value)
    {number : Number}
    (hMem : number ∈ o.toJson.numbers) :
    ∃ d ∈ o.diagnostic?, number ∈ d.anchor.numbers := by
  cases o with
  | synthesized fragments =>
      simp [toJson, tagged, Value.numbers, Value.numbersOfFields,
        Value.numbersOfElements_map Fragment.numbers_toJson] at hMem
  | redundant d =>
      refine ⟨d, rfl, ?_⟩
      simpa [toJson, tagged, Diagnostic.toJson, Value.numbers,
        Value.numbersOfFields] using hMem
  | rejected d =>
      refine ⟨d, rfl, ?_⟩
      simpa [toJson, tagged, Diagnostic.toJson, Value.numbers,
        Value.numbersOfFields] using hMem

end Outcome

------------------------------------------------------------
-- Anchors of Requests
------------------------------------------------------------

namespace Request

variable {request : Request}

/- An anchor that has been read so far is readable. -/
def Draft.AnchorReadable
    (depth : Nat)
    (draft : Draft) : Prop :=
  ∀ anchor ∈ draft.anchor, anchor.Readable depth

theorem keeps_anchorReadable
    {context : Context}
    (hText : context.buffered = false)
    {field : RecordField Draft}
    (hField : field ∈ format.fields) :
    Decoder.Keeps (Draft.AnchorReadable context.depth) context
      field := by
  intro document draft next hFits hDraft hNext
  simp only [format, List.mem_cons, List.not_mem_nil,
    or_false] at hField
  rcases hField with rfl | rfl | rfl
  · rcases bind_eq_ok_iff.mp hNext with ⟨_, _, hSame⟩
    cases hSame
    exact hDraft
  · rcases bind_eq_ok_iff.mp hNext with ⟨_, _, hSame⟩
    cases hSame
    exact hDraft
  · rcases bind_eq_ok_iff.mp hNext with ⟨value, hValue, hSame⟩
    cases hSame
    intro anchor hAnchor
    cases hAnchor
    exact document.readable_of_value hText hFits hValue

/- The anchor of a request stands in one object or array. -/
theorem readable_anchor
    {text : List Char}
    (hRequest : decodeText decoder text = .ok request) :
    request.anchor.Readable 126 := by
  have hFits := Document.fits_read text
  have hDecode :
      decoder .start (Document.read text).1 = .ok request := by
    rw [decodeText] at hRequest
    split at hRequest
    next document more hRead =>
      rw [hRead]
      split at hRequest
      · cases hRequest
      · next found hFound =>
          split at hRequest
          · cases hRequest
          · cases hRequest
            exact hFound
  rcases Decoder.exists_draft_of_record hFits hDecode with
    ⟨inner, hEnter, hDraft⟩
  rcases Context.depth_of_enter rfl hEnter with ⟨hInner, hDepth⟩
  have hInside : inner.depth = 126 := by
    change 127 = inner.depth + 1 at hDepth
    omega
  rcases hDraft (Draft.AnchorReadable inner.depth)
      (fun anchor hAnchor => nomatch hAnchor)
      (fun field hField => keeps_anchorReadable hInner hField) with
    ⟨missing, draft, hAnchor, hBuild⟩
  rcases bind_eq_ok_iff.mp hBuild with ⟨declaration, _, hSame⟩
  cases hSame
  rw [← hInside]
  cases hFound : draft.anchor with
  | none => exact .null
  | some anchor => exact hAnchor anchor hFound

/- A report carries the anchor of the request. -/
theorem anchor_of_evaluate
    (request : Request)
    {d : Diagnostic Value}
    (hReport : request.evaluate.diagnostic? = some d) :
    d.anchor = request.anchor := by
  unfold evaluate Declaration.evaluateWith at hReport
  split at hReport
  · cases hReport
    rfl
  · split at hReport
    · cases hReport
      rfl
    · split at hReport
      · cases hReport
        rfl
      · cases hReport

/- The nesting of what comes of a request. -/
theorem nesting_evaluate
    (request : Request) :
    request.evaluate.nesting =
      if request.evaluate.diagnostic?.isSome then
        request.anchor.nesting + 2
      else 0 := by
  have hAnchor := fun d => request.anchor_of_evaluate (d := d)
  cases hOutcome : request.evaluate with
  | synthesized fragments => rfl
  | redundant d =>
      rw [hOutcome] at hAnchor
      simp [Outcome.nesting, Outcome.diagnostic?, hAnchor d rfl]
  | rejected d =>
      rw [hOutcome] at hAnchor
      simp [Outcome.nesting, Outcome.diagnostic?, hAnchor d rfl]

/- The answer is read as the outcome, unless it is nested too deep. -/
theorem decodeText_pretty_evaluate
    (hReadable : request.anchor.Readable 126)
    (hWhole : ∀ bits, Number.double bits ∉ request.anchor.numbers) :
    decodeText Outcome.decoder
        request.evaluate.toJson.pretty.toList =
      Value.readIn .start request.evaluate.nesting
        request.evaluate := by
  have hAnchor := fun d => request.anchor_of_evaluate (d := d)
  rw [decodeText_pretty]
  · apply Outcome.decoder_document
    intro d hReport
    exact ⟨126, hAnchor d hReport ▸ hReadable⟩
  · intro number hMem
    rcases Outcome.numbers_toJson _ hMem with
      ⟨d, hReport, hNumber⟩
    rw [hAnchor d hReport] at hNumber
    exact hReadable.isExact_of_mem_numbers hWhole hNumber

/- A report on an anchor as deep as a request can carry is refused. -/
theorem decodeText_pretty_deepest
    (hReadable : request.anchor.Readable 126)
    (hWhole : ∀ bits, Number.double bits ∉ request.anchor.numbers)
    (hReport : request.evaluate.diagnostic? ≠ none)
    (hDeep : request.anchor.nesting = 126) :
    decodeText Outcome.decoder
        request.evaluate.toJson.pretty.toList =
      .error (.fault .malformed) := by
  have hNot :
      ¬ Context.start.Admits request.evaluate.nesting := by
    rw [request.nesting_evaluate,
      if_pos (Option.isSome_iff_ne_none.mpr hReport), hDeep]
    decide
  rw [decodeText_pretty_evaluate hReadable hWhole, Value.readIn,
    if_neg hNot]

/-
  A request whose anchor holds no doubles is answered, and
  the answer is read back as what was decided: the same
  outcome, constructors, kind, message, severity and anchor.
  Only a report on the deepest anchors that a request can
  carry is refused.
-/
theorem decodeText_answer
    {text : List Char}
    {request : Request}
    (hRequest : decodeText decoder text = .ok request)
    (hWhole : ∀ bits, Number.double bits ∉ request.anchor.numbers) :
    ∃ output, answer text = .ok output ∧
      request.anchor.nesting ≤ 126 ∧
      (request.evaluate.diagnostic? = none ∨
          request.anchor.nesting ≤ 125 →
        decodeText Outcome.decoder output.toList =
          .ok request.evaluate) ∧
      (request.evaluate.diagnostic? ≠ none →
        request.anchor.nesting = 126 →
        decodeText Outcome.decoder output.toList =
          .error (.fault .malformed)) := by
  have hReadable := readable_anchor hRequest
  refine ⟨request.evaluate.toJson.pretty, ?_,
    hReadable.nesting_le, ?_, ?_⟩
  · rw [answer, hRequest]
    rfl
  · intro hShallow
    rw [decodeText_pretty_evaluate hReadable hWhole]
    apply Value.readIn_of_admits
    refine Or.inr ?_
    change request.evaluate.nesting ≤ 127
    rw [request.nesting_evaluate]
    rcases hShallow with hNone | hShallow
    · simp [hNone]
    · split <;> omega
  · exact decodeText_pretty_deepest hReadable hWhole

/- A request on an enumeration, given the text of its anchor. -/
def onEnumeration
    (anchor : List Char) : List Char :=
  "\x7b\"declaration\":\x7b\"name\":\"F\",\"kind\":\"enum\"\x7d,\"anchor\":".toList ++
    anchor ++ ['\x7d']

/- A request that passes a test can be decoded. -/
theorem exists_of_any_toOption
    {text : List Char}
    {test : Request → Bool}
    (hAny : (decodeText decoder text).toOption.any test = true) :
    ∃ request, decodeText decoder text = .ok request ∧
      test request = true := by
  cases hRequest : decodeText decoder text with
  | error e =>
      rw [hRequest] at hAny
      cases hAny
  | ok request =>
      rw [hRequest] at hAny
      exact ⟨request, rfl, hAny⟩

/- A report on an anchor with an escape and a sign is read back. -/
theorem decodeText_answer_enumeration :
    ∃ request output,
      decodeText decoder (onEnumeration "[\"\\n\",-1]".toList) =
        .ok request ∧
      (∀ bits, Number.double bits ∉ request.anchor.numbers) ∧
      request.evaluate.diagnostic? ≠ none ∧
      answer (onEnumeration "[\"\\n\",-1]".toList) = .ok output ∧
      decodeText Outcome.decoder output.toList =
        .ok request.evaluate := by
  have hAny :
      (decodeText decoder
        (onEnumeration "[\"\\n\",-1]".toList)).toOption.any
          (fun request =>
            request.evaluate.diagnostic?.isSome &&
              (request.anchor.numbers == [.integer (-1)] &&
                request.anchor.nesting == 1)) = true := by
    decide +kernel
  rcases exists_of_any_toOption hAny with ⟨request, hRequest, hTest⟩
  rw [Bool.and_eq_true, Bool.and_eq_true, beq_iff_eq,
    beq_iff_eq] at hTest
  rcases hTest with ⟨hReport, hNumbers, hNesting⟩
  have hWhole : ∀ bits, Number.double bits ∉ request.anchor.numbers := by
    simp [hNumbers]
  rcases decodeText_answer hRequest hWhole with
    ⟨output, hAnswer, _, hBack, _⟩
  exact ⟨request, output, hRequest, hWhole,
    Option.isSome_iff_ne_none.mp hReport, hAnswer,
    hBack (Or.inr (by omega))⟩

/- Arrays that stand inside each other. -/
def nestedArrays
    (n : Nat) : List Char :=
  List.replicate n '[' ++ List.replicate n ']'

/-
  The deepest anchor of a request can be written, but the
  report on it cannot be read back.
-/
theorem answer_of_deepest_anchor :
    ∃ request output,
      decodeText decoder (onEnumeration (nestedArrays 126)) =
        .ok request ∧
      (∀ bits, Number.double bits ∉ request.anchor.numbers) ∧
      answer (onEnumeration (nestedArrays 126)) = .ok output ∧
      decodeText Outcome.decoder output.toList ≠
        .ok request.evaluate := by
  have hAny :
      (decodeText decoder
        (onEnumeration (nestedArrays 126))).toOption.any
          (fun request =>
            request.evaluate.diagnostic?.isSome &&
              (request.anchor.numbers == [] &&
                request.anchor.nesting == 126)) = true := by
    decide +kernel
  rcases exists_of_any_toOption hAny with ⟨request, hRequest, hTest⟩
  rw [Bool.and_eq_true, Bool.and_eq_true, beq_iff_eq,
    beq_iff_eq] at hTest
  rcases hTest with ⟨hReport, hNumbers, hNesting⟩
  have hWhole : ∀ bits, Number.double bits ∉ request.anchor.numbers := by
    simp [hNumbers]
  have hRefused :=
    decodeText_pretty_deepest (readable_anchor hRequest) hWhole
      (Option.isSome_iff_ne_none.mp hReport) hNesting
  refine ⟨request, request.evaluate.toJson.pretty, hRequest,
    hWhole, ?_, ?_⟩
  · rw [answer, hRequest]
    rfl
  · rw [hRefused]
    intro hBack
    cases hBack

end Request

end Nullary
