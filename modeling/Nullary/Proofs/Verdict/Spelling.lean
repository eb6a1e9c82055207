import Nullary.Proofs.Declaration.Json
import Nullary.Verdict.Json

/-
  The ways to spell an outcome.

  An outcome may be an object or an array, with its kind
  before or behind its content.  A content that comes first
  is buffered: the outcome is then decoded exactly if all
  that is written in the content can be read.

  Main declarations:
    * `Outcome.SpelledAs`
    * `Outcome.earlyContent?`
    * `Outcome.decoder_spelled_iff`
    * `decodeText_respelled`
-/

namespace Nullary

open Nullary.Json

------------------------------------------------------------
-- Fragments
------------------------------------------------------------

namespace Fragment

theorem regular_format :
    format.Regular where
  independent := by
    simp only [format, List.pairwise_cons, List.forall_mem_cons,
      List.not_mem_nil, false_implies, implies_true,
      List.Pairwise.nil, and_true]
    exact RecordField.independent_part (by decide)
      (fun _ _ _ => rfl) (fun _ _ => rfl) (fun _ _ => rfl)
  sets := by
    simp only [format, List.forall_mem_cons, List.not_mem_nil,
      false_implies, implies_true, and_true]
    refine ⟨?_, ?_⟩ <;>
      exact RecordField.sets_part fun _ _ => rfl
  fresh := by simp [format]
  build := by
    rintro missing other ⟨modifiers, parameters⟩
    cases modifiers <;> cases parameters <;> rfl

/- A fragment, spelled in some way. -/
def SpelledAs
    (f : Fragment)
    (document : Document) : Prop :=
  ∃ list, SpelledList Parameter.SpelledAs f.parameters list ∧
    Spelled format.names
      [("modifiers", f.modifiers.toJson.document),
        ("parameters", list)] document

theorem spelledAs_toJson
    (f : Fragment) :
    f.SpelledAs f.toJson.document :=
  ⟨_, .own Parameter.spelledAs_toJson f.parameters, Spelled.own _ _⟩

theorem numbers_toJson
    (f : Fragment) :
    f.toJson.numbers = [] := by
  simp [toJson, Value.numbers, Value.numbersOfFields,
    Modifiers.numbers_toJson,
    Value.numbersOfElements_map Parameter.numbers_toJson]

theorem reads_decoder :
    Decoder.Reads decoder SpelledAs 3 := by
  rintro f document context ⟨list, hList, hSpelled⟩ hAdmits
  have hSame := regular_format.toOption_record hSpelled context
  refine (eq_ok_iff_of_toOption_eq hSame f).mpr ?_
  rcases hAdmits.exists_enter with ⟨inner, hEnter, hInner⟩
  have hModifiers :=
    Modifiers.readsBack_decoder f.modifiers inner
      (hInner.mono (by decide))
  have hParameters := Parameter.reads_decoder.list hList hInner
  simp [Decoder.record, hEnter, Entries.ofFields,
    Decoder.recordEntries, format, FieldName.read,
    Decoder.setField, hModifiers, hParameters,
    RecordFormat.required, pure, Except.pure]

theorem readsBack_decoder :
    Decoder.ReadsBack decoder toJson 3 :=
  reads_decoder.readsBack spelledAs_toJson

end Fragment

------------------------------------------------------------
-- Diagnostics
------------------------------------------------------------

theorem Severity.readsBack_decoder :
    Decoder.ReadsBack decoder
      (fun severity => .string severity.name) 0 := by
  intro severity context _
  rcases context with ⟨buffered, depth⟩
  cases buffered <;> cases severity <;> rfl

theorem DiagnosticKind.readsBack_decoder :
    Decoder.ReadsBack decoder (fun kind => .string kind.name) 0 := by
  intro kind context _
  rcases context with ⟨buffered, depth⟩
  cases buffered <;> cases kind <;> rfl

namespace Diagnostic

theorem regular_format :
    format.Regular where
  independent := by
    simp only [format, List.pairwise_cons, List.forall_mem_cons,
      List.not_mem_nil, false_implies, implies_true,
      List.Pairwise.nil, and_true]
    refine ⟨⟨?_, ?_, ?_⟩, ⟨?_, ?_⟩, ?_⟩ <;>
      exact RecordField.independent_part (by decide)
        (fun _ _ _ => rfl) (fun _ _ => rfl) (fun _ _ => rfl)
  sets := by
    simp only [format, List.forall_mem_cons, List.not_mem_nil,
      false_implies, implies_true, and_true]
    refine ⟨?_, ?_, ?_, ?_⟩ <;>
      exact RecordField.sets_part fun _ _ => rfl
  fresh := by simp [format]
  build := by
    rintro missing other ⟨kind, message, severity, anchor⟩
    cases kind <;> cases message <;> cases severity <;>
      cases anchor <;> rfl

/- The fields of a diagnostic, with its anchor as given. -/
def fields
    (d : Diagnostic Document) : List (String × Document) :=
  [("kind", .string (some d.kind.name)),
    ("message", .string (some d.message)),
    ("severity", .string (some d.severity.name)),
    ("anchor", d.anchor)]

/- A diagnostic, spelled in some way. -/
def SpelledAs
    (d : Diagnostic Document) : Document → Prop :=
  Spelled format.names d.fields

theorem decoder_fields
    (d : Diagnostic Document)
    (context : Context) :
    decoder context (.object (.ofFields d.fields)) =
      context.enter >>= fun inner =>
        d.anchor.value inner >>= fun anchor =>
          .ok (d.mapAnchor fun _ => anchor) := by
  cases hEnter : context.enter with
  | error e => simp [decoder, Decoder.record, hEnter, error_bind]
  | ok inner =>
      have hZero : inner.Admits 0 := Or.inr (Nat.zero_le _)
      have hKind :=
        DiagnosticKind.readsBack_decoder d.kind inner hZero
      have hSeverity :=
        Severity.readsBack_decoder d.severity inner hZero
      rw [Value.document_string] at hKind hSeverity
      cases hAnchor : d.anchor.value inner <;>
        simp [decoder, Decoder.record, hEnter, fields,
          Entries.ofFields, Decoder.recordEntries, format,
          FieldName.read, Decoder.setField, Decoder.string, hKind,
          hSeverity, Decoder.value, hAnchor, error_bind,
          RecordFormat.required, pure, Except.pure, mapAnchor]

/- A diagnostic is decoded once its anchor is read. -/
theorem toOption_decoder_spelled
    {d : Diagnostic Document}
    {document : Document}
    (hSpelled : d.SpelledAs document)
    (context : Context) :
    (decoder context document).toOption =
      (context.enter >>= fun inner =>
        d.anchor.value inner >>= fun anchor =>
          .ok (d.mapAnchor fun _ => anchor)).toOption := by
  rw [← d.decoder_fields]
  exact regular_format.toOption_record hSpelled context

/- Buffering a diagnostic with a value makes no difference. -/
theorem toOption_decoder_buffer
    {d : Diagnostic Document}
    {document : Document}
    (hSpelled : d.SpelledAs document)
    {context : Context}
    (hValue : document.HasValue context) :
    (decoder .buffer document).toOption =
      (decoder context document).toOption := by
  rcases hSpelled.hasValue hValue with ⟨inner, hEnter, hFields⟩
  rcases hFields ("anchor", d.anchor) (by simp [fields]) with
    ⟨anchor, hAnchor⟩
  rw [toOption_decoder_spelled hSpelled,
    toOption_decoder_spelled hSpelled, Context.enter_buffer, hEnter,
    ok_bind, ok_bind, hAnchor, d.anchor.value_buffer hAnchor]

end Diagnostic

------------------------------------------------------------
-- Outcomes
------------------------------------------------------------

/- Two entries of a list, in one order or the other, and the rest. -/
theorem exists_of_perm_pair
    {α : Type}
    {a b : α}
    {entries extras : List α}
    (hOrder : entries.Perm (a :: b :: extras)) :
    ∃ before between after,
      (entries = before ++ a :: (between ++ b :: after) ∨
        entries = before ++ b :: (between ++ a :: after)) ∧
      ∀ entry ∈ before ++ (between ++ after), entry ∈ extras := by
  have hFirst : a ∈ entries :=
    hOrder.mem_iff.mpr List.mem_cons_self
  rcases List.append_of_mem hFirst with ⟨start, rest, rfl⟩
  have hOthers : (start ++ rest).Perm (b :: extras) :=
    (List.perm_middle.symm.trans hOrder).cons_inv
  have hSecond : b ∈ start ++ rest :=
    hOthers.mem_iff.mpr List.mem_cons_self
  rcases List.mem_append.mp hSecond with hStart | hRest
  · rcases List.append_of_mem hStart with ⟨before, between, rfl⟩
    rw [List.append_assoc, List.cons_append] at hOthers
    refine ⟨before, between, rest, Or.inr (by simp), fun entry => ?_⟩
    exact (List.perm_middle.symm.trans hOthers).cons_inv.mem_iff.mp
  · rcases List.append_of_mem hRest with ⟨between, after, rfl⟩
    rw [← List.append_assoc] at hOthers
    refine ⟨start, between, after, Or.inl rfl, fun entry => ?_⟩
    rw [← List.append_assoc]
    exact (List.perm_middle.symm.trans hOthers).cons_inv.mem_iff.mp

namespace Outcome

variable {extras : List (String × Document)}

/- The name, the kind and the content of an outcome, spelled in some way. -/
inductive Content :
    Outcome Document → String → OutcomeKind → Document → Prop where
  | synthesized
      {fragments : List Fragment}
      {content : Document}
      (hSpelled : SpelledList Fragment.SpelledAs fragments content) :
      Content (.synthesized fragments) "synthesized" .synthesized
        content
  | redundant
      {d : Diagnostic Document}
      {content : Document}
      (hSpelled : d.SpelledAs content) :
      Content (.redundant d) "redundant" .redundant content
  | rejected
      {d : Diagnostic Document}
      {content : Document}
      (hSpelled : d.SpelledAs content) :
      Content (.rejected d) "rejected" .rejected content

/- An outcome, spelled in some way, with its kind first or not. -/
def SpelledAs
    (o : Outcome Document)
    (document : Document) : Prop :=
  ∃ name kind content, o.Content name kind content ∧
    Spelled [tagField, contentField]
      [(tagField, .string (some name)), (contentField, content)]
      document

/- The content in the fields of an outcome, if it comes before the kind. -/
def earlyContentIn? : Entries → Option Document
  | .field (.text name) value rest =>
      if name = tagField then none
      else if name = contentField then some value
      else earlyContentIn? rest
  | _ => none

/- The content of an outcome that must be buffered. -/
def earlyContent? : Document → Option Document
  | .object entries => earlyContentIn? entries
  | _ => none

variable {o : Outcome Document}
variable {name : String}
variable {kind : OutcomeKind}
variable {content : Document}

theorem Content.mem_named
    (hContent : o.Content name kind content) :
    (name, kind) ∈ OutcomeKind.named := by
  cases hContent <;> decide

/- All spellings of a content are decoded alike. -/
theorem Content.toOption_content
    (hContent : o.Content name kind content)
    {otherName : String}
    {otherKind : OutcomeKind}
    {other : Document}
    (hOther : o.Content otherName otherKind other)
    {context : Context}
    (hAdmits : context.Admits 4) :
    (kind.content context content).toOption =
      (otherKind.content context other).toOption := by
  cases hContent with
  | synthesized hSpelled =>
      cases hOther with
      | synthesized hSpelledOther =>
          simp only [OutcomeKind.content,
            Fragment.reads_decoder.list hSpelled hAdmits,
            Fragment.reads_decoder.list hSpelledOther hAdmits]
  | redundant hSpelled =>
      cases hOther with
      | redundant hSpelledOther =>
          simp only [OutcomeKind.content, toOption_map,
            Diagnostic.toOption_decoder_spelled hSpelled,
            Diagnostic.toOption_decoder_spelled hSpelledOther]
  | rejected hSpelled =>
      cases hOther with
      | rejected hSpelledOther =>
          simp only [OutcomeKind.content, toOption_map,
            Diagnostic.toOption_decoder_spelled hSpelled,
            Diagnostic.toOption_decoder_spelled hSpelledOther]

/- Buffering a content with a value makes no difference. -/
theorem Content.toOption_content_buffer
    (hContent : o.Content name kind content)
    {context : Context}
    (hAdmits : context.Admits 4)
    (hValue : content.HasValue context) :
    (kind.content .buffer content).toOption =
      (kind.content context content).toOption := by
  cases hContent with
  | synthesized hSpelled =>
      simp only [OutcomeKind.content,
        Fragment.reads_decoder.list hSpelled hAdmits,
        Fragment.reads_decoder.list hSpelled Context.admits_buffer]
  | redundant hSpelled =>
      simp only [OutcomeKind.content, toOption_map,
        Diagnostic.toOption_decoder_buffer hSpelled hValue]
  | rejected hSpelled =>
      simp only [OutcomeKind.content, toOption_map,
        Diagnostic.toOption_decoder_buffer hSpelled hValue]

/- The kind of an outcome is found by its name. -/
theorem decoder_named
    (hKind : (name, kind) ∈ OutcomeKind.named)
    (context : Context) :
    OutcomeKind.decoder context (.string (some name)) = .ok kind := by
  rcases context with ⟨buffered, depth⟩
  simp only [OutcomeKind.named, List.mem_cons, Prod.mk.injEq,
    List.not_mem_nil, or_false] at hKind
  rcases hKind with ⟨rfl, rfl⟩ | ⟨rfl, rfl⟩ | ⟨rfl, rfl⟩
  all_goals cases buffered <;> rfl

/- Neither the kind nor the content, and nothing broken. -/
def IsExtra
    (entry : String × Document) : Prop :=
  entry.1 ∉ [tagField, contentField] ∧ entry.2.skip = .ok ()

theorem decodeEntries_extras
    (hExtras : ∀ extra ∈ extras, IsExtra extra)
    (context : Context)
    (rest : List (String × Document))
    (progress : Progress) :
    decodeEntries context (.ofFields (extras ++ rest)) progress =
      decodeEntries context (.ofFields rest) progress := by
  induction extras with
  | nil => rfl
  | cons extra others ih =>
      rw [List.forall_mem_cons] at hExtras
      rcases hExtras with ⟨⟨hName, hSkip⟩, hOthers⟩
      simp only [List.mem_cons, List.not_mem_nil, or_false,
        not_or] at hName
      rw [List.cons_append, Entries.ofFields, decodeEntries]
      simp only [FieldName.read, ok_bind, if_neg hName.1,
        if_neg hName.2, hSkip]
      exact ih hOthers

theorem earlyContentIn?_extras
    (hExtras : ∀ extra ∈ extras, IsExtra extra)
    (rest : List (String × Document)) :
    earlyContentIn? (.ofFields (extras ++ rest)) =
      earlyContentIn? (.ofFields rest) := by
  induction extras with
  | nil => rfl
  | cons extra others ih =>
      rw [List.forall_mem_cons] at hExtras
      rcases hExtras with ⟨⟨hName, _⟩, hOthers⟩
      simp only [List.mem_cons, List.not_mem_nil, or_false,
        not_or] at hName
      rw [List.cons_append, Entries.ofFields, earlyContentIn?,
        if_neg hName.1, if_neg hName.2]
      exact ih hOthers

/- Once all is there, others change nothing. -/
theorem decodeEntries_all
    (hExtras : ∀ extra ∈ extras, IsExtra extra)
    (context : Context)
    (outcome : Outcome Value) :
    decodeEntries context (.ofFields extras) (.all outcome) =
      .ok outcome := by
  have hNone := decodeEntries_extras hExtras context [] (.all outcome)
  rw [List.append_nil] at hNone
  rw [hNone]
  rfl

section

variable {before between after : List (String × Document)}
variable (hBefore : ∀ extra ∈ before, IsExtra extra)
variable (hBetween : ∀ extra ∈ between, IsExtra extra)
variable (hAfter : ∀ extra ∈ after, IsExtra extra)

include hBefore hBetween hAfter

/- A content behind the kind is decoded at once. -/
theorem decodeEntries_kind_content
    (hKind : (name, kind) ∈ OutcomeKind.named)
    (context : Context) :
    decodeEntries context
        (.ofFields (before ++ (tagField, .string (some name)) ::
          (between ++ (contentField, content) :: after)))
        .nothing =
      kind.content context content := by
  have hFields : contentField ≠ tagField := by decide
  rw [decodeEntries_extras hBefore, Entries.ofFields, decodeEntries]
  simp only [FieldName.read, ok_bind, if_true, Progress.addKind,
    decoder_named hKind, pure, Except.pure]
  rw [decodeEntries_extras hBetween, Entries.ofFields, decodeEntries]
  simp only [FieldName.read, ok_bind, if_neg hFields, if_true,
    Progress.addContent]
  cases kind.content context content with
  | error e => rfl
  | ok outcome => exact decodeEntries_all hAfter context outcome

/- A content before the kind is buffered. -/
theorem decodeEntries_content_kind
    (hKind : (name, kind) ∈ OutcomeKind.named)
    (context : Context) :
    decodeEntries context
        (.ofFields (before ++ (contentField, content) ::
          (between ++ (tagField, .string (some name)) :: after)))
        .nothing =
      Decoder.buffer context content >>= fun _ =>
        kind.content .buffer content := by
  have hFields : contentField ≠ tagField := by decide
  rw [decodeEntries_extras hBefore, Entries.ofFields, decodeEntries]
  simp only [FieldName.read, ok_bind, if_neg hFields, if_true,
    Progress.addContent]
  cases Decoder.buffer context content with
  | error e => rfl
  | ok _ =>
      simp only [ok_bind, pure, Except.pure]
      rw [decodeEntries_extras hBetween, Entries.ofFields,
        decodeEntries]
      simp only [FieldName.read, ok_bind, if_true,
        Progress.addKind, decoder_named hKind]
      cases kind.content .buffer content with
      | error e => rfl
      | ok outcome => exact decodeEntries_all hAfter context outcome

end

/-
  An outcome is decoded as its content is, however it is
  spelled, if a content that comes first can be read as a
  value, and only then.
-/
theorem decoder_spelled_iff
    (hContent : o.Content name kind content)
    {document : Document}
    (hSpelled :
      Spelled [tagField, contentField]
        [(tagField, .string (some name)), (contentField, content)]
        document)
    (result : Outcome Value) :
    decoder .start document = .ok result ↔
      (∀ early ∈ earlyContent? document,
          early.HasValue ⟨false, 126⟩) ∧
        kind.content ⟨false, 126⟩ content = .ok result := by
  have hStart : Context.start.enter = .ok ⟨false, 126⟩ := rfl
  have hAdmits : Context.Admits ⟨false, 126⟩ 4 := by decide
  cases hSpelled with
  | object hOrder hExtras =>
      rcases exists_of_perm_pair hOrder with
        ⟨before, between, after, hShape, hOthers⟩
      have hEach : ∀ extra ∈ before ++ (between ++ after),
          IsExtra extra :=
        fun extra hMem => hExtras extra (hOthers extra hMem)
      rw [List.forall_mem_append, List.forall_mem_append] at hEach
      rcases hEach with ⟨hBefore, hBetween, hAfter⟩
      rw [decoder, hStart, ok_bind, earlyContent?]
      rcases hShape with rfl | rfl
      · rw [decodeEntries_kind_content hBefore hBetween hAfter
          hContent.mem_named, earlyContentIn?_extras hBefore]
        simp [Entries.ofFields, earlyContentIn?]
      · rw [decodeEntries_content_kind hBefore hBetween hAfter
          hContent.mem_named, earlyContentIn?_extras hBefore,
          bind_eq_ok_iff]
        have hEarly :
            earlyContentIn?
                (.ofFields ((contentField, content) ::
                  (between ++
                    (tagField, .string (some name)) :: after))) =
              some content :=
          rfl
        have hSame := fun hValue => eq_ok_iff_of_toOption_eq
          (hContent.toOption_content_buffer hAdmits hValue) result
        rw [hEarly]
        constructor
        · rintro ⟨_, hBuffer, hResult⟩
          have hValue := Decoder.buffer_eq_ok_iff.mp hBuffer
          exact ⟨by simpa using hValue, (hSame hValue).mp hResult⟩
        · rintro ⟨hValue, hResult⟩
          have hValue := hValue content rfl
          exact ⟨(), Decoder.buffer_eq_ok_iff.mpr hValue,
            (hSame hValue).mpr hResult⟩
  | array hAll =>
      simp only [decoder, hStart, ok_bind, earlyContent?,
        List.map_cons, List.map_nil, Elements.ofList,
        decodeElements, decoder_named hContent.mem_named,
        Decoder.endOfElements,
        bind_pure]
      simp

/- The text of an outcome is one of its spellings, with the kind first. -/
theorem exists_written_toJson
    (o : Outcome Value) :
    ∃ name kind content,
      (o.mapAnchor Value.written).Content name kind content ∧
      o.toJson.written =
        .object (.ofFields
          [(tagField, .string (some name)),
            (contentField, content)]) := by
  cases o with
  | synthesized fragments =>
      have hNumbers :
          (Value.array (fragments.map Fragment.toJson)).numbers = [] :=
        Value.numbersOfElements_map Fragment.numbers_toJson fragments
      have hWritten :=
        Value.written_eq_document
          (.array (fragments.map Fragment.toJson))
          (by simp [hNumbers])
      refine ⟨_, _, _, .synthesized ?_, rfl⟩
      rw [hWritten]
      exact .own Fragment.spelledAs_toJson fragments
  | redundant d => exact ⟨_, _, _, .redundant (Spelled.own _ _), rfl⟩
  | rejected d => exact ⟨_, _, _, .rejected (Spelled.own _ _), rfl⟩

/- An outcome is decoded like its own text. -/
theorem decoder_start_iff
    {o : Outcome Value}
    {document : Document}
    (hSpelled : (o.mapAnchor Value.written).SpelledAs document)
    (result : Outcome Value) :
    decoder .start document = .ok result ↔
      (∀ early ∈ earlyContent? document,
          early.HasValue ⟨false, 126⟩) ∧
        decoder .start o.toJson.written = .ok result := by
  rcases hSpelled with ⟨name, kind, content, hContent, hSpelled⟩
  rcases o.exists_written_toJson with
    ⟨ownName, ownKind, ownContent, hOwn, hWritten⟩
  have hSame := hContent.toOption_content hOwn
    (by decide : Context.Admits ⟨false, 126⟩ 4)
  have hNone :
      earlyContent? (.object (.ofFields
        [(tagField, .string (some ownName)),
          (contentField, ownContent)])) = none :=
    rfl
  rw [decoder_spelled_iff hContent hSpelled, hWritten,
    decoder_spelled_iff hOwn (Spelled.own _ _), hNone,
    eq_ok_iff_of_toOption_eq hSame]
  simp

end Outcome

------------------------------------------------------------
-- Texts
------------------------------------------------------------

/-
  A declaration is decoded from every text that spells it as
  from its own, exactly if its members can be read as values
  inside the declaration and the list.  An outcome is decoded
  from every text that spells it as from its own, exactly if
  a content that comes before the kind can be read as a value
  inside the outcome.
-/
theorem decodeText_respelled :
    (∀ (d : Declaration)
        (members : List Document)
        (document : Document)
        (text own : List Char),
      d.SpelledAs members document →
      Document.read text = (document, false) →
      own ∈ [d.toJson.compact, d.toJson.pretty.toList] →
      decodeText Declaration.decoder own = .ok d ∧
      ∀ result,
        decodeText Declaration.decoder text = .ok result ↔
          (∀ member ∈ members, member.HasValue ⟨false, 125⟩) ∧
            decodeText Declaration.decoder own = .ok result) ∧
    (∀ (o : Outcome Value)
        (document : Document)
        (text own : List Char),
      (o.mapAnchor Value.written).SpelledAs document →
      Document.read text = (document, false) →
      own ∈ [o.toJson.compact, o.toJson.pretty.toList] →
      ∀ result,
        decodeText Outcome.decoder text = .ok result ↔
          (∀ content ∈ Outcome.earlyContent? document,
              content.HasValue ⟨false, 126⟩) ∧
            decodeText Outcome.decoder own = .ok result) := by
  constructor
  · intro d members document text own hSpelled hText hOwn
    rw [decodeText_of_read _ hText,
      decodeText_of_read _ (Value.read_of_mem_texts hOwn),
      d.decoder_written]
    refine ⟨rfl, fun result => ?_⟩
    rw [Declaration.decoder_spelled_iff hSpelled, Except.ok.injEq,
      eq_comm]
  · intro o document text own hSpelled hText hOwn result
    rw [decodeText_of_read _ hText,
      decodeText_of_read _ (Value.read_of_mem_texts hOwn),
      Outcome.decoder_start_iff hSpelled]

/- A record written backwards, with an extra field in front. -/
theorem spelled_backwards
    {known : List String}
    (fields : List (String × Document))
    (hUnknown : "x" ∉ known) :
    Spelled known fields
      (.object
        (.ofFields (fields ++ [("x", Document.null)]).reverse)) := by
  refine .object (List.reverse_perm _) ?_
  rw [List.forall_mem_singleton]
  exact ⟨hUnknown, rfl⟩

/-
  A declaration as an array, with an initializer as an array
  and a method whose kind comes last.
-/
def Declaration.mixed : Value :=
  .array [.string "A", .string "struct", .array [.string "pub"],
    .array [
      .array [.string "initializer", .null, .array [],
        .array [.object [("x", .null), ("type", .string "u8"),
          ("label", .string "a")]]],
      .object [("x", .null), ("modifiers", .array []),
        ("name", .string "f"), ("kind", .string "method")]]]

/- An outcome with its content first, as an array. -/
def Outcome.mixed : Value :=
  .object [("x", .null),
    ("value",
      .array [.string "NonPublicType", .string "m", .string "error",
        .array [.string "s"]]),
    ("outcome", .string "rejected")]

/- Records of all kinds, in other spellings than their own. -/
theorem decodeText_respelled_mixed :
    decodeText Declaration.decoder Declaration.mixed.compact =
        .ok ⟨"A", .struct, ⟨["pub"]⟩,
          [.initializer none .empty [⟨"a", "u8"⟩],
            .method "f" .empty]⟩ ∧
      decodeText Outcome.decoder Outcome.mixed.compact =
        .ok (.rejected ⟨.nonPublicType, "m", .error,
          .array [.string "s"]⟩) := by
  have hParameter :
      SpelledList Parameter.SpelledAs [⟨"a", "u8"⟩] _ :=
    .array (.cons (spelled_backwards _ (by decide)) .nil)
  have hInitializer :
      Member.SpelledAs (.initializer none .empty [⟨"a", "u8"⟩]) _ :=
    ⟨"initializer", _, _, by decide,
      .initializer none .empty hParameter, .array rfl⟩
  have hMethod : Member.SpelledAs (.method "f" .empty) _ :=
    ⟨"method", _, _, by decide, .method "f" .empty,
      spelled_backwards _ (by decide)⟩
  have hDeclaration :
      Declaration.SpelledAs
        ⟨"A", .struct, ⟨["pub"]⟩,
          [.initializer none .empty [⟨"a", "u8"⟩],
            .method "f" .empty]⟩ _ Declaration.mixed.written :=
    ⟨.cons hInitializer (.cons hMethod .nil), .array rfl⟩
  have hOutcome :
      Outcome.SpelledAs
        (.rejected ⟨.nonPublicType, "m", .error,
          (Value.array [.string "s"]).written⟩)
        Outcome.mixed.written :=
    ⟨_, _, _, .rejected (.array rfl),
      spelled_backwards _ (by decide)⟩
  rcases decodeText_respelled with ⟨hDeclarations, hOutcomes⟩
  rcases hDeclarations _ _ _ _ _ hDeclaration
      (Value.read_of_mem_texts List.mem_cons_self)
      List.mem_cons_self with ⟨hOwn, hSame⟩
  refine ⟨(hSame _).mpr ⟨?_, hOwn⟩,
    (hOutcomes
      (.rejected ⟨.nonPublicType, "m", .error,
        .array [.string "s"]⟩) _ _ _ hOutcome
      (Value.read_of_mem_texts List.mem_cons_self)
      List.mem_cons_self _).mpr ⟨?_, ?_⟩⟩
  · rw [List.forall_mem_cons, List.forall_mem_singleton]
    exact ⟨⟨_, rfl⟩, _, rfl⟩
  · rintro content ⟨⟩
    exact ⟨_, rfl⟩
  · rw [decodeText_compact_written]
    rfl

------------------------------------------------------------
-- Deep Extras
------------------------------------------------------------

namespace Json.Value

/- So many arrays that stand inside each other in an array. -/
def nested : Nat → Value
  | 0 => .array []
  | n + 1 => .array [nested n]

theorem skip_written_nested
    (n : Nat) :
    (nested n).written.skip = .ok () := by
  induction n with
  | zero => rfl
  | succ n ih =>
      simp [nested, written, writtenElements, Document.skip,
        Elements.skip, ih]

/- They can be read where all of them may be opened. -/
theorem hasValue_written_nested_iff
    (n depth : Nat) :
    (nested n).written.HasValue ⟨false, depth⟩ ↔ n < depth := by
  have hZero :
      Context.enter ⟨false, 0⟩ = .error (.fault .malformed) :=
    rfl
  have hSucc : ∀ depth,
      Context.enter ⟨false, depth + 1⟩ = .ok ⟨false, depth⟩ := by
    simp [Context.enter]
  induction n generalizing depth with
  | zero =>
      have hWritten :
          (nested 0).written = .array (.ofList []) := rfl
      rw [hWritten, Document.hasValue_array_iff]
      cases depth <;> simp [hZero, hSucc]
  | succ n ih =>
      have hWritten :
          (nested (n + 1)).written =
            .array (.ofList [(nested n).written]) := rfl
      rw [hWritten, Document.hasValue_array_iff]
      cases depth <;> simp [hZero, hSucc, ih]

end Json.Value

namespace Declaration

/- A declaration whose only member carries an extra field. -/
def overloaded
    (extra : Value) : Value :=
  .object [("name", .string "A"), ("kind", .string "struct"),
    ("modifiers", .array []),
    ("members",
      .array [.object [("kind", .string "other"), ("x", extra)]])]

theorem spelledAs_overloaded
    {extra : Value}
    (hSkip : extra.written.skip = .ok ()) :
    SpelledAs ⟨"A", .struct, .empty, [.other]⟩
      [.object (.ofFields
        [("kind", .string (some "other")), ("x", extra.written)])]
      (overloaded extra).written := by
  have hUnknown :
      "x" ∉ Member.tagField :: (Member.format .other).names := by
    decide
  have hOrder :
      [("kind", Document.string (some "other")),
          ("x", extra.written)].Perm
        ([(Member.tagField, .string (some "other"))] ++
          [("x", extra.written)]) :=
    .refl _
  have hMember :
      Member.SpelledAs .other
        (.object (.ofFields
          [("kind", .string (some "other")),
            ("x", extra.written)])) := by
    refine ⟨"other", .other, [], by decide, .other,
      .object hOrder ?_⟩
    rw [List.forall_mem_singleton]
    exact ⟨hUnknown, hSkip⟩
  exact ⟨.cons hMember .nil, Spelled.own _ _⟩

/- An extra field of a member may hold up to 124 arrays inside each other. -/
theorem decodeText_overloaded_iff
    (n : Nat) :
    decodeText decoder (overloaded (.nested n)).compact =
        .ok ⟨"A", .struct, .empty, [.other]⟩ ↔
      n < 124 := by
  have hSpelled :=
    spelledAs_overloaded (Value.skip_written_nested n)
  have hEnter :
      Context.enter ⟨false, 125⟩ = .ok ⟨false, 124⟩ := rfl
  rw [decodeText_compact_written, decoder_spelled_iff hSpelled,
    List.forall_mem_singleton, Document.hasValue_object_iff]
  simp [hEnter, Value.hasValue_written_nested_iff]

/-
  A field that could be skipped elsewhere can be too deep for
  a member, although it is unknown.
-/
theorem decodeText_deep_extra :
    ∃ (d : Declaration) (members : List Document)
        (document : Document) (text : List Char),
      d.SpelledAs members document ∧
      Document.read text = (document, false) ∧
      decodeText decoder d.toJson.compact = .ok d ∧
      decodeText decoder text ≠ .ok d := by
  refine ⟨⟨"A", .struct, .empty, [.other]⟩, _,
    (overloaded (.nested 124)).written,
    (overloaded (.nested 124)).compact,
    spelledAs_overloaded (Value.skip_written_nested 124),
    Value.read_of_mem_texts List.mem_cons_self, ?_, ?_⟩
  · rw [decodeText_compact_written, decoder_written]
  · rw [ne_eq, decodeText_overloaded_iff]
    decide

end Declaration

end Nullary
