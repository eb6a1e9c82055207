import Nullary.Declaration.Json
import Nullary.Proofs.Json.Spelling

/-
  The ways to spell a declaration.

  All its records may be objects or arrays.  A member is
  buffered until its kind is known: it is decoded exactly if
  all that is written in it can be read.

  Main declarations:
    * `Member.SpelledAs`
    * `Member.decoder_spelled_iff`
    * `Declaration.SpelledAs`
    * `Declaration.decoder_spelled_iff`
-/

namespace Nullary

open Nullary.Json

------------------------------------------------------------
-- Modifiers and Parameters
------------------------------------------------------------

theorem Modifiers.readsBack_decoder :
    Decoder.ReadsBack decoder toJson 1 := by
  intro m context hAdmits
  have hTokens :=
    Decoder.readsBack_string.list m.tokens context hAdmits
  simp only [decoder, toJson, Value.strings, hTokens, map_ok]

namespace Parameter

theorem readsBack_decoder :
    Decoder.ReadsBack decoder toJson 1 := by
  intro p context hAdmits
  rcases hAdmits.exists_enter with ⟨inner, hEnter, _⟩
  simp [decoder, toJson, Decoder.record, hEnter,
    Decoder.recordEntries, format, FieldName.read,
    Decoder.setField, Decoder.string, RecordFormat.required, pure,
    Except.pure]

theorem regular_format :
    format.Regular where
  independent := by
    simp only [format, List.pairwise_cons, List.forall_mem_cons,
      List.not_mem_nil, false_implies, implies_true,
      List.Pairwise.nil, and_true]
    exact RecordField.independent_part (by decide)
      (fun _ _ _ => rfl) (fun _ _ => rfl) (fun _ _ => rfl)
  sets := by
    simp only [format, List.forall_mem_cons, List.not_mem_nil,
      false_implies, implies_true, and_true]
    exact ⟨RecordField.sets_part fun _ _ => rfl,
      RecordField.sets_part fun _ _ => rfl⟩
  fresh := by simp [format]
  build := by
    rintro missing other ⟨label, type⟩
    cases label <;> cases type <;> rfl

/- A parameter, spelled in some way. -/
def SpelledAs
    (p : Parameter) : Document → Prop :=
  Spelled format.names
    [("label", .string (some p.label)), ("type", .string (some p.type))]

theorem spelledAs_toJson
    (p : Parameter) :
    p.SpelledAs p.toJson.document :=
  Spelled.own _ _

theorem reads_decoder :
    Decoder.Reads decoder SpelledAs 1 := by
  intro p document context hSpelled hAdmits
  have hSame := regular_format.toOption_record hSpelled context
  exact (eq_ok_iff_of_toOption_eq hSame p).mpr
    (readsBack_decoder p context hAdmits)

end Parameter

------------------------------------------------------------
-- Members
------------------------------------------------------------

namespace Member

variable {context : Context}
variable {name : String}

theorem regular_format
    (kind : MemberKind) :
    (format kind).Regular where
  independent := by
    cases kind with
    | initializer =>
        simp only [format, initializerFormat, List.pairwise_cons,
          List.forall_mem_cons, List.not_mem_nil, false_implies,
          implies_true, List.Pairwise.nil, and_true]
        refine ⟨⟨?_, ?_⟩, ?_⟩ <;>
          exact RecordField.independent_part (by decide)
            (fun _ _ _ => rfl) (fun _ _ => rfl) (fun _ _ => rfl)
    | method =>
        simp only [format, methodFormat, List.pairwise_cons,
          List.forall_mem_cons, List.not_mem_nil, false_implies,
          implies_true, List.Pairwise.nil, and_true]
        exact RecordField.independent_part (by decide)
          (fun _ _ _ => rfl) (fun _ _ => rfl) (fun _ _ => rfl)
    | property => exact List.pairwise_singleton _ _
    | other => exact .nil
  sets := by
    have hName : nameField.Sets :=
      RecordField.sets_part fun _ _ => rfl
    have hOptional : optionalNameField.Sets :=
      RecordField.sets_part fun _ _ => rfl
    have hModifiers : modifiersField.Sets :=
      RecordField.sets_part fun _ _ => rfl
    have hParameters : parametersField.Sets :=
      RecordField.sets_part fun _ _ => rfl
    cases kind <;>
      simp [format, initializerFormat, methodFormat,
        propertyFormat, otherFormat, hName, hOptional, hModifiers,
        hParameters]
  fresh := by cases kind <;> decide
  build := by
    rintro missing other ⟨name, modifiers, parameters⟩
    cases kind with
    | initializer => rfl
    | method => rcases name with _ | _ | name <;> rfl
    | property => rcases name with _ | _ | name <;> rfl
    | other => rfl

/- A name that may be missing. -/
def nameDocument : Option String → Document
  | none => .null
  | some name => .string (some name)

/-
  The kind and the other fields of a member.  The name of an
  initializer without one is null or left out.
-/
inductive Fields :
    Member → MemberKind → List (String × Document) → Prop where
  | initializer
      {parameters : List Parameter}
      {list : Document}
      (name : Option String)
      (modifiers : Modifiers)
      (hParameters :
        SpelledList Parameter.SpelledAs parameters list) :
      Fields (.initializer name modifiers parameters) .initializer
        [("name", nameDocument name),
          ("modifiers", modifiers.toJson.document),
          ("parameters", list)]
  | unnamed
      {parameters : List Parameter}
      {list : Document}
      (modifiers : Modifiers)
      (hParameters :
        SpelledList Parameter.SpelledAs parameters list) :
      Fields (.initializer none modifiers parameters) .initializer
        [("modifiers", modifiers.toJson.document),
          ("parameters", list)]
  | method
      (name : String)
      (modifiers : Modifiers) :
      Fields (.method name modifiers) .method
        [("name", .string (some name)),
          ("modifiers", modifiers.toJson.document)]
  | property
      (name : String) :
      Fields (.property name) .property
        [("name", .string (some name))]
  | other :
      Fields .other .other []

/- A member, spelled in some way, with its kind anywhere or first. -/
def SpelledAs
    (member : Member)
    (document : Document) : Prop :=
  ∃ name kind fields,
    (name, kind) ∈ MemberKind.named ∧
    member.Fields kind fields ∧
    Spelled (tagField :: (format kind).names)
      ((tagField, .string (some name)) :: fields) document

variable {member : Member}
variable {kind : MemberKind}
variable {fields : List (String × Document)}

theorem Fields.name_ne_tagField
    (hFields : member.Fields kind fields)
    {field : String × Document}
    (hMem : field ∈ fields) :
    field.1 ≠ tagField := by
  have hAll : ∀ name ∈ fields.map Prod.fst, name ≠ tagField := by
    cases hFields <;> simp [tagField]
  exact hAll field.1 (List.mem_map_of_mem hMem)

/- The fields of a member are decoded to it. -/
theorem Fields.record_eq
    (hFields : member.Fields kind fields) :
    Decoder.record (format kind) .buffer
        (.object (.ofFields fields)) = .ok member := by
  have hModifiers := fun modifiers =>
    Modifiers.readsBack_decoder modifiers .buffer
      Context.admits_buffer
  have hParameters : ∀ {parameters list},
      SpelledList Parameter.SpelledAs parameters list →
      Decoder.list Parameter.decoder .buffer list =
        .ok parameters :=
    fun hList =>
      Parameter.reads_decoder.list hList Context.admits_buffer
  cases hFields with
  | initializer name modifiers hList =>
      cases name <;> simp [Decoder.record, format, initializerFormat,
        optionalNameField, modifiersField, parametersField,
        Entries.ofFields, Decoder.recordEntries, FieldName.read,
        Decoder.setField, Decoder.nullable, nameDocument,
        Decoder.string, hModifiers,
        hParameters hList, Draft.empty,
        pure, Except.pure]
  | unnamed modifiers hList =>
      simp [Decoder.record, format, initializerFormat,
        optionalNameField, modifiersField, parametersField,
        Entries.ofFields, Decoder.recordEntries, FieldName.read,
        Decoder.setField, hModifiers,
        hParameters hList, Draft.empty,
        pure, Except.pure]
  | method name modifiers =>
      simp [Decoder.record, format, methodFormat, nameField,
        modifiersField, Entries.ofFields, Decoder.recordEntries,
        FieldName.read, Decoder.setField, Decoder.string,
        hModifiers, Draft.empty, RecordFormat.required, pure,
        Except.pure]
  | property name =>
      simp [Decoder.record, format, propertyFormat, nameField,
        Entries.ofFields, Decoder.recordEntries, FieldName.read,
        Decoder.setField, Decoder.string, Draft.empty,
        RecordFormat.required, pure, Except.pure]
  | other => rfl

/- They are decoded to it however they are spelled. -/
theorem Fields.record_spelled
    (hFields : member.Fields kind fields)
    {document : Document}
    (hSpelled : Spelled (format kind).names fields document) :
    Decoder.record (format kind) .buffer document = .ok member := by
  have hSame :=
    (regular_format kind).toOption_record hSpelled .buffer
  exact (eq_ok_iff_of_toOption_eq hSame member).mpr
    hFields.record_eq

/- The kind of a member is found by its name. -/
theorem decodeTag_document
    (hKind : (name, kind) ∈ MemberKind.named)
    (context : Context) :
    decodeTag context (.string (some name)) none = .ok kind := by
  simp only [MemberKind.named, List.mem_cons, Prod.mk.injEq,
    List.not_mem_nil, or_false] at hKind
  rcases hKind with ⟨rfl, rfl⟩ | ⟨rfl, rfl⟩ | ⟨rfl, rfl⟩ | ⟨rfl, rfl⟩
  all_goals rfl

/- A field other than the kind is buffered and kept. -/
theorem splitTag_cons_iff
    {entry : String × Document}
    (hName : entry.1 ≠ tagField)
    {rest others : List (String × Document)}
    {tag found : Option MemberKind}
    {Succeeds : Prop}
    (hRest : ∀ result,
      splitTag context (.ofFields rest) tag = .ok result ↔
        Succeeds ∧ result = (found, .ofFields others))
    (result : Option MemberKind × Entries) :
    splitTag context (.ofFields (entry :: rest)) tag = .ok result ↔
      (entry.2.HasValue context ∧ Succeeds) ∧
        result = (found, .ofFields (entry :: others)) := by
  rcases entry with ⟨name, document⟩
  rw [← Decoder.buffer_eq_ok_iff, Entries.ofFields, splitTag]
  simp only [FieldName.read, ok_bind, if_neg hName]
  cases Decoder.buffer context document with
  | error e => simp [error_bind]
  | ok _ =>
      by_cases hSucceeds : Succeeds
      · rw [ok_bind, (hRest _).mpr ⟨hSucceeds, rfl⟩, ok_bind]
        simp [hSucceeds, Entries.ofFields, pure, Except.pure, eq_comm]
      · cases hSplit : splitTag context (.ofFields rest) tag with
        | error e => simp [hSucceeds]
        | ok split =>
            exact absurd ((hRest split).mp hSplit).1 hSucceeds

theorem splitTag_others_iff
    {entries : List (String × Document)}
    (hNames : ∀ entry ∈ entries, entry.1 ≠ tagField)
    (tag : Option MemberKind)
    (result : Option MemberKind × Entries) :
    splitTag context (.ofFields entries) tag = .ok result ↔
      (∀ entry ∈ entries, entry.2.HasValue context) ∧
        result = (tag, .ofFields entries) := by
  induction entries generalizing result with
  | nil => simp [Entries.ofFields, splitTag, eq_comm]
  | cons first rest ih =>
      rw [List.forall_mem_cons] at hNames ⊢
      exact splitTag_cons_iff hNames.1 (ih hNames.2) result

/- The kind is found wherever it stands. -/
theorem splitTag_tagged_iff
    (hKind : (name, kind) ∈ MemberKind.named)
    {before after : List (String × Document)}
    (hNames : ∀ entry ∈ before ++ after, entry.1 ≠ tagField)
    (result : Option MemberKind × Entries) :
    splitTag context
        (.ofFields
          (before ++ (tagField, .string (some name)) :: after))
        none = .ok result ↔
      (∀ entry ∈ before ++ after, entry.2.HasValue context) ∧
        result = (some kind, .ofFields (before ++ after)) := by
  induction before generalizing result with
  | nil =>
      have hTag :
          splitTag context
              (.ofFields ((tagField, .string (some name)) :: after))
              none =
            splitTag context (.ofFields after) (some kind) := by
        simp [Entries.ofFields, splitTag, FieldName.read,
          decodeTag_document hKind]
      rw [List.nil_append, hTag]
      exact splitTag_others_iff hNames (some kind) result
  | cons first rest ih =>
      rw [List.cons_append, List.forall_mem_cons] at hNames
      rw [List.cons_append, List.cons_append, List.forall_mem_cons]
      exact splitTag_cons_iff hNames.1 (ih hNames.2) result

theorem decoder_object_iff
    (hKind : (name, kind) ∈ MemberKind.named)
    (hFields : member.Fields kind fields)
    {entries extras : List (String × Document)}
    (hOrder :
      entries.Perm
        ((tagField, .string (some name)) :: fields ++ extras))
    (hExtras : ∀ extra ∈ extras,
      extra.1 ∉ tagField :: (format kind).names ∧
        extra.2.skip = .ok ())
    (context : Context)
    (result : Member) :
    decoder context (.object (.ofFields entries)) = .ok result ↔
      (Document.object (.ofFields entries)).HasValue context ∧
        result = member := by
  have hTag : (tagField, .string (some name)) ∈ entries :=
    hOrder.mem_iff.mpr List.mem_cons_self
  rcases List.append_of_mem hTag with ⟨before, after, rfl⟩
  have hOthers : (before ++ after).Perm (fields ++ extras) :=
    (List.perm_middle.symm.trans hOrder).cons_inv
  have hNames : ∀ entry ∈ before ++ after, entry.1 ≠ tagField := by
    intro entry hMem
    rcases List.mem_append.mp (hOthers.mem_iff.mp hMem) with
      hField | hExtra
    · exact hFields.name_ne_tagField hField
    · exact fun hSame =>
        (hExtras entry hExtra).1 (hSame ▸ List.mem_cons_self)
  have hRecord :=
    hFields.record_spelled (.object hOthers fun extra hMem =>
      ⟨fun hKnown => (hExtras extra hMem).1
        (List.mem_cons_of_mem _ hKnown), (hExtras extra hMem).2⟩)
  have hEach : ∀ inner,
      (∀ entry ∈
          before ++ (tagField, .string (some name)) :: after,
        entry.2.HasValue inner) ↔
        ∀ entry ∈ before ++ after, entry.2.HasValue inner := by
    intro inner
    simp only [List.forall_mem_append, List.forall_mem_cons,
      Document.hasValue_string, true_and]
  simp only [Document.hasValue_object_iff, hEach, decoder,
    bind_eq_ok_iff, splitTag_tagged_iff hKind hNames]
  constructor
  · rintro ⟨inner, hEnter, split, ⟨hAll, rfl⟩, hResult⟩
    cases hRecord.symm.trans hResult
    exact ⟨⟨inner, hEnter, hAll⟩, rfl⟩
  · rintro ⟨⟨inner, hEnter, hAll⟩, rfl⟩
    exact ⟨inner, hEnter, _, ⟨hAll, rfl⟩, hRecord⟩

/-
  A member is decoded to itself however it is spelled, if
  what is written can be read as a value, and only then.
-/
theorem decoder_spelled_iff
    {document : Document}
    (hSpelled : member.SpelledAs document)
    (context : Context)
    (result : Member) :
    decoder context document = .ok result ↔
      document.HasValue context ∧ result = member := by
  rcases hSpelled with ⟨name, kind, fields, hKind, hFields, hSpelled⟩
  cases hSpelled with
  | object hOrder hExtras =>
      exact decoder_object_iff hKind hFields hOrder hExtras context
        result
  | array hNames =>
      have hRecord :=
        hFields.record_spelled (.array (List.cons.inj hNames).2)
      rw [Document.hasValue_array_iff]
      simp only [List.map_cons, List.forall_mem_cons,
        Document.hasValue_string, true_and, Elements.ofList,
        decoder, bind_eq_ok_iff, decodeTag_document hKind,
        ← Elements.values_ofList_iff]
      constructor
      · rintro ⟨inner, hEnter, found, hFound, values, hValues, hResult⟩
        cases hFound
        cases hRecord.symm.trans hResult
        exact ⟨⟨inner, hEnter, values, hValues⟩, rfl⟩
      · rintro ⟨⟨inner, hEnter, values, hValues⟩, rfl⟩
        exact ⟨inner, hEnter, kind, rfl, values, hValues, hRecord⟩

theorem elements_spelled_iff
    {members : List Member}
    {documents : List Document}
    (hSpelled : List.Forall₂ SpelledAs members documents)
    (context : Context)
    (result : List Member) :
    Decoder.elements decoder context (.ofList documents) =
        .ok result ↔
      (∀ document ∈ documents, document.HasValue context) ∧
        result = members := by
  rw [Decoder.elements_ofList_iff]
  induction hSpelled generalizing result with
  | nil => cases result <;> simp
  | cons hFirst _ ih =>
      cases result with
      | nil => simp
      | cons first rest =>
          rw [List.forall₂_cons, ih, decoder_spelled_iff hFirst,
            List.forall_mem_cons, List.cons.injEq]
          exact and_and_and_comm

end Member

------------------------------------------------------------
-- Declarations
------------------------------------------------------------

theorem DeclarationKind.readsBack_decoder :
    Decoder.ReadsBack decoder (fun kind => .string kind.name) 0 := by
  intro kind context _
  rcases context with ⟨buffered, depth⟩
  cases buffered <;> cases kind <;> rfl

namespace Declaration

theorem regular_format :
    format.Regular where
  independent := by
    simp only [format, List.pairwise_cons, List.forall_mem_cons,
      List.not_mem_nil, false_implies, implies_true,
      List.Pairwise.nil, and_true]
    refine ⟨⟨?_, ?_, ?_⟩, ⟨?_, ?_⟩, ?_⟩ <;>
      exact RecordField.independent_part (by decide)
        (fun _ _ _ => rfl) (fun _ _ => rfl) (fun _ _ => rfl)
  sets := by
    simp only [format, List.forall_mem_cons, List.not_mem_nil,
      false_implies, implies_true, and_true]
    refine ⟨?_, ?_, ?_, ?_⟩ <;>
      exact RecordField.sets_part fun _ _ => rfl
  fresh := by simp [format]
  build := by
    rintro missing other ⟨name, kind, modifiers, members⟩
    cases name <;> cases kind <;> rfl

/- A declaration, spelled in some way, with its members as given. -/
def SpelledAs
    (d : Declaration)
    (members : List Document)
    (document : Document) : Prop :=
  List.Forall₂ Member.SpelledAs d.members members ∧
    Spelled format.names
      [("name", .string (some d.name)),
        ("kind", .string (some d.kind.name)),
        ("modifiers", d.modifiers.toJson.document),
        ("members", .array (.ofList members))] document

/- A declaration in its own order is decoded once its members are. -/
theorem decoder_fields
    (d : Declaration)
    (members : List Document) :
    decoder .start
        (.object (.ofFields
          [("name", .string (some d.name)),
            ("kind", .string (some d.kind.name)),
            ("modifiers", d.modifiers.toJson.document),
            ("members", .array (.ofList members))])) =
      Decoder.elements Member.decoder ⟨false, 125⟩
          (.ofList members) >>= fun found =>
        .ok ⟨d.name, d.kind, d.modifiers, found⟩ := by
  have hStart : Context.start.enter = .ok ⟨false, 126⟩ := rfl
  have hInner :
      Context.enter ⟨false, 126⟩ = .ok ⟨false, 125⟩ := rfl
  have hKind :=
    DeclarationKind.readsBack_decoder d.kind ⟨false, 126⟩
      (by decide)
  have hModifiers :=
    Modifiers.readsBack_decoder d.modifiers ⟨false, 126⟩
      (by decide)
  rw [Value.document_string] at hKind
  cases hFound :
      Decoder.elements Member.decoder ⟨false, 125⟩
        (.ofList members) <;>
    simp [decoder, Decoder.record, hStart, Entries.ofFields,
      Decoder.recordEntries, format, FieldName.read,
      Decoder.setField, Decoder.string, hKind, hModifiers,
      Decoder.list, hInner, hFound, error_bind,
      RecordFormat.required, pure, Except.pure]

/-
  A declaration is decoded to itself however it is spelled, if
  its members can be read as values, and only then.
-/
theorem decoder_spelled_iff
    {d : Declaration}
    {members : List Document}
    {document : Document}
    (hSpelled : d.SpelledAs members document)
    (result : Declaration) :
    decoder .start document = .ok result ↔
      (∀ member ∈ members, member.HasValue ⟨false, 125⟩) ∧
        result = d := by
  rcases hSpelled with ⟨hMembers, hSpelled⟩
  have hSame := regular_format.toOption_record hSpelled .start
  have hFields := d.decoder_fields members
  have hList := Member.elements_spelled_iff hMembers ⟨false, 125⟩
  rw [decoder] at hFields ⊢
  rw [eq_ok_iff_of_toOption_eq hSame, hFields, bind_eq_ok_iff]
  simp only [hList]
  constructor
  · rintro ⟨found, ⟨hValues, rfl⟩, hResult⟩
    cases hResult
    exact ⟨hValues, rfl⟩
  · rintro ⟨hValues, rfl⟩
    exact ⟨_, ⟨hValues, rfl⟩, rfl⟩

end Declaration

end Nullary
