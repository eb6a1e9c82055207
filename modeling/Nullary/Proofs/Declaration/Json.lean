import Nullary.Proofs.Declaration.Spelling

/-
  A declaration is read back from its text.

  What is written for a declaration or a member is one of its
  spellings, and what is written in it can be read.

  Main declarations:
    * `Json.Decoder.ReadsBack.decodeText_pretty`
    * `Member.readsBack_decoder`
    * `Declaration.readsBack_decoder`
    * `Declaration.decodeText_toJson`
-/

namespace Nullary

open Nullary.Json

------------------------------------------------------------
-- Texts
------------------------------------------------------------

namespace Json.Decoder

variable {α : Type}
variable {d : Decoder α}
variable {write : α → Value}
variable {depth : Nat}

/- What a decoder reads back, it decodes from the text on one line. -/
theorem ReadsBack.decodeText_compact
    (hBack : ReadsBack d write depth)
    (hDepth : depth ≤ Context.start.depth)
    (value : α)
    (hNumbers : (write value).numbers = []) :
    decodeText d (write value).compact = .ok value := by
  rw [Json.decodeText_compact d (by simp [hNumbers])]
  exact hBack value .start (Or.inr hDepth)

/- It also does so from the indented text. -/
theorem ReadsBack.decodeText_pretty
    (hBack : ReadsBack d write depth)
    (hDepth : depth ≤ Context.start.depth)
    (value : α)
    (hNumbers : (write value).numbers = []) :
    decodeText d (write value).pretty.toList = .ok value := by
  rw [Json.decodeText_pretty d (by simp [hNumbers])]
  exact hBack value .start (Or.inr hDepth)

end Json.Decoder

------------------------------------------------------------
-- Modifiers and Parameters
------------------------------------------------------------

theorem Modifiers.readable_toJson
    (m : Modifiers) :
    m.toJson.Readable 1 := by
  refine .array fun value hMem => ?_
  rcases List.mem_map.mp hMem with ⟨token, _, rfl⟩
  exact .string token

theorem Modifiers.numbers_toJson
    (m : Modifiers) :
    m.toJson.numbers = [] :=
  Value.numbersOfElements_map (fun _ => rfl) m.tokens

theorem Parameter.readable_toJson
    (p : Parameter) :
    p.toJson.Readable 1 := by
  have hOrder :
      Value.InOrder
        [("label", .string p.label), ("type", .string p.type)] := by
    change List.Pairwise (· < ·) ["label", "type"]
    decide
  refine .object hOrder fun field hMem => ?_
  simp only [List.mem_cons, List.not_mem_nil, or_false] at hMem
  rcases hMem with rfl | rfl
  · exact .string p.label
  · exact .string p.type

theorem Parameter.numbers_toJson
    (p : Parameter) :
    p.toJson.numbers = [] :=
  rfl

theorem Parameter.readable_list
    (parameters : List Parameter) :
    (Value.array (parameters.map toJson)).Readable 2 := by
  refine .array fun value hMem => ?_
  rcases List.mem_map.mp hMem with ⟨p, _, rfl⟩
  exact p.readable_toJson

------------------------------------------------------------
-- Members
------------------------------------------------------------

namespace Member

/- A member as it is written otherwise. -/
theorem spelledAs_toJson
    (member : Member) :
    member.SpelledAs member.toJson.document := by
  cases member with
  | initializer name modifiers parameters =>
      have hParameters :=
        SpelledList.own Parameter.spelledAs_toJson parameters
      cases name with
      | none =>
          exact ⟨"initializer", _, _, by decide,
            .unnamed modifiers hParameters, Spelled.own _ _⟩
      | some name =>
          exact ⟨"initializer", _, _, by decide,
            .initializer (some name) modifiers hParameters,
            Spelled.own _ _⟩
  | method name modifiers =>
      exact ⟨"method", _, _, by decide, .method name modifiers,
        Spelled.own _ _⟩
  | property name =>
      exact ⟨"property", _, _, by decide, .property name,
        Spelled.own _ _⟩
  | other =>
      exact ⟨"other", _, _, by decide, .other, Spelled.own _ _⟩

theorem hasValue_toJson
    (member : Member)
    {context : Context}
    (hAdmits : context.Admits 3) :
    member.toJson.document.HasValue context := by
  rcases hAdmits.exists_enter with ⟨inner, hEnter, hInner⟩
  have hModifiers := fun modifiers : Modifiers =>
    modifiers.readable_toJson.hasValue
      (hInner.mono (by decide : 1 ≤ 2))
  have hParameters := fun parameters =>
    (Parameter.readable_list parameters).hasValue hInner
  cases member with
  | initializer name modifiers parameters =>
      cases name <;>
        exact Value.hasValue_object hEnter
          (by simp [hModifiers, hParameters])
  | method name modifiers =>
      exact Value.hasValue_object hEnter (by simp [hModifiers])
  | property name => exact Value.hasValue_object hEnter (by simp)
  | other => exact Value.hasValue_object hEnter (by simp)

theorem readsBack_decoder :
    Decoder.ReadsBack decoder toJson 3 := by
  intro member context hAdmits
  rw [decoder_spelled_iff member.spelledAs_toJson]
  exact ⟨member.hasValue_toJson hAdmits, rfl⟩

theorem numbers_toJson
    (member : Member) :
    member.toJson.numbers = [] := by
  cases member with
  | initializer name modifiers parameters =>
      cases name <;> simp [toJson, Value.numbers,
        Value.numbersOfFields, Modifiers.numbers_toJson,
        Value.numbersOfElements_map Parameter.numbers_toJson]
  | method name modifiers =>
      simp [toJson, Value.numbers, Value.numbersOfFields,
        Modifiers.numbers_toJson]
  | property name => rfl
  | other => rfl

end Member

------------------------------------------------------------
-- Declarations
------------------------------------------------------------

namespace Declaration

/- There are no numbers in the text of a declaration. -/
theorem numbers_toJson
    (d : Declaration) :
    d.toJson.numbers = [] := by
  simp [toJson, Value.numbers, Value.numbersOfFields,
    Modifiers.numbers_toJson,
    Value.numbersOfElements_map Member.numbers_toJson]

theorem readsBack_decoder :
    Decoder.ReadsBack decoder toJson 5 := by
  intro d context hAdmits
  rcases hAdmits.exists_enter with ⟨inner, hEnter, hInner⟩
  have hKind :=
    DeclarationKind.readsBack_decoder d.kind inner
      (hInner.mono (Nat.zero_le _))
  have hModifiers :=
    Modifiers.readsBack_decoder d.modifiers inner
      (hInner.mono (by decide))
  have hMembers :=
    Member.readsBack_decoder.list d.members inner hInner
  rw [Value.document_string] at hKind
  simp [decoder, toJson, Decoder.record, hEnter, Decoder.recordEntries, format,
    FieldName.read, Decoder.setField, Decoder.string,
    hKind, hModifiers, hMembers,
    RecordFormat.required, pure, Except.pure]

/- A declaration is decoded from its own text. -/
theorem decoder_written
    (d : Declaration) :
    decoder .start d.toJson.written = .ok d := by
  rw [Value.written_eq_document _ (by simp [numbers_toJson])]
  exact readsBack_decoder d .start (by decide)

/-
  The text of a declaration, on one line or indented, is read
  back as the declaration.  An initializer without a name is
  written without the field.
-/
theorem decodeText_toJson
    (d : Declaration) :
    decodeText decoder d.toJson.compact = .ok d ∧
      decodeText decoder d.toJson.pretty.toList = .ok d ∧
      ∀ modifiers parameters,
        (Member.initializer none modifiers parameters).toJson.field?
            "name" = none :=
  ⟨readsBack_decoder.decodeText_compact (by decide) d
      (numbers_toJson d),
    readsBack_decoder.decodeText_pretty (by decide) d
      (numbers_toJson d),
    fun _ _ => rfl⟩

end Declaration

end Nullary
