import Mathlib.Data.List.Forall2
import Mathlib.Data.List.Pairwise
import Mathlib.Data.List.Perm.Basic
import Nullary.Proofs.Json.Readable

/-
  The ways to spell a record.

  A record may be written as an object with its fields in any
  order and others among them, or as an array of its fields.
  If the fields of its format are independent of each other,
  then it is decoded alike from all of them.

  A value that is buffered must have a value: what could have
  been skipped in its place must then be readable, too.

  Main declarations:
    * `Json.Spelled`
    * `Json.RecordFormat.Regular`
    * `Json.RecordFormat.Regular.toOption_record`
    * `Json.Decoder.Reads`
    * `Json.Decoder.ReadsBack`
    * `Json.Document.HasValue`
    * `Json.Document.value_buffer`
-/

namespace Nullary

------------------------------------------------------------
-- Steps That Succeed Alike
------------------------------------------------------------

section

variable {ε α β : Type}

theorem toOption_bind
    (first : Except ε α)
    (second : α → Except ε β) :
    (first >>= second).toOption =
      first.toOption.bind fun value => (second value).toOption := by
  cases first <;> rfl

theorem toOption_map
    (f : α → β)
    (x : Except ε α) :
    (f <$> x).toOption = x.toOption.map f := by
  cases x <;> rfl

/- Two steps that succeed alike have the same results. -/
theorem eq_ok_iff_of_toOption_eq
    {x y : Except ε α}
    (hSame : x.toOption = y.toOption)
    (result : α) :
    x = .ok result ↔ y = .ok result := by
  rw [← toOption_eq_some_iff, ← toOption_eq_some_iff, hSame]

end

namespace Json

------------------------------------------------------------
-- Whole Objects and Arrays
------------------------------------------------------------

/- The elements of an array that is complete. -/
def Elements.ofList : List Document → Elements
  | [] => .closed
  | document :: rest => .element document (ofList rest)

/- The fields of an object that is complete. -/
def Entries.ofFields : List (String × Document) → Entries
  | [] => .closed
  | (name, document) :: rest =>
      .field (.text name) document (ofFields rest)

/-
  A record with the given fields, of which some may be left
  out, and a format with the known names: an object of the
  fields in any order, with others that can be skipped, or
  an array of all fields.
-/
inductive Spelled
    (known : List String)
    (fields : List (String × Document)) : Document → Prop where
  | object
      {entries extras : List (String × Document)}
      (hOrder : entries.Perm (fields ++ extras))
      (hExtras :
        ∀ extra ∈ extras, extra.1 ∉ known ∧ extra.2.skip = .ok ()) :
      Spelled known fields (.object (.ofFields entries))
  | array
      (hAll : fields.map Prod.fst = known) :
      Spelled known fields (.array (.ofList (fields.map Prod.snd)))

/- The fields as they are written otherwise. -/
theorem Spelled.own
    (known : List String)
    (fields : List (String × Document)) :
    Spelled known fields (.object (.ofFields fields)) := by
  have hOrder : fields.Perm (fields ++ []) := by
    rw [List.append_nil]
  exact .object hOrder (by simp)

------------------------------------------------------------
-- Independent Fields
------------------------------------------------------------

namespace RecordField

variable {σ : Type}
variable {f g : RecordField σ}

/- Two fields of different names that do not see each other. -/
structure Independent
    (f g : RecordField σ) : Prop where
  name_ne : f.name ≠ g.name
  comm : ∀ context a b draft,
    (f.decode context a draft >>= g.decode context b).toOption =
      (g.decode context b draft >>= f.decode context a).toOption
  isSet_right : ∀ {context document draft next},
    f.decode context document draft = .ok next →
    g.isSet next = g.isSet draft
  isSet_left : ∀ {context document draft next},
    g.decode context document draft = .ok next →
    f.isSet next = f.isSet draft

theorem Independent.symm
    (hFields : Independent f g) :
    Independent g f where
  name_ne := hFields.name_ne.symm
  comm := fun context a b draft =>
    (hFields.comm context b a draft).symm
  isSet_right := hFields.isSet_left
  isSet_left := hFields.isSet_right

instance :
    Std.Symm (@Independent σ) :=
  ⟨fun _ _ => Independent.symm⟩

/- A field that is set once it has been decoded. -/
def Sets
    (f : RecordField σ) : Prop :=
  ∀ context document draft next,
    f.decode context document draft = .ok next →
    f.isSet next = true

/- A field that puts what is decoded into a draft. -/
def part
    {β : Type}
    (name : String)
    (isSet : σ → Bool)
    (put : β → σ → σ)
    (d : Decoder β) : RecordField σ where
  name := name
  isSet := isSet
  decode := fun context document draft => do
    return put (← d context document) draft

section

variable {β γ : Type}
variable {name other : String}
variable {isSet isSetOther : σ → Bool}
variable {put : β → σ → σ}
variable {putOther : γ → σ → σ}
variable {d : Decoder β}
variable {dOther : Decoder γ}

theorem decode_part_eq_ok
    {context : Context}
    {document : Document}
    {draft next : σ}
    (hNext :
      (part name isSet put d).decode context document draft =
        .ok next) :
    ∃ value, next = put value draft := by
  rcases bind_eq_ok_iff.mp hNext with ⟨value, _, hSame⟩
  cases hSame
  exact ⟨value, rfl⟩

theorem sets_part
    (hSet : ∀ value draft, isSet (put value draft) = true) :
    Sets (part name isSet put d) := by
  intro context document draft next hNext
  rcases decode_part_eq_ok hNext with ⟨value, rfl⟩
  exact hSet value draft

/- Parts that lie side by side are independent. -/
theorem independent_part
    (hName : name ≠ other)
    (hComm : ∀ a b draft,
      putOther b (put a draft) = put a (putOther b draft))
    (hRight : ∀ a draft, isSetOther (put a draft) = isSetOther draft)
    (hLeft : ∀ b draft, isSet (putOther b draft) = isSet draft) :
    Independent (part name isSet put d)
      (part other isSetOther putOther dOther) where
  name_ne := hName
  comm := by
    intro context a b draft
    change
      ((d context a >>= fun x => .ok (put x draft)) >>= fun next =>
          dOther context b >>= fun y =>
            .ok (putOther y next)).toOption =
        ((dOther context b >>= fun y =>
            .ok (putOther y draft)) >>= fun next =>
          d context a >>= fun x => .ok (put x next)).toOption
    cases d context a with
    | error e => cases dOther context b <;> rfl
    | ok x =>
        cases dOther context b with
        | error e => rfl
        | ok y => simp [hComm]
  isSet_right := by
    intro context document draft next hNext
    rcases decode_part_eq_ok hNext with ⟨value, rfl⟩
    exact hRight value draft
  isSet_left := by
    intro context document draft next hNext
    rcases decode_part_eq_ok hNext with ⟨value, rfl⟩
    exact hLeft value draft

end

end RecordField

------------------------------------------------------------
-- Records
------------------------------------------------------------

/-
  A format with independent fields, none of them set in an
  empty draft, and with one result for a draft.
-/
structure RecordFormat.Regular
    {σ α : Type}
    (format : RecordFormat σ α) : Prop where
  independent : format.fields.Pairwise RecordField.Independent
  sets : ∀ field ∈ format.fields, field.Sets
  fresh :
    ∀ field ∈ format.fields, field.isSet format.empty = false
  build : ∀ missing other draft,
    (format.build missing draft).toOption =
      (format.build other draft).toOption

/- The names of the fields of a format. -/
def RecordFormat.names
    {σ α : Type}
    (format : RecordFormat σ α) : List String :=
  format.fields.map RecordField.name

namespace Decoder

variable {σ : Type}
variable {fields : List (RecordField σ)}
variable {context : Context}

/- Take up one field of an object. -/
def recordStep
    (fields : List (RecordField σ))
    (context : Context)
    (entry : String × Document)
    (draft : σ) : Except DecodeError σ :=
  match fields.find? (·.name == entry.1) with
  | some field => setField field context entry.2 draft
  | none => entry.2.skip >>= fun _ => .ok draft

theorem recordEntries_cons
    (entry : String × Document)
    (rest : List (String × Document))
    (draft : σ) :
    recordEntries fields context (.ofFields (entry :: rest)) draft =
      recordStep fields context entry draft >>=
        recordEntries fields context (.ofFields rest) := by
  rcases entry with ⟨name, document⟩
  rw [Entries.ofFields, recordEntries, FieldName.read, ok_bind,
    recordStep]
  split
  · next hFound => rw [hFound]
  · next hFound =>
      rw [hFound]
      cases document.skip <;> rfl

theorem recordEntries_append
    (first second : List (String × Document))
    (draft : σ) :
    recordEntries fields context (.ofFields (first ++ second)) draft =
      recordEntries fields context (.ofFields first) draft >>=
        recordEntries fields context (.ofFields second) := by
  induction first generalizing draft with
  | nil => rfl
  | cons entry rest ih =>
      rw [List.cons_append, recordEntries_cons, recordEntries_cons]
      cases recordStep fields context entry draft with
      | error e => rfl
      | ok next => exact ih next

/- Fields with other names change nothing. -/
theorem recordEntries_extras
    {extras : List (String × Document)}
    (hExtras : ∀ extra ∈ extras,
      extra.1 ∉ fields.map RecordField.name ∧
        extra.2.skip = .ok ())
    (draft : σ) :
    recordEntries fields context (.ofFields extras) draft =
      .ok draft := by
  induction extras with
  | nil => rfl
  | cons extra rest ih =>
      rcases hExtras extra List.mem_cons_self with ⟨hName, hSkip⟩
      have hNone : fields.find? (·.name == extra.1) = none := by
        rw [List.find?_eq_none]
        intro field hMem hSame
        exact hName
          (List.mem_map.mpr ⟨field, hMem, by simpa using hSame⟩)
      rw [recordEntries_cons, recordStep, hNone]
      simp only [hSkip, ok_bind]
      exact ih fun other hMem =>
        hExtras other (List.mem_cons_of_mem _ hMem)

/- One field after another, of which the first does not set the second. -/
theorem toOption_setField_bind
    {f g : RecordField σ}
    {a b : Document}
    {draft : σ}
    (hKeeps : ∀ {next},
      f.decode context a draft = .ok next →
      g.isSet next = g.isSet draft) :
    (setField f context a draft >>= setField g context b).toOption =
      if f.isSet draft || g.isSet draft then none
      else (f.decode context a draft >>=
        g.decode context b).toOption := by
  cases hFirst : f.isSet draft with
  | true => simp [setField, hFirst, error_bind, Except.toOption]
  | false =>
      cases hNext : f.decode context a draft with
      | error e =>
          simp [setField, hFirst, hNext, error_bind, Except.toOption]
      | ok next =>
          cases hSecond : g.isSet draft <;>
            simp [setField, hFirst, hNext, hKeeps hNext, hSecond,
              Except.toOption]

/- Independent fields may be set in either order. -/
theorem setField_comm
    {f g : RecordField σ}
    (hFields : f.Independent g)
    (a b : Document)
    (draft : σ) :
    (setField f context a draft >>= setField g context b).toOption =
      (setField g context b draft >>=
        setField f context a).toOption := by
  rw [toOption_setField_bind hFields.isSet_right,
    toOption_setField_bind hFields.isSet_left, Bool.or_comm,
    hFields.comm]

/- A field cannot be set twice. -/
theorem setField_twice
    {f : RecordField σ}
    (hSets : f.Sets)
    (a b : Document)
    (draft : σ) :
    (setField f context a draft >>=
      setField f context b).toOption = none := by
  cases hSet : f.isSet draft with
  | true => simp [setField, hSet, error_bind, Except.toOption]
  | false =>
      cases hNext : f.decode context a draft with
      | error e =>
          simp [setField, hSet, hNext, error_bind, Except.toOption]
      | ok next =>
          simp [setField, hSet, hNext, hSets _ _ _ _ hNext,
            Except.toOption]

/- A field that is skipped may be skipped later. -/
theorem recordStep_comm_of_skipped
    {a : String × Document}
    (hOther : fields.find? (·.name == a.1) = none)
    (b : String × Document)
    (draft : σ) :
    (recordStep fields context a draft >>=
        recordStep fields context b).toOption =
      (recordStep fields context b draft >>=
        recordStep fields context a).toOption := by
  have hStep :
      recordStep fields context a =
        fun draft => a.2.skip >>= fun _ => .ok draft := by
    funext draft
    simp only [recordStep, hOther]
  rw [hStep]
  cases a.2.skip with
  | error e => cases recordStep fields context b draft <;> rfl
  | ok _ => cases hNext : recordStep fields context b draft <;>
      simp [hNext, error_bind]

section

variable (hIndependent : fields.Pairwise RecordField.Independent)
variable (hSets : ∀ field ∈ fields, field.Sets)

include hIndependent hSets

/- Two fields of an object may be exchanged, whatever they are. -/
theorem recordStep_comm
    (a b : String × Document)
    (draft : σ) :
    (recordStep fields context a draft >>=
        recordStep fields context b).toOption =
      (recordStep fields context b draft >>=
        recordStep fields context a).toOption := by
  cases hA : fields.find? (·.name == a.1) with
  | none => exact recordStep_comm_of_skipped hA b draft
  | some f =>
      cases hB : fields.find? (·.name == b.1) with
      | none => exact (recordStep_comm_of_skipped hB a draft).symm
      | some g =>
          have hF := List.mem_of_find?_eq_some hA
          have hG := List.mem_of_find?_eq_some hB
          have hStepA :
              recordStep fields context a =
                setField f context a.2 := by
            funext draft
            simp only [recordStep, hA]
          have hStepB :
              recordStep fields context b =
                setField g context b.2 := by
            funext draft
            simp only [recordStep, hB]
          rw [hStepA, hStepB]
          by_cases hSame : f = g
          · subst hSame
            rw [setField_twice (hSets f hF),
              setField_twice (hSets f hF)]
          · exact setField_comm (hIndependent.forall hF hG hSame)
              a.2 b.2 draft

/- The order of the fields of an object does not matter. -/
theorem toOption_recordEntries_perm
    {entries others : List (String × Document)}
    (hOrder : entries.Perm others)
    (draft : σ) :
    (recordEntries fields context (.ofFields entries)
        draft).toOption =
      (recordEntries fields context (.ofFields others)
        draft).toOption := by
  induction hOrder generalizing draft with
  | nil => rfl
  | cons entry _ ih =>
      rw [recordEntries_cons, recordEntries_cons, toOption_bind,
        toOption_bind]
      exact congrArg _ (funext ih)
  | swap a b rest =>
      have hTwo : ∀ first second,
          recordEntries fields context
              (.ofFields (first :: second :: rest)) draft =
            (recordStep fields context first draft >>=
                recordStep fields context second) >>=
              recordEntries fields context (.ofFields rest) := by
        intro first second
        rw [recordEntries_cons, bind_assoc]
        exact congrArg _ (funext (recordEntries_cons second rest))
      rw [hTwo, hTwo, toOption_bind,
        recordStep_comm hIndependent hSets, ← toOption_bind]
  | trans _ _ ihFirst ihSecond =>
      exact (ihFirst draft).trans (ihSecond draft)

end

/- A field is found by its name. -/
theorem find?_name
    (hIndependent : fields.Pairwise RecordField.Independent)
    {field : RecordField σ}
    (hMem : field ∈ fields) :
    fields.find? (·.name == field.name) = some field := by
  induction fields with
  | nil => cases hMem
  | cons first rest ih =>
      rw [List.pairwise_cons] at hIndependent
      rcases List.mem_cons.mp hMem with rfl | hRest
      · simp
      · have hName := (hIndependent.1 field hRest).name_ne
        rw [List.find?_cons_of_neg (by simpa using hName),
          ih hIndependent.2 hRest]

/-
  The elements of an array are taken up like fields with the
  names that are still to come.  These are not set yet, so it
  makes no difference that nobody asks.
-/
theorem recordElements_eq
    (hIndependent : fields.Pairwise RecordField.Independent)
    {left : List (RecordField σ)}
    (hLeft : left.Sublist fields)
    {entries : List (String × Document)}
    (hNames : entries.map Prod.fst = left.map RecordField.name)
    {draft : σ}
    (hFresh : ∀ field ∈ left, field.isSet draft = false) :
    recordElements context left
        (.ofList (entries.map Prod.snd)) draft =
      (recordEntries fields context (.ofFields entries) draft >>=
        fun next => .ok (next, .closed)) := by
  induction left generalizing entries draft with
  | nil =>
      rw [List.map_nil, List.map_eq_nil_iff] at hNames
      subst hNames
      rfl
  | cons field left ih =>
      cases entries with
      | nil => cases hNames
      | cons entry entries =>
          rcases entry with ⟨name, document⟩
          rw [List.map_cons, List.map_cons,
            List.cons.injEq] at hNames
          rcases hNames with ⟨rfl, hNames⟩
          have hFind :=
            find?_name hIndependent
              (hLeft.subset List.mem_cons_self)
          have hOthers :=
            (List.pairwise_cons.mp (hIndependent.sublist hLeft)).1
          have hStep :
              recordStep fields context (field.name, document) draft =
                field.decode context document draft := by
            simp [recordStep, hFind, setField,
              hFresh field List.mem_cons_self]
          rw [recordEntries_cons, hStep, List.map_cons,
            Elements.ofList, recordElements]
          cases hNext : field.decode context document draft with
          | error e => rfl
          | ok next =>
              have hFreshNext :
                  ∀ other ∈ left, other.isSet next = false := by
                intro other hMem
                rw [(hOthers other hMem).isSet_right hNext]
                exact hFresh other (List.mem_cons_of_mem _ hMem)
              exact ih (List.sublist_of_cons_sublist hLeft) hNames
                hFreshNext

end Decoder

namespace RecordFormat.Regular

variable {σ α : Type}
variable {format : RecordFormat σ α}

/- The fields of an object, in any order and among others. -/
theorem toOption_recordEntries
    (hRegular : format.Regular)
    {fields entries extras : List (String × Document)}
    (hOrder : entries.Perm (fields ++ extras))
    (hExtras : ∀ extra ∈ extras,
      extra.1 ∉ format.names ∧ extra.2.skip = .ok ())
    (context : Context) :
    (Decoder.recordEntries format.fields context
        (.ofFields entries) format.empty).toOption =
      (Decoder.recordEntries format.fields context
        (.ofFields fields) format.empty).toOption := by
  have hSkipped :
      Decoder.recordEntries format.fields context
          (.ofFields extras) = pure :=
    funext (Decoder.recordEntries_extras hExtras)
  rw [Decoder.toOption_recordEntries_perm hRegular.independent
      hRegular.sets hOrder,
    Decoder.recordEntries_append, hSkipped, bind_pure]

/- A record is decoded alike however it is spelled. -/
theorem toOption_record
    (hRegular : format.Regular)
    {fields : List (String × Document)}
    {document : Document}
    (hSpelled : Spelled format.names fields document)
    (context : Context) :
    (Decoder.record format context document).toOption =
      (Decoder.record format context
        (.object (.ofFields fields))).toOption := by
  cases hSpelled with
  | object hOrder hExtras =>
      simp only [Decoder.record, toOption_bind,
        hRegular.toOption_recordEntries hOrder hExtras]
  | array hAll =>
      have hElements := fun inner =>
        @Decoder.recordElements_eq σ format.fields inner
          hRegular.independent _ (List.Sublist.refl _) _ hAll _
          hRegular.fresh
      have hArray :
          Decoder.record format context
              (.array (.ofList (fields.map Prod.snd))) =
            context.enter >>= fun inner =>
              Decoder.recordEntries format.fields inner
                  (.ofFields fields) format.empty >>=
                format.build (Decoder.tooShort format) := by
        simp only [Decoder.record, hElements, bind_assoc, ok_bind,
          Decoder.endOfElements, bind_pure]
      rw [hArray]
      simp only [Decoder.record, toOption_bind,
        hRegular.build (Decoder.tooShort format)
          (fun _ name => .missingField name)]

end RecordFormat.Regular

------------------------------------------------------------
-- Lists
------------------------------------------------------------

/- An array of values, each spelled in some way. -/
inductive SpelledList
    {α : Type}
    (Spells : α → Document → Prop)
    (values : List α) : Document → Prop where
  | array
      {documents : List Document}
      (hEach : List.Forall₂ Spells values documents) :
      SpelledList Spells values (.array (.ofList documents))

theorem Value.elementsOf_eq_ofList
    (values : List Value) :
    elementsOf values = .ofList (values.map document) := by
  induction values with
  | nil => rfl
  | cons first rest ih =>
      rw [elementsOf, ih, List.map_cons, Elements.ofList]

/- A list as it is written otherwise. -/
theorem SpelledList.own
    {α : Type}
    {Spells : α → Document → Prop}
    {write : α → Value}
    (hEach : ∀ value, Spells value (write value).document)
    (values : List α) :
    SpelledList Spells values
      (Value.array (values.map write)).document := by
  rw [Value.document, Value.elementsOf_eq_ofList, List.map_map]
  refine .array (List.forall₂_map_right_iff.mpr ?_)
  exact List.forall₂_same.mpr fun value _ => hEach value

namespace Decoder

variable {α : Type}
variable {d : Decoder α}
variable {Spells : α → Document → Prop}
variable {depth : Nat}

theorem elements_ofList_iff
    {context : Context}
    {documents : List Document}
    {values : List α} :
    elements d context (.ofList documents) = .ok values ↔
      List.Forall₂ (fun value document => d context document = .ok value)
        values documents := by
  induction documents generalizing values with
  | nil => cases values <;> simp [Elements.ofList, elements]
  | cons first rest ih =>
      rw [Elements.ofList, elements]
      cases hFirst : d context first with
      | error e => cases values <;> simp [hFirst, error_bind]
      | ok value =>
          cases hRest : elements d context (.ofList rest) with
          | error e =>
              cases values <;>
                simp [hFirst, hRest, ← ih]
          | ok others =>
              cases values <;>
                simp [hFirst, hRest, ← ih, pure, Except.pure]

/-
  Every spelling of a value is decoded to the value, where so
  many arrays and objects may be opened.
-/
def Reads
    (d : Decoder α)
    (Spells : α → Document → Prop)
    (depth : Nat) : Prop :=
  ∀ ⦃value document⦄ ⦃context : Context⦄,
    Spells value document →
    context.Admits depth →
    d context document = .ok value

theorem Reads.list
    (hEach : Reads d Spells depth) :
    Reads (list d) (SpelledList Spells) (depth + 1) := by
  rintro values document context ⟨hDocuments⟩ hAdmits
  rcases hAdmits.exists_enter with ⟨inner, hEnter, hInner⟩
  rw [Decoder.list, hEnter, ok_bind, elements_ofList_iff]
  exact hDocuments.imp fun _ _ hSpelled => hEach hSpelled hInner

/-
  Whatever is written is decoded again, where so many arrays
  and objects may be opened.
-/
def ReadsBack
    (d : Decoder α)
    (write : α → Value)
    (depth : Nat) : Prop :=
  ∀ (value : α) (context : Context), context.Admits depth →
    d context (write value).document = .ok value

theorem readsBack_string :
    ReadsBack string .string 0 :=
  fun _ _ _ => rfl

/- What is written is one of the spellings. -/
theorem Reads.readsBack
    {write : α → Value}
    (hReads : Reads d Spells depth)
    (hOwn : ∀ value, Spells value (write value).document) :
    ReadsBack d write depth :=
  fun value _ hAdmits => hReads (hOwn value) hAdmits

/- Lists are read back if their elements are. -/
theorem ReadsBack.list
    {write : α → Value}
    (hEach : ReadsBack d write depth) :
    ReadsBack (list d) (fun values => .array (values.map write))
      (depth + 1) := by
  have hReads :
      Reads d (fun value document => document = (write value).document)
        depth := by
    rintro value document context rfl hAdmits
    exact hEach value context hAdmits
  exact hReads.list.readsBack (.own fun _ => rfl)

end Decoder

------------------------------------------------------------
-- Documents with a Value
------------------------------------------------------------

/- A document that can be read as a value. -/
def Document.HasValue
    (context : Context)
    (document : Document) : Prop :=
  ∃ value, document.value context = .ok value

theorem Decoder.buffer_eq_ok_iff
    {context : Context}
    {document : Document} :
    Decoder.buffer context document = .ok () ↔
      document.HasValue context := by
  unfold Decoder.buffer Document.HasValue
  cases document.value context <;> simp

/- A readable value has a value where its nesting is admitted. -/
theorem Value.Readable.hasValue
    {value : Value}
    {depth : Nat}
    (hValue : value.Readable depth)
    {context : Context}
    (hAdmits : context.Admits depth) :
    value.document.HasValue context := by
  refine ⟨value, ?_⟩
  rw [hValue.value_document context, readIn_of_admits]
  exact hAdmits.mono hValue.nesting_le

theorem Elements.values_ofList_iff
    {context : Context}
    {documents : List Document} :
    (∃ values, (ofList documents).values context = .ok values) ↔
      ∀ document ∈ documents, document.HasValue context := by
  induction documents with
  | nil => simp [ofList, Elements.values]
  | cons first rest ih =>
      rw [List.forall_mem_cons, ← ih, ofList, Elements.values]
      unfold Document.HasValue
      cases first.value context with
      | error e => simp [error_bind]
      | ok value =>
          cases (ofList rest).values context <;> simp

theorem Entries.values_ofFields_iff
    {context : Context}
    {entries : List (String × Document)} :
    (∃ values, (ofFields entries).values context = .ok values) ↔
      ∀ entry ∈ entries, entry.2.HasValue context := by
  induction entries with
  | nil => simp [ofFields, Entries.values]
  | cons first rest ih =>
      rcases first with ⟨name, document⟩
      rw [List.forall_mem_cons, ← ih, ofFields, Entries.values]
      unfold Document.HasValue
      cases document.value context with
      | error e => simp [FieldName.read, error_bind]
      | ok value =>
          cases (ofFields rest).values context <;>
            simp [FieldName.read]

namespace Document

variable {context : Context}

@[simp] theorem hasValue_string
    (text : String) :
    (string (some text)).HasValue context :=
  ⟨.string text, rfl⟩

theorem hasValue_array_iff
    {documents : List Document} :
    (array (.ofList documents)).HasValue context ↔
      ∃ inner, context.enter = .ok inner ∧
        ∀ document ∈ documents, document.HasValue inner := by
  cases hEnter : context.enter with
  | error e => simp [HasValue, Document.value, hEnter, error_bind]
  | ok inner =>
      have hValues := @Elements.values_ofList_iff inner documents
      simp only [Except.ok.injEq, exists_eq_left', ← hValues]
      unfold HasValue
      rw [Document.value, hEnter, ok_bind]
      cases (Elements.ofList documents).values inner <;> simp

theorem hasValue_object_iff
    {entries : List (String × Document)} :
    (object (.ofFields entries)).HasValue context ↔
      ∃ inner, context.enter = .ok inner ∧
        ∀ entry ∈ entries, entry.2.HasValue inner := by
  cases hEnter : context.enter with
  | error e => simp [HasValue, Document.value, hEnter, error_bind]
  | ok inner =>
      have hValues := @Entries.values_ofFields_iff inner entries
      simp only [Except.ok.injEq, exists_eq_left', ← hValues]
      unfold HasValue
      rw [Document.value, hEnter, ok_bind]
      cases (Entries.ofFields entries).values inner <;> simp

end Document

theorem Value.entriesOf_eq_ofFields
    (fields : List (String × Value)) :
    entriesOf fields =
      .ofFields (fields.map fun field => (field.1, field.2.document)) := by
  induction fields with
  | nil => rfl
  | cons first rest ih =>
      rw [entriesOf, ih, List.map_cons, Entries.ofFields]

theorem Value.hasValue_object
    {fields : List (String × Value)}
    {context inner : Context}
    (hEnter : context.enter = .ok inner)
    (hFields : ∀ field ∈ fields, field.2.document.HasValue inner) :
    (object fields).document.HasValue context := by
  rw [document_object, entriesOf_eq_ofFields,
    Document.hasValue_object_iff]
  exact ⟨inner, hEnter, List.forall_mem_map.mpr hFields⟩

/- In a record with a value, the fields have values, too. -/
theorem Spelled.hasValue
    {known : List String}
    {fields : List (String × Document)}
    {document : Document}
    (hSpelled : Spelled known fields document)
    {context : Context}
    (hValue : document.HasValue context) :
    ∃ inner, context.enter = .ok inner ∧
      ∀ field ∈ fields, field.2.HasValue inner := by
  cases hSpelled with
  | object hOrder hExtras =>
      rcases Document.hasValue_object_iff.mp hValue with
        ⟨inner, hEnter, hEntries⟩
      refine ⟨inner, hEnter, fun field hMem => ?_⟩
      exact hEntries field
        (hOrder.mem_iff.mpr (List.mem_append_left _ hMem))
  | array hAll =>
      rcases Document.hasValue_array_iff.mp hValue with
        ⟨inner, hEnter, hElements⟩
      exact ⟨inner, hEnter, fun field hMem =>
        hElements field.2 (List.mem_map_of_mem hMem)⟩

mutual

/- A value that is read in some context is read in a buffer. -/
theorem Document.value_buffer
    (document : Document)
    {context : Context}
    {value : Value}
    (hValue : document.value context = .ok value) :
    document.value .buffer = .ok value := by
  cases document with
  | array elements =>
      rw [Document.value, bind_eq_ok_iff] at hValue
      rcases hValue with ⟨inner, _, hValue⟩
      rw [bind_eq_ok_iff] at hValue
      rcases hValue with ⟨values, hValues, hValue⟩
      rw [Document.value, Context.enter_buffer, ok_bind,
        elements.values_buffer hValues]
      exact hValue
  | object entries =>
      rw [Document.value, bind_eq_ok_iff] at hValue
      rcases hValue with ⟨inner, _, hValue⟩
      rw [bind_eq_ok_iff] at hValue
      rcases hValue with ⟨values, hValues, hValue⟩
      rw [Document.value, Context.enter_buffer, ok_bind,
        entries.values_buffer hValues]
      exact hValue
  | number found => cases found <;> exact hValue
  | string found => cases found <;> exact hValue
  | _ => exact hValue

theorem Elements.values_buffer
    (elements : Elements)
    {context : Context}
    {values : List Value}
    (hValues : elements.values context = .ok values) :
    elements.values .buffer = .ok values := by
  cases elements with
  | closed => exact hValues
  | cut fault => exact hValues
  | element document rest =>
      rw [Elements.values, bind_eq_ok_iff] at hValues
      rcases hValues with ⟨first, hFirst, hValues⟩
      rw [bind_eq_ok_iff] at hValues
      rcases hValues with ⟨others, hOthers, hValues⟩
      rw [Elements.values, document.value_buffer hFirst, ok_bind,
        rest.values_buffer hOthers]
      exact hValues

theorem Entries.values_buffer
    (entries : Entries)
    {context : Context}
    {values : List (String × Value)}
    (hValues : entries.values context = .ok values) :
    entries.values .buffer = .ok values := by
  cases entries with
  | closed => exact hValues
  | cut fault => exact hValues
  | stray found => exact hValues
  | field name document rest =>
      rw [Entries.values, bind_eq_ok_iff] at hValues
      rcases hValues with ⟨text, hName, hValues⟩
      rw [bind_eq_ok_iff] at hValues
      rcases hValues with ⟨first, hFirst, hValues⟩
      rw [bind_eq_ok_iff] at hValues
      rcases hValues with ⟨others, hOthers, hValues⟩
      rw [Entries.values, hName, ok_bind,
        document.value_buffer hFirst, ok_bind,
        rest.values_buffer hOthers]
      exact hValues

end

end Json

end Nullary
