import Nullary.Proofs.Json.Reading
import Nullary.Proofs.Steps

/-
  The values that can be read.

  A value that was read has its fields in order, its whole
  numbers fit into 64 bits, and it is nested no deeper than
  its context allowed.  Such a value is read again as itself
  in every context that allows for its nesting.

  Main declarations:
    * `Json.Context.Admits`
    * `Json.Value.Readable`
    * `Json.Value.nesting`
    * `Json.Document.readable_of_value`
    * `Json.Value.readIn`
    * `Json.Value.Readable.value_document`
-/

namespace Nullary

namespace Json

variable {fields : List (String × Value)}
variable {elements : List Value}
variable {number : Number}

------------------------------------------------------------
-- Contexts
------------------------------------------------------------

namespace Context

variable {context inner : Context}
variable {n : Nat}

/- A context in which that many arrays and objects may be opened. -/
def Admits
    (context : Context)
    (n : Nat) : Prop :=
  context.buffered = true ∨ n ≤ context.depth

instance :
    Decidable (context.Admits n) :=
  inferInstanceAs (Decidable (_ ∨ _))

theorem admits_buffer :
    buffer.Admits n :=
  Or.inl rfl

@[simp] theorem enter_buffer :
    buffer.enter = .ok buffer :=
  rfl

theorem Admits.mono
    {m : Nat}
    (hAdmits : context.Admits n)
    (hLess : m ≤ n) :
    context.Admits m :=
  hAdmits.imp_right (Nat.le_trans hLess)

theorem admits_max_iff
    {m : Nat} :
    context.Admits (max m n) ↔
      context.Admits m ∧ context.Admits n := by
  unfold Admits
  rw [Nat.max_le]
  exact or_and_left

/- Something is opened, or nothing can be opened. -/
theorem enter_cases
    (context : Context) :
    (context.enter = .error (.fault .malformed) ∧
        ∀ n, ¬ context.Admits (n + 1)) ∨
      ∃ inner, context.enter = .ok inner ∧
        ∀ n, inner.Admits n ↔ context.Admits (n + 1) := by
  rcases context with ⟨buffered, depth⟩
  cases buffered with
  | true => simp [enter, Admits]
  | false =>
      cases depth with
      | zero => simp [enter, Admits]
      | succ depth => simp [enter, Admits]

theorem Admits.exists_enter
    (hAdmits : context.Admits (n + 1)) :
    ∃ inner, context.enter = .ok inner ∧ inner.Admits n := by
  rcases enter_cases context with
    ⟨_, hNone⟩ | ⟨inner, hEnter, hInner⟩
  · exact absurd hAdmits (hNone n)
  · exact ⟨inner, hEnter, (hInner n).mpr hAdmits⟩

/- In a text, what is opened counts. -/
theorem depth_of_enter
    (hText : context.buffered = false)
    (hEnter : context.enter = .ok inner) :
    inner.buffered = false ∧ context.depth = inner.depth + 1 := by
  rcases context with ⟨buffered, depth⟩
  cases hText
  cases depth with
  | zero => simp [enter] at hEnter
  | succ depth =>
      simp only [enter, Bool.false_eq_true, if_false,
        Nat.add_one_ne_zero, Except.ok.injEq] at hEnter
      subst hEnter
      exact ⟨rfl, rfl⟩

end Context

------------------------------------------------------------
-- Fields in Order
------------------------------------------------------------

namespace Value

variable {fields : List (String × Value)}

/- Fields in the order of their names, each name once. -/
def InOrder
    (fields : List (String × Value)) : Prop :=
  (fields.map Prod.fst).Pairwise (· < ·)

instance
    (fields : List (String × Value)) :
    Decidable (InOrder fields) :=
  inferInstanceAs (Decidable (List.Pairwise _ _))

theorem mem_setField
    {name : String}
    {value : Value}
    {field : String × Value}
    (hMem : field ∈ setField name value fields) :
    field = (name, value) ∨ field ∈ fields := by
  induction fields with
  | nil => simpa [setField] using hMem
  | cons first rest ih =>
      rcases first with ⟨other, old⟩
      rw [setField] at hMem
      split at hMem
      · simpa using hMem
      · split at hMem
        · rcases List.mem_cons.mp hMem with hSame | hRest
          · exact Or.inl hSame
          · exact Or.inr (List.mem_cons_of_mem _ hRest)
        · rcases List.mem_cons.mp hMem with rfl | hRest
          · exact Or.inr List.mem_cons_self
          · exact (ih hRest).imp_right (List.mem_cons_of_mem _)

theorem inOrder_setField
    (name : String)
    (value : Value)
    (hOrder : InOrder fields) :
    InOrder (setField name value fields) := by
  induction fields with
  | nil => exact List.pairwise_singleton _ _
  | cons first rest ih =>
      rcases first with ⟨other, old⟩
      have hParts := List.pairwise_cons.mp hOrder
      rw [setField]
      split
      · next hBefore =>
          refine List.pairwise_cons.mpr ⟨?_, hOrder⟩
          intro next hNext
          rcases List.mem_cons.mp hNext with rfl | hRest
          · exact hBefore
          · exact String.lt_trans hBefore (hParts.1 next hRest)
      · next hNotBefore =>
          split
          · next hSame =>
              subst hSame
              exact hOrder
          · next hOther =>
              have hAfter : other < name :=
                Std.lt_of_le_of_ne (String.not_lt.mp hNotBefore)
                  (Ne.symm hOther)
              refine List.pairwise_cons.mpr ⟨?_, ih hParts.2⟩
              intro next hNext
              rcases List.mem_map.mp hNext with
                ⟨field, hMem, rfl⟩
              rcases mem_setField hMem with rfl | hRest
              · exact hAfter
              · exact hParts.1 _ (List.mem_map_of_mem hRest)

/- Sorted fields to which other fields are added stay sorted. -/
theorem inOrder_foldl
    {add : List (String × Value) → String × Value →
      List (String × Value)}
    (hAdd : ∀ sorted field,
      add sorted field = setField field.1 field.2 sorted)
    (fields : List (String × Value))
    {sorted : List (String × Value)}
    (hOrder : InOrder sorted) :
    InOrder (fields.foldl add sorted) ∧
      ∀ field ∈ fields.foldl add sorted,
        field ∈ sorted ∨ field ∈ fields := by
  induction fields generalizing sorted with
  | nil => exact ⟨hOrder, fun _ => Or.inl⟩
  | cons first rest ih =>
      rw [List.foldl_cons, hAdd]
      rcases ih (inOrder_setField first.1 first.2 hOrder) with
        ⟨hResult, hMem⟩
      refine ⟨hResult, fun field hField => ?_⟩
      rcases hMem field hField with hSet | hRest
      · rcases mem_setField hSet with rfl | hSorted
        · exact Or.inr List.mem_cons_self
        · exact Or.inl hSorted
      · exact Or.inr (List.mem_cons_of_mem _ hRest)

/- Sorting puts fields in order and adds none. -/
theorem inOrder_sortFields
    (fields : List (String × Value)) :
    InOrder (sortFields fields) ∧
      ∀ field ∈ sortFields fields, field ∈ fields := by
  have hNone : InOrder [] := List.Pairwise.nil
  rcases inOrder_foldl (fun _ _ => rfl) fields hNone with
    ⟨hOrder, hMem⟩
  exact ⟨hOrder, fun field hField =>
    (hMem field hField).resolve_left List.not_mem_nil⟩

/- A field with a name after all others is added at the end. -/
theorem setField_eq_append
    {name : String}
    (value : Value)
    (hAfter : ∀ field ∈ fields, field.1 < name) :
    setField name value fields = fields ++ [(name, value)] := by
  induction fields with
  | nil => rfl
  | cons first rest ih =>
      rcases first with ⟨other, old⟩
      have hBefore : other < name :=
        hAfter (other, old) List.mem_cons_self
      have hRest := ih fun field hMem =>
        hAfter field (List.mem_cons_of_mem _ hMem)
      rw [setField, if_neg (String.lt_asymm hBefore),
        if_neg (fun hSame => String.lt_irrefl _ (hSame ▸ hBefore)),
        hRest, List.cons_append]

theorem foldl_of_inOrder
    {add : List (String × Value) → String × Value →
      List (String × Value)}
    (hAdd : ∀ sorted field,
      add sorted field = setField field.1 field.2 sorted)
    {sorted : List (String × Value)}
    (hOrder : InOrder (sorted ++ fields)) :
    fields.foldl add sorted = sorted ++ fields := by
  induction fields generalizing sorted with
  | nil => exact (List.append_nil sorted).symm
  | cons first rest ih =>
      have hBefore : ∀ field ∈ sorted, field.1 < first.1 := by
        intro field hMem
        unfold InOrder at hOrder
        rw [List.map_append, List.pairwise_append] at hOrder
        exact hOrder.2.2 _ (List.mem_map_of_mem hMem) _
          List.mem_cons_self
      rw [List.append_cons] at hOrder ⊢
      rw [List.foldl_cons, hAdd,
        setField_eq_append first.2 hBefore, ih hOrder]

/- Fields that are in order stay as they are. -/
theorem sortFields_of_inOrder
    (hOrder : InOrder fields) :
    sortFields fields = fields :=
  foldl_of_inOrder (fun _ _ => rfl) hOrder

------------------------------------------------------------
-- Readable Values
------------------------------------------------------------

end Value

/- A number that a text can stand for: a double, or one that is exact. -/
def Number.Fits : Number → Prop
  | integer value => IsExact (.integer value)
  | double _ => True

namespace Value

/-
  A value that is nested at most so deep, with its fields in
  order and its whole numbers in 64 bits.
-/
inductive Readable : Nat → Value → Prop where
  | null {depth : Nat} :
      Readable depth .null
  | bool {depth : Nat} (value : Bool) :
      Readable depth (.bool value)
  | number {depth : Nat} {value : Number}
      (hFits : value.Fits) :
      Readable depth (.number value)
  | string {depth : Nat} (value : String) :
      Readable depth (.string value)
  | array {depth : Nat} {elements : List Value}
      (hElements : ∀ value ∈ elements, Readable depth value) :
      Readable (depth + 1) (.array elements)
  | object {depth : Nat} {fields : List (String × Value)}
      (hOrder : InOrder fields)
      (hFields : ∀ field ∈ fields, Readable depth field.2) :
      Readable (depth + 1) (.object fields)

end Value

------------------------------------------------------------
-- Nesting and Numbers
------------------------------------------------------------

namespace Value

variable {depth : Nat}
variable {value : Value}
variable {context : Context}
variable {α : Type}

mutual

/- How many arrays and objects of a value stand inside each other. -/
def nesting : Value → Nat
  | array elements => nestingOfElements elements + 1
  | object fields => nestingOfFields fields + 1
  | _ => 0

def nestingOfElements : List Value → Nat
  | [] => 0
  | value :: rest => max value.nesting (nestingOfElements rest)

def nestingOfFields : List (String × Value) → Nat
  | [] => 0
  | (_, value) :: rest => max value.nesting (nestingOfFields rest)

end

theorem nestingOfElements_le_iff
    {depth : Nat} :
    nestingOfElements elements ≤ depth ↔
      ∀ value ∈ elements, value.nesting ≤ depth := by
  induction elements with
  | nil => simp [nestingOfElements]
  | cons first rest ih =>
      rw [nestingOfElements, Nat.max_le, ih, List.forall_mem_cons]

theorem nestingOfFields_le_iff
    {depth : Nat} :
    nestingOfFields fields ≤ depth ↔
      ∀ field ∈ fields, field.2.nesting ≤ depth := by
  induction fields with
  | nil => simp [nestingOfFields]
  | cons first rest ih =>
      rw [nestingOfFields, Nat.max_le, ih, List.forall_mem_cons]

theorem Readable.nesting_le
    (hValue : value.Readable depth) :
    value.nesting ≤ depth := by
  induction hValue with
  | null => exact Nat.zero_le _
  | bool value => exact Nat.zero_le _
  | number hFits => exact Nat.zero_le _
  | string value => exact Nat.zero_le _
  | array hElements ih =>
      exact Nat.succ_le_succ (nestingOfElements_le_iff.mpr ih)
  | object hOrder hFields ih =>
      exact Nat.succ_le_succ (nestingOfFields_le_iff.mpr ih)

/- What is read for a value: itself, unless it is nested too deep. -/
def readIn
    (context : Context)
    (nesting : Nat)
    {α : Type}
    (value : α) : Except DecodeError α :=
  if context.Admits nesting then .ok value
  else .error (.fault .malformed)

theorem readIn_of_admits
    {nesting : Nat}
    (value : α)
    (hAdmits : context.Admits nesting) :
    readIn context nesting value = .ok value :=
  if_pos hAdmits

theorem readIn_zero
    (context : Context)
    (value : α) :
    readIn context 0 value = .ok value :=
  readIn_of_admits value (Or.inr (Nat.zero_le _))

theorem readIn_bind_ok
    (context : Context)
    (nesting : Nat)
    {β : Type}
    (value : α)
    (f : α → β) :
    (readIn context nesting value >>= fun found =>
        Except.ok (f found)) =
      readIn context nesting (f value) := by
  unfold readIn
  split <;> rfl

theorem readIn_bind_readIn
    {first second : Nat}
    {β γ : Type}
    (value : α)
    (other : β)
    (join : α → β → γ) :
    (readIn context first value >>= fun found =>
        readIn context second other >>= fun next =>
          Except.ok (join found next)) =
      readIn context (max first second) (join value other) := by
  unfold readIn
  by_cases hFirst : context.Admits first
  · by_cases hSecond : context.Admits second
    · simp [hFirst, hSecond, Context.admits_max_iff]
    · simp only [hFirst, hSecond, Context.admits_max_iff,
        if_true, if_false, and_false, ok_bind]
      rfl
  · simp only [hFirst, Context.admits_max_iff, if_false,
      false_and]
    rfl

theorem readIn_enter
    {inner : Context}
    {nesting : Nat}
    (value : α)
    (hInner : inner.Admits nesting ↔ context.Admits (nesting + 1)) :
    readIn inner nesting value =
      readIn context (nesting + 1) value := by
  unfold readIn
  simp [hInner]

theorem values_elementsOf
    (hElements :
      ∀ value ∈ elements,
        value.document.value context =
          readIn context value.nesting value) :
    (elementsOf elements).values context =
      readIn context (nestingOfElements elements) elements := by
  induction elements with
  | nil => exact (readIn_zero context []).symm
  | cons first rest ih =>
      have hFirst := hElements first List.mem_cons_self
      have hRest := ih fun value hMem =>
        hElements value (List.mem_cons_of_mem _ hMem)
      rw [elementsOf, Elements.values, hFirst, hRest]
      exact readIn_bind_readIn first rest List.cons

theorem values_entriesOf
    (hFields :
      ∀ field ∈ fields,
        field.2.document.value context =
          readIn context field.2.nesting field.2) :
    (entriesOf fields).values context =
      readIn context (nestingOfFields fields) fields := by
  induction fields with
  | nil => exact (readIn_zero context []).symm
  | cons first rest ih =>
      rcases first with ⟨name, value⟩
      have hFirst := hFields (name, value) List.mem_cons_self
      have hRest := ih fun field hMem =>
        hFields field (List.mem_cons_of_mem _ hMem)
      rw [entriesOf_cons, Entries.values, FieldName.read, ok_bind,
        hFirst, hRest]
      exact readIn_bind_readIn value rest
        fun value rest => (name, value) :: rest

/- A readable value is read as itself where its nesting is admitted. -/
theorem Readable.value_document
    (hValue : value.Readable depth)
    (context : Context) :
    value.document.value context =
      readIn context value.nesting value := by
  induction hValue generalizing context with
  | null => exact (readIn_zero context _).symm
  | bool value => exact (readIn_zero context _).symm
  | number hFits => exact (readIn_zero context _).symm
  | string value => exact (readIn_zero context _).symm
  | array hElements ih =>
      rw [document, Document.value, nesting]
      rcases context.enter_cases with
        ⟨hEnter, hNone⟩ | ⟨inner, hEnter, hInner⟩
      · rw [hEnter, readIn, if_neg (hNone _)]
        rfl
      · have hValues := values_elementsOf fun value hMem =>
          ih value hMem inner
        rw [hEnter, ok_bind, hValues, readIn_enter _ (hInner _)]
        exact readIn_bind_ok _ _ _ Value.array
  | object hOrder hFields ih =>
      rw [document, Document.value, nesting]
      rcases context.enter_cases with
        ⟨hEnter, hNone⟩ | ⟨inner, hEnter, hInner⟩
      · rw [hEnter, readIn, if_neg (hNone _)]
        rfl
      · have hValues := values_entriesOf fun field hMem =>
          ih field hMem inner
        rw [hEnter, ok_bind, hValues, readIn_enter _ (hInner _)]
        refine (readIn_bind_ok _ _ _ fun fields =>
          Value.object (sortFields fields)).trans ?_
        rw [sortFields_of_inOrder hOrder]

theorem mem_numbersOfElements :
    number ∈ numbersOfElements elements ↔
      ∃ value ∈ elements, number ∈ value.numbers := by
  induction elements with
  | nil => simp [numbersOfElements]
  | cons first rest ih =>
      simp [numbersOfElements, ih]

theorem mem_numbersOfFields :
    number ∈ numbersOfFields fields ↔
      ∃ field ∈ fields, number ∈ field.2.numbers := by
  induction fields with
  | nil => simp [numbersOfFields]
  | cons first rest ih =>
      simp [numbersOfFields, ih]

theorem numbersOfElements_map
    {write : α → Value}
    (hNone : ∀ value, (write value).numbers = [])
    (values : List α) :
    numbersOfElements (values.map write) = [] := by
  induction values with
  | nil => rfl
  | cons first rest ih =>
      simp [numbersOfElements, hNone first, ih]

theorem Readable.fits_of_mem_numbers
    (hValue : value.Readable depth)
    (hMem : number ∈ value.numbers) :
    number.Fits := by
  induction hValue with
  | null => cases hMem
  | bool value => cases hMem
  | string value => cases hMem
  | number hFits =>
      rw [numbers, List.mem_singleton] at hMem
      exact hMem ▸ hFits
  | array hElements ih =>
      rcases mem_numbersOfElements.mp hMem with
        ⟨value, hInside, hNumber⟩
      exact ih value hInside hNumber
  | object hOrder hFields ih =>
      rcases mem_numbersOfFields.mp hMem with
        ⟨field, hInside, hNumber⟩
      exact ih field hInside hNumber

/- A readable value without doubles has exact numbers only. -/
theorem Readable.isExact_of_mem_numbers
    (hValue : value.Readable depth)
    (hWhole : ∀ bits, Number.double bits ∉ value.numbers)
    (hMem : number ∈ value.numbers) :
    number.IsExact := by
  cases number with
  | integer found => exact hValue.fits_of_mem_numbers hMem
  | double bits => exact absurd hMem (hWhole bits)

end Value

------------------------------------------------------------
-- Documents with Numbers That Fit
------------------------------------------------------------

mutual

/- All numbers of a document fit. -/
def Document.Fits : Document → Prop
  | .number (some value) => value.Fits
  | .array elements => elements.Fits
  | .object entries => entries.Fits
  | _ => True

def Elements.Fits : Elements → Prop
  | .element value rest => value.Fits ∧ rest.Fits
  | _ => True

def Entries.Fits : Entries → Prop
  | .field _ value rest => value.Fits ∧ rest.Fits
  | _ => True

end

mutual

/- What is read in a document is readable. -/
theorem Document.readable_of_value
    {context : Context}
    (hText : context.buffered = false)
    (document : Document)
    (hFits : document.Fits)
    {value : Value}
    (hValue : document.value context = .ok value) :
    value.Readable context.depth := by
  cases document with
  | missing => cases hValue
  | broken read skipped => cases hValue
  | brokenString read skipped => cases hValue
  | null =>
      cases hValue
      exact .null
  | bool found =>
      cases hValue
      exact .bool found
  | number found =>
      cases found with
      | none => cases hValue
      | some number =>
          cases hValue
          exact .number hFits
  | string found =>
      cases found with
      | none => cases hValue
      | some text =>
          cases hValue
          exact .string text
  | array elements =>
      rw [Document.value, bind_eq_ok_iff] at hValue
      rcases hValue with ⟨inner, hEnter, hValue⟩
      rw [bind_eq_ok_iff] at hValue
      rcases hValue with ⟨values, hValues, hValue⟩
      cases hValue
      rcases Context.depth_of_enter hText hEnter with
        ⟨hInner, hDepth⟩
      rw [hDepth]
      exact .array
        (Elements.readable_of_values hInner elements hFits hValues)
  | object entries =>
      rw [Document.value, bind_eq_ok_iff] at hValue
      rcases hValue with ⟨inner, hEnter, hValue⟩
      rw [bind_eq_ok_iff] at hValue
      rcases hValue with ⟨fields, hFields, hValue⟩
      cases hValue
      rcases Context.depth_of_enter hText hEnter with
        ⟨hInner, hDepth⟩
      rcases Value.inOrder_sortFields fields with ⟨hOrder, hMem⟩
      have hAll :=
        Entries.readable_of_values hInner entries hFits hFields
      rw [hDepth]
      exact .object hOrder fun field hField =>
        hAll field (hMem field hField)

theorem Elements.readable_of_values
    {context : Context}
    (hText : context.buffered = false)
    (elements : Elements)
    (hFits : elements.Fits)
    {values : List Value}
    (hValues : elements.values context = .ok values) :
    ∀ value ∈ values, value.Readable context.depth := by
  cases elements with
  | closed =>
      cases hValues
      exact fun _ hMem => nomatch hMem
  | cut fault => cases hValues
  | element first rest =>
      rw [Elements.values, bind_eq_ok_iff] at hValues
      rcases hValues with ⟨value, hFirst, hValues⟩
      rw [bind_eq_ok_iff] at hValues
      rcases hValues with ⟨others, hRest, hValues⟩
      cases hValues
      intro found hMem
      rcases List.mem_cons.mp hMem with rfl | hOther
      · exact first.readable_of_value hText hFits.1 hFirst
      · exact rest.readable_of_values hText hFits.2 hRest found hOther

theorem Entries.readable_of_values
    {context : Context}
    (hText : context.buffered = false)
    (entries : Entries)
    (hFits : entries.Fits)
    {fields : List (String × Value)}
    (hFields : entries.values context = .ok fields) :
    ∀ field ∈ fields, field.2.Readable context.depth := by
  cases entries with
  | closed =>
      cases hFields
      exact fun _ hMem => nomatch hMem
  | cut fault => cases hFields
  | stray found => cases hFields
  | field name first rest =>
      rw [Entries.values, bind_eq_ok_iff] at hFields
      rcases hFields with ⟨text, hName, hFields⟩
      rw [bind_eq_ok_iff] at hFields
      rcases hFields with ⟨value, hFirst, hFields⟩
      rw [bind_eq_ok_iff] at hFields
      rcases hFields with ⟨others, hRest, hFields⟩
      cases hFields
      intro found hMem
      rcases List.mem_cons.mp hMem with rfl | hOther
      · exact first.readable_of_value hText hFits.1 hFirst
      · exact rest.readable_of_values hText hFits.2 hRest found hOther

end

------------------------------------------------------------
-- Numbers of Texts
------------------------------------------------------------

theorem Number.takeDigits_le_largest
    {value : Nat}
    (hValue : value ≤ NumberText.largest)
    (digits : List Char) :
    (NumberText.takeDigits value digits).1 ≤
      NumberText.largest := by
  induction digits generalizing value with
  | nil => exact hValue
  | cons c digits ih =>
      rw [NumberText.takeDigits]
      split
      · next hNext => exact ih hNext
      · exact hValue

theorem NumberText.fits_of_double?
    {negative : Bool}
    {digits : Nat}
    {exponent : Int}
    {number : Number}
    (hNumber : double? negative digits exponent = some number) :
    number.Fits := by
  rw [double?, Option.bind_eq_bind, Option.bind_eq_some_iff] at hNumber
  rcases hNumber with ⟨f, _, hNumber⟩
  cases hNumber
  trivial

theorem NumberText.fits_of_doubleValue?
    {text : NumberText}
    {number : Number}
    (hNumber : text.doubleValue? = some number) :
    number.Fits := by
  rw [doubleValue?] at hNumber
  dsimp only at hNumber
  split at hNumber
  · exact fits_of_double? hNumber
  · split at hNumber
    · exact fits_of_double? hNumber
    · split at hNumber
      · cases hNumber
      · exact fits_of_double? hNumber

/- The value of a number text fits. -/
theorem NumberText.fits_of_value?
    {text : NumberText}
    {number : Number}
    (hNumber : text.value? = some number) :
    number.Fits := by
  have hLargest :=
    Number.takeDigits_le_largest (Nat.zero_le _) text.whole
  rw [value?] at hNumber
  dsimp only at hNumber
  split at hNumber
  · split at hNumber
    · cases hNumber
      exact ⟨by omega, Int.ofNat_le.mpr hLargest⟩
    · split at hNumber
      · next hNegative =>
          cases hNumber
          exact ⟨by omega, by omega⟩
      · exact fits_of_double? hNumber
  · exact fits_of_doubleValue? hNumber

/- The numbers of a document that was read fit. -/
theorem Document.fits_readNumber
    (text : List Char) :
    (readNumber text).1.Fits := by
  rw [readNumber]
  cases NumberText.scan text with
  | broken read skipped => trivial
  | number found rest =>
      dsimp only
      cases hValue : found.value? with
      | none => trivial
      | some number => exact NumberText.fits_of_value? hValue

theorem Document.fits_readWord
    {value : Document}
    (hValue : value.Fits)
    (word : String)
    (text : List Char) :
    (readWord word value text).1.Fits := by
  rw [readWord]
  cases wordFault word.toList text with
  | none => exact hValue
  | some fault => trivial

theorem Document.fits_readText
    (text : List Char) :
    (readText text).1.Fits := by
  rw [readText]
  cases readString text with
  | text value rest => trivial
  | broken read skipped => trivial

/-
  The induction is on the fuel, for all parts of a document at
  once; each part is read with less fuel than the whole.
-/
theorem Document.fits_of_fuel
    (fuel : Nat) :
    (∀ text, (readValue fuel text).1.Fits) ∧
    (∀ text, (readElements fuel text).1.Fits) ∧
    (∀ text, (readEntries fuel text).1.Fits) ∧
    (∀ name text, (readField fuel name text).1.Fits) := by
  induction fuel with
  | zero => exact ⟨fun _ => trivial, fun _ => trivial,
      fun _ => trivial, fun _ _ => trivial⟩
  | succ fuel ih =>
      rcases ih with ⟨hValue, hElements, hEntries, hField⟩
      refine ⟨fun text => ?_, fun text => ?_, fun text => ?_,
        fun name text => ?_⟩
      · rw [readValue]
        split
        · trivial
        · exact fits_readWord (by trivial) _ _
        · exact fits_readWord (by trivial) _ _
        · exact fits_readWord (by trivial) _ _
        · exact fits_readText _
        · split
          · trivial
          · trivial
          · exact hElements _
        · split
          · trivial
          · exact hEntries _
        · split
          · exact fits_readNumber _
          · trivial
      · rw [readElements]
        split
        · next value hRead =>
            have hFirst := hValue text
            rw [hRead] at hFirst
            exact ⟨hFirst, trivial⟩
        · next value rest hRead =>
            have hFirst := hValue text
            rw [hRead] at hFirst
            split
            · exact ⟨hFirst, trivial⟩
            · exact ⟨hFirst, trivial⟩
            · exact ⟨hFirst, hElements _⟩
            · exact ⟨hFirst, trivial⟩
      · rw [readEntries]
        split
        · exact ⟨trivial, trivial⟩
        · split
          · exact ⟨trivial, trivial⟩
          · exact hField _ _
        · trivial
      · rw [readField]
        split
        · exact ⟨trivial, trivial⟩
        · next start _ =>
            split
            · next value hRead =>
                have hFirst := hValue start
                rw [hRead] at hFirst
                exact ⟨hFirst, trivial⟩
            · next value rest hRead =>
                have hFirst := hValue start
                rw [hRead] at hFirst
                split
                · exact ⟨hFirst, trivial⟩
                · exact ⟨hFirst, trivial⟩
                · exact ⟨hFirst, hEntries _⟩
                · exact ⟨hFirst, trivial⟩
        · exact ⟨trivial, trivial⟩

/- The document of a text has numbers that fit. -/
theorem Document.fits_read
    (text : List Char) :
    (read text).1.Fits := by
  have hValue := (fits_of_fuel (2 * text.length + 2)).1 text
  rw [read]
  split
  · next document hRead =>
      rw [hRead] at hValue
      exact hValue
  · next document rest hRead =>
      rw [hRead] at hValue
      exact hValue

end Json

end Nullary
