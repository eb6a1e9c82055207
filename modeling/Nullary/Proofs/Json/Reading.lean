import Nullary.Proofs.Json.Scalar

/-
  The text of a value is read back as it was written.  Only
  the text of a number may stand for another number, or be
  too large for one.

  A document is written as a text if the reader of the text
  finds the document and stops right behind it, whatever
  follows.  This is shown for one part of a document at a
  time, with any blanks between the parts, so that it holds
  for texts on one line and for indented ones.

  Main declarations:
    * `Json.Document.WrittenAs`
    * `Json.Elements.WrittenAs`
    * `Json.Entries.WrittenAs`
    * `Json.Value.document`
    * `Json.Value.written`
    * `Json.Value.writtenAs_prettyAt`
    * `Json.Value.writtenAs_compact`
    * `Json.Value.read_of_mem_texts`
    * `Json.decodeText_pretty`
    * `Json.decodeText_compact`
-/

namespace Nullary

namespace Json

variable {blanks text : List Char}
variable {c : Char}
variable {α : Type}

------------------------------------------------------------
-- Blanks
------------------------------------------------------------

/- A text of blanks only. -/
def Blanks
    (text : List Char) : Prop :=
  ∀ c ∈ text, isBlank c = true

theorem skipBlanks_append
    (hBlanks : Blanks blanks)
    (text : List Char) :
    skipBlanks (blanks ++ text) = skipBlanks text :=
  List.dropWhile_append_of_pos hBlanks

theorem skipBlanks_cons
    (hChar : isBlank c = false)
    (text : List Char) :
    skipBlanks (c :: text) = c :: text :=
  List.dropWhile_cons_of_neg (by simp [hChar])

/- Blanks before a mark are passed over. -/
theorem skipBlanks_append_cons
    (hBlanks : Blanks blanks)
    (hChar : isBlank c = false)
    (text : List Char) :
    skipBlanks (blanks ++ c :: text) = c :: text := by
  rw [skipBlanks_append hBlanks, skipBlanks_cons hChar]

theorem exists_blanks_append_skipBlanks
    (text : List Char) :
    ∃ blanks, Blanks blanks ∧ blanks ++ skipBlanks text = text :=
  ⟨text.takeWhile isBlank, fun _ => List.mem_takeWhile_imp,
    List.takeWhile_append_dropWhile⟩

/- A text that does not consist of blanks is skipped alike with a rest. -/
theorem skipBlanks_append_of_eq_cons
    {more : List Char}
    (hText : skipBlanks text = c :: more)
    (rest : List Char) :
    skipBlanks (text ++ rest) = c :: (more ++ rest) := by
  rcases exists_blanks_append_skipBlanks text with
    ⟨blanks, hBlanks, hSplit⟩
  have hFirst : isBlank c = false := by
    have hHead := List.head?_dropWhile_not isBlank text
    unfold skipBlanks at hText
    rw [hText] at hHead
    exact hHead
  rw [← hSplit, hText, List.append_assoc, List.cons_append,
    skipBlanks_append_cons hBlanks hFirst]

theorem endsNumber_blanks_append
    (hBlanks : Blanks blanks)
    (hChar : c ∈ [',', ']', '\x7d'])
    (rest : List Char) :
    EndsNumber (blanks ++ c :: rest) := by
  cases blanks with
  | nil => exact endsNumber_cons (Or.inr hChar)
  | cons b blanks =>
      exact endsNumber_cons (Or.inl (hBlanks b List.mem_cons_self))

/- The reader does not mind blanks before a value. -/
theorem Document.readValue_append
    (hBlanks : Blanks blanks)
    (fuel : Nat)
    (text : List Char) :
    readValue fuel (blanks ++ text) = readValue fuel text := by
  cases fuel with
  | zero => rfl
  | succ fuel =>
      rw [readValue, readValue, skipBlanks_append hBlanks]

theorem Document.readElements_skipBlanks
    (fuel : Nat)
    (text : List Char) :
    readElements fuel (skipBlanks text) = readElements fuel text := by
  cases fuel with
  | zero => rfl
  | succ fuel =>
      rcases exists_blanks_append_skipBlanks text with
        ⟨blanks, hBlanks, hText⟩
      rw [readElements, readElements,
        ← readValue_append hBlanks fuel (skipBlanks text), hText]

theorem Document.readEntries_skipBlanks
    (fuel : Nat)
    (text : List Char) :
    readEntries fuel (skipBlanks text) = readEntries fuel text := by
  cases fuel with
  | zero => rfl
  | succ fuel =>
      rcases exists_blanks_append_skipBlanks text with
        ⟨blanks, hBlanks, hText⟩
      rw [readEntries, readEntries,
        ← skipBlanks_append hBlanks (skipBlanks text), hText]

------------------------------------------------------------
-- Written Documents
------------------------------------------------------------

/-
  A text that the reader takes for a document, whatever
  follows it.  It starts with the document itself.
-/
structure Document.WrittenAs
    (document : Document)
    (text : List Char) : Prop where
  start : ∃ c rest,
    text = c :: rest ∧ isBlank c = false ∧ c ≠ ']'
  read : ∀ fuel rest,
    2 * text.length ≤ fuel →
    EndsNumber rest →
    readValue fuel (text ++ rest) = (document, some rest)

/- A text between brackets that the reader takes for elements. -/
structure Elements.WrittenAs
    (elements : Elements)
    (text : List Char) : Prop where
  start : ∃ c rest, skipBlanks text = c :: rest ∧ c ≠ ']'
  read : ∀ fuel blanks rest,
    2 * text.length + 1 ≤ fuel →
    Blanks blanks →
    Document.readElements fuel (text ++ (blanks ++ ']' :: rest)) =
      (elements, some rest)

/- A text between braces that the reader takes for fields. -/
structure Entries.WrittenAs
    (entries : Entries)
    (text : List Char) : Prop where
  start : ∃ rest, skipBlanks text = '"' :: rest
  read : ∀ fuel blanks rest,
    2 * text.length + 1 ≤ fuel →
    Blanks blanks →
    Document.readEntries fuel (text ++ (blanks ++ '\x7d' :: rest)) =
      (entries, some rest)

namespace Document

/- A text that starts a document is read with some fuel. -/
theorem WrittenAs.of_cons
    {document : Document}
    {text : List Char}
    (hStart : isBlank c = false ∧ c ≠ ']')
    (hRead :
      ∀ fuel rest,
        2 * text.length + 1 ≤ fuel →
        EndsNumber rest →
        readValue (fuel + 1) (c :: (text ++ rest)) =
          (document, some rest)) :
    WrittenAs document (c :: text) where
  start := ⟨c, text, rfl, hStart⟩
  read := by
    intro fuel rest hFuel hRest
    cases fuel with
    | zero => simp at hFuel
    | succ fuel =>
        rw [List.length_cons] at hFuel
        exact hRead fuel rest (by omega) hRest

theorem writtenAs_null :
    WrittenAs .null "null".toList :=
  .of_cons (by decide) fun _ _ _ _ => rfl

theorem writtenAs_true :
    WrittenAs (.bool true) "true".toList :=
  .of_cons (by decide) fun _ _ _ _ => rfl

theorem writtenAs_false :
    WrittenAs (.bool false) "false".toList :=
  .of_cons (by decide) fun _ _ _ _ => rfl

theorem writtenAs_quote
    (text : String) :
    WrittenAs (.string (some text)) (quote text) := by
  rw [quote, List.cons_append]
  refine .of_cons (by decide) fun fuel rest _ _ => ?_
  have hRead := readString_flatMap_escapeChar text rest
  rw [readValue, skipBlanks_cons (by decide)]
  simp only [List.append_assoc, List.singleton_append, readText, hRead]

/- A character that starts a number is no other. -/
theorem ne_of_startsNumber
    {c d : Char}
    (hNumber : c = '-' ∨ isDigit c = true)
    (hOther : (d == '-' || isDigit d) = false) :
    c ≠ d := by
  rintro rfl
  rcases hNumber with rfl | hDigit
  · exact absurd hOther (by decide)
  · simp [hDigit] at hOther

theorem isBlank_of_startsNumber
    (hNumber : c = '-' ∨ isDigit c = true) :
    isBlank c = false := by
  have hNe := fun d => ne_of_startsNumber (d := d) hNumber
  simp [isBlank, hNe ' ' (by decide), hNe '\n' (by decide),
    hNe '\t' (by decide), hNe '\r' (by decide)]

/- A text that starts like a number is read as one. -/
theorem readValue_eq_readNumber
    (hNumber : c = '-' ∨ isDigit c = true)
    (fuel : Nat)
    (rest : List Char) :
    readValue (fuel + 1) (c :: rest) = readNumber (c :: rest) := by
  have hNe := fun d => ne_of_startsNumber (d := d) hNumber
  rw [readValue, skipBlanks_cons (isBlank_of_startsNumber hNumber)]
  simp [hNe 'n' (by decide), hNe 't' (by decide),
    hNe 'f' (by decide), hNe '"' (by decide),
    hNe '[' (by decide), hNe '\x7b' (by decide), hNumber]

/- The text of a number starts like a number. -/
theorem exists_print_eq_cons
    (number : Number) :
    ∃ c rest, number.print = c :: rest ∧
      (c = '-' ∨ isDigit c = true) := by
  rcases number.exists_print with ⟨text, hText, hPrint⟩
  rcases hText.whole.exists_cons with ⟨c, more, hWhole, hDigit⟩
  rw [hPrint, NumberText.chars, hWhole]
  cases text.negative with
  | true => exact ⟨'-', _, rfl, Or.inl rfl⟩
  | false => exact ⟨c, _, rfl, Or.inr hDigit⟩

theorem writtenAs_print
    (number : Number) :
    WrittenAs (.number number.asRead) number.print := by
  rcases exists_print_eq_cons number with
    ⟨c, digits, hPrint, hNumber⟩
  rw [hPrint]
  refine .of_cons ⟨isBlank_of_startsNumber hNumber,
    ne_of_startsNumber hNumber (by decide)⟩ fun fuel rest _ hRest => ?_
  have hRead := number.readNumber_print_append hRest
  rw [hPrint, List.cons_append] at hRead
  rw [readValue_eq_readNumber hNumber, hRead]

theorem writtenAs_emptyArray :
    WrittenAs (.array .closed) ['[', ']'] :=
  .of_cons (by decide) fun _ _ _ _ => rfl

theorem writtenAs_emptyObject :
    WrittenAs (.object .closed) ['\x7b', '\x7d'] :=
  .of_cons (by decide) fun _ _ _ _ => rfl

/- Elements between brackets. -/
theorem WrittenAs.array
    {elements : Elements}
    {text blanks : List Char}
    (hElements : elements.WrittenAs text)
    (hBlanks : Blanks blanks) :
    WrittenAs (.array elements)
      ('[' :: text ++ blanks ++ [']']) := by
  rw [List.cons_append, List.cons_append]
  refine .of_cons (by decide) fun fuel rest hFuel _ => ?_
  rcases hElements.start with ⟨c, more, hStart, hFirst⟩
  have hSkip :=
    skipBlanks_append_of_eq_cons hStart (blanks ++ ']' :: rest)
  have hRead :=
    hElements.read fuel blanks rest (by simp at hFuel; omega) hBlanks
  rw [← readElements_skipBlanks, hSkip] at hRead
  rw [readValue, skipBlanks_cons (by decide)]
  simp [hSkip, hFirst, hRead]

/- Fields between braces. -/
theorem WrittenAs.object
    {entries : Entries}
    {text blanks : List Char}
    (hEntries : entries.WrittenAs text)
    (hBlanks : Blanks blanks) :
    WrittenAs (.object entries)
      ('\x7b' :: text ++ blanks ++ ['\x7d']) := by
  rw [List.cons_append, List.cons_append]
  refine .of_cons (by decide) fun fuel rest hFuel _ => ?_
  rcases hEntries.start with ⟨more, hStart⟩
  have hSkip :=
    skipBlanks_append_of_eq_cons hStart (blanks ++ '\x7d' :: rest)
  have hRead :=
    hEntries.read fuel blanks rest (by simp at hFuel; omega) hBlanks
  rw [← readEntries_skipBlanks, hSkip] at hRead
  rw [readValue, skipBlanks_cons (by decide)]
  simp [hSkip, hRead]

end Document

namespace Elements

variable {document : Document}
variable {elements : Elements}
variable {blanks text others : List Char}

theorem skipBlanks_element
    (hBlanks : Blanks blanks)
    (hValue : document.WrittenAs text)
    (rest : List Char) :
    ∃ c more, skipBlanks (blanks ++ text ++ rest) = c :: more ∧
      c ≠ ']' := by
  rcases hValue.start with ⟨c, more, rfl, hNotBlank, hFirst⟩
  refine ⟨c, more ++ rest, ?_, hFirst⟩
  rw [List.append_assoc, List.cons_append,
    skipBlanks_append_cons hBlanks hNotBlank]

theorem WrittenAs.last
    (hBlanks : Blanks blanks)
    (hValue : document.WrittenAs text) :
    WrittenAs (.element document .closed) (blanks ++ text) where
  start := by
    simpa using skipBlanks_element hBlanks hValue []
  read := by
    intro fuel after rest hFuel hAfter
    cases fuel with
    | zero => simp at hFuel
    | succ fuel =>
        have hRead :=
          hValue.read fuel (after ++ ']' :: rest)
            (by simp at hFuel; omega)
            (endsNumber_blanks_append hAfter (by simp) rest)
        have hSkip : skipBlanks (after ++ ']' :: rest) = ']' :: rest :=
          skipBlanks_append_cons hAfter (by decide) rest
        rw [Document.readElements, List.append_assoc,
          Document.readValue_append hBlanks, hRead]
        simp [hSkip]

theorem WrittenAs.more
    (hBlanks : Blanks blanks)
    (hValue : document.WrittenAs text)
    (hOthers : elements.WrittenAs others) :
    WrittenAs (.element document elements)
      (blanks ++ text ++ ',' :: others) where
  start := skipBlanks_element hBlanks hValue _
  read := by
    intro fuel after rest hFuel hAfter
    cases fuel with
    | zero => simp at hFuel
    | succ fuel =>
        have hRead :=
          hValue.read fuel (',' :: (others ++ (after ++ ']' :: rest)))
            (by simp at hFuel; omega)
            (endsNumber_cons (Or.inr (by simp)))
        have hMore :=
          hOthers.read fuel after rest
            (by simp at hFuel; omega) hAfter
        have hSkip :
            skipBlanks (',' :: (others ++ (after ++ ']' :: rest))) =
              ',' :: (others ++ (after ++ ']' :: rest)) :=
          skipBlanks_cons (by decide) _
        rw [Document.readElements, List.append_assoc,
          List.append_assoc, Document.readValue_append hBlanks,
          List.cons_append, hRead]
        simp [hSkip, hMore]

end Elements

namespace Entries

variable {document : Document}
variable {entries : Entries}
variable {blanks gap text others : List Char}

/- The text of a field starts with the quote of its name. -/
theorem skipBlanks_field
    (hBlanks : Blanks blanks)
    (name : String)
    (rest : List Char) :
    ∃ more,
      skipBlanks (blanks ++ quote name ++ rest) = '"' :: more := by
  refine ⟨name.toList.flatMap escapeChar ++ '"' :: rest, ?_⟩
  rw [List.append_assoc, skipBlanks_append hBlanks]
  simp [quote, skipBlanks, isBlank]

/- The name of a field is read, and its value comes next. -/
theorem readEntries_quote_append
    (hBlanks : Blanks blanks)
    (fuel : Nat)
    (name : String)
    (rest : List Char) :
    Document.readEntries (fuel + 1)
        (blanks ++ (quote name ++ rest)) =
      Document.readField fuel (.text name) rest := by
  have hQuote :
      skipBlanks (blanks ++ (quote name ++ rest)) =
        '"' :: (name.toList.flatMap escapeChar ++ '"' :: rest) := by
    rw [skipBlanks_append hBlanks]
    simp [quote, skipBlanks, isBlank]
  rw [Document.readEntries, hQuote]
  simp only [readString_flatMap_escapeChar, Option.map_some,
    Option.getD_some]

theorem WrittenAs.last
    (hBlanks : Blanks blanks)
    (name : String)
    (hGap : Blanks gap)
    (hValue : document.WrittenAs text) :
    WrittenAs (.field (.text name) document .closed)
      (blanks ++ quote name ++ ':' :: (gap ++ text)) where
  start := skipBlanks_field hBlanks name _
  read := by
    intro fuel after rest hFuel hAfter
    rcases fuel with _ | _ | fuel
    · simp at hFuel
    · simp [quote] at hFuel
    · have hRead :=
        hValue.read fuel (after ++ '\x7d' :: rest)
          (by simp at hFuel; omega)
          (endsNumber_blanks_append hAfter (by simp) rest)
      have hSkip :
          skipBlanks (after ++ '\x7d' :: rest) = '\x7d' :: rest :=
        skipBlanks_append_cons hAfter (by decide) rest
      rw [List.append_assoc, List.append_assoc, List.cons_append,
        List.append_assoc, readEntries_quote_append hBlanks,
        Document.readField, skipBlanks_cons (by decide)]
      simp [Document.readValue_append hGap, hRead, hSkip]

theorem WrittenAs.more
    (hBlanks : Blanks blanks)
    (name : String)
    (hGap : Blanks gap)
    (hValue : document.WrittenAs text)
    (hOthers : entries.WrittenAs others) :
    WrittenAs (.field (.text name) document entries)
      (blanks ++ quote name ++ ':' :: (gap ++ text) ++
        ',' :: others) where
  start := by
    rw [List.append_assoc]
    exact skipBlanks_field hBlanks name _
  read := by
    intro fuel after rest hFuel hAfter
    rcases fuel with _ | _ | fuel
    · simp at hFuel
    · simp [quote] at hFuel
    · have hRead :=
        hValue.read fuel
          (',' :: (others ++ (after ++ '\x7d' :: rest)))
          (by simp at hFuel; omega)
          (endsNumber_cons (Or.inr (by simp)))
      have hMore :=
        hOthers.read fuel after rest
          (by simp at hFuel; omega) hAfter
      have hSkip :
          skipBlanks (',' :: (others ++ (after ++ '\x7d' :: rest))) =
            ',' :: (others ++ (after ++ '\x7d' :: rest)) :=
        skipBlanks_cons (by decide) _
      have hText :
          blanks ++ quote name ++ ':' :: (gap ++ text) ++
              ',' :: others ++ (after ++ '\x7d' :: rest) =
            blanks ++ (quote name ++ ':' :: (gap ++ (text ++
              ',' :: (others ++ (after ++ '\x7d' :: rest))))) := by
        simp
      rw [hText, readEntries_quote_append hBlanks,
        Document.readField, skipBlanks_cons (by decide)]
      simp [Document.readValue_append hGap, hRead, hSkip, hMore]

end Entries

------------------------------------------------------------
-- Texts of Values
------------------------------------------------------------

namespace Value

mutual

/- The document of a value. -/
def document : Value → Document
  | null => .null
  | bool value => .bool value
  | number value => .number (some value)
  | string value => .string (some value)
  | array elements => .array (elementsOf elements)
  | object fields => .object (entriesOf fields)

/- The elements of a document. -/
def elementsOf : List Value → Elements
  | [] => .closed
  | value :: rest => .element value.document (elementsOf rest)

/- The fields of a document. -/
def entriesOf : List (String × Value) → Entries
  | [] => .closed
  | (name, value) :: rest =>
      .field (.text name) value.document (entriesOf rest)

end

@[simp] theorem document_string
    (text : String) :
    (string text).document = .string (some text) :=
  rfl

@[simp] theorem document_object
    (fields : List (String × Value)) :
    (object fields).document = .object (entriesOf fields) :=
  rfl

@[simp] theorem entriesOf_nil :
    entriesOf [] = .closed :=
  rfl

@[simp] theorem entriesOf_cons
    (name : String)
    (value : Value)
    (rest : List (String × Value)) :
    entriesOf ((name, value) :: rest) =
      .field (.text name) value.document (entriesOf rest) :=
  rfl

mutual

/- The numbers in a value. -/
def numbers : Value → List Number
  | number value => [value]
  | array elements => numbersOfElements elements
  | object fields => numbersOfFields fields
  | _ => []

/- The numbers in values. -/
def numbersOfElements : List Value → List Number
  | [] => []
  | value :: rest => value.numbers ++ numbersOfElements rest

/- The numbers in fields. -/
def numbersOfFields : List (String × Value) → List Number
  | [] => []
  | (_, value) :: rest => value.numbers ++ numbersOfFields rest

end

mutual

/- The document that the text of a value is read as. -/
def written : Value → Document
  | null => .null
  | bool value => .bool value
  | number value => .number value.asRead
  | string value => .string (some value)
  | array elements => .array (writtenElements elements)
  | object fields => .object (writtenEntries fields)

/- The elements that the texts of values are read as. -/
def writtenElements : List Value → Elements
  | [] => .closed
  | value :: rest => .element value.written (writtenElements rest)

/- The fields that the texts of fields are read as. -/
def writtenEntries : List (String × Value) → Entries
  | [] => .closed
  | (name, value) :: rest =>
      .field (.text name) value.written (writtenEntries rest)

end

mutual

/- A value with exact numbers is read as it is. -/
theorem written_eq_document
    (value : Value)
    (hExact : ∀ n ∈ value.numbers, n.IsExact) :
    value.written = value.document := by
  cases value with
  | null => rfl
  | bool value => rfl
  | number value =>
      rw [written, document,
        (hExact value List.mem_cons_self).asRead_eq_some]
  | string value => rfl
  | array elements =>
      rw [written, document, writtenElements_eq elements hExact]
  | object fields =>
      rw [written, document, writtenEntries_eq fields hExact]

theorem writtenElements_eq
    (elements : List Value)
    (hExact : ∀ n ∈ numbersOfElements elements, n.IsExact) :
    writtenElements elements = elementsOf elements := by
  cases elements with
  | nil => rfl
  | cons first rest =>
      rw [numbersOfElements, List.forall_mem_append] at hExact
      rw [writtenElements, elementsOf,
        written_eq_document first hExact.1,
        writtenElements_eq rest hExact.2]

theorem writtenEntries_eq
    (fields : List (String × Value))
    (hExact : ∀ n ∈ numbersOfFields fields, n.IsExact) :
    writtenEntries fields = entriesOf fields := by
  cases fields with
  | nil => rfl
  | cons first rest =>
      cases first with
      | mk name value =>
          rw [numbersOfFields, List.forall_mem_append] at hExact
          rw [writtenEntries, entriesOf,
            written_eq_document value hExact.1,
            writtenEntries_eq rest hExact.2]

end

theorem blanks_newLine
    (depth : Nat) :
    Blanks (newLine depth) := by
  intro c hMem
  rcases List.mem_cons.mp hMem with rfl | hSpace
  · decide
  · rw [List.eq_of_mem_replicate hSpace]
    decide

mutual

/- The indented text of a value. -/
theorem writtenAs_prettyAt
    (depth : Nat)
    (value : Value) :
    value.written.WrittenAs (prettyAt depth value) := by
  cases value with
  | null => exact Document.writtenAs_null
  | bool value =>
      cases value with
      | true => exact Document.writtenAs_true
      | false => exact Document.writtenAs_false
  | number value => exact Document.writtenAs_print value
  | string value => exact Document.writtenAs_quote value
  | array elements =>
      cases elements with
      | nil => exact Document.writtenAs_emptyArray
      | cons first rest =>
          exact .array
            (writtenAs_prettyElements (depth + 1) (first :: rest)
              (List.cons_ne_nil first rest))
            (blanks_newLine depth)
  | object fields =>
      cases fields with
      | nil => exact Document.writtenAs_emptyObject
      | cons first rest =>
          exact .object
            (writtenAs_prettyFields (depth + 1) (first :: rest)
              (List.cons_ne_nil first rest))
            (blanks_newLine depth)

theorem writtenAs_prettyElements
    (depth : Nat)
    (elements : List Value)
    (hNonempty : elements ≠ []) :
    (writtenElements elements).WrittenAs
      (prettyElements depth elements) := by
  cases elements with
  | nil => exact absurd rfl hNonempty
  | cons first rest =>
      have hFirst := writtenAs_prettyAt depth first
      cases rest with
      | nil => exact .last (blanks_newLine depth) hFirst
      | cons second rest =>
          exact .more (blanks_newLine depth) hFirst
            (writtenAs_prettyElements depth (second :: rest)
              (List.cons_ne_nil second rest))

theorem writtenAs_prettyFields
    (depth : Nat)
    (fields : List (String × Value))
    (hNonempty : fields ≠ []) :
    (writtenEntries fields).WrittenAs (prettyFields depth fields) := by
  have hSpace : Blanks [' '] := by
    intro c hMem
    rw [List.mem_singleton.mp hMem]
    decide
  cases fields with
  | nil => exact absurd rfl hNonempty
  | cons first rest =>
      cases first with
      | mk name value =>
          have hValue := writtenAs_prettyAt depth value
          cases rest with
          | nil =>
              exact .last (blanks_newLine depth) name hSpace hValue
          | cons second rest =>
              exact .more (blanks_newLine depth) name hSpace hValue
                (writtenAs_prettyFields depth (second :: rest)
                  (List.cons_ne_nil second rest))

end

theorem blanks_nil :
    Blanks [] := by
  intro c hMem
  cases hMem

mutual

/- The text of a value on one line. -/
theorem writtenAs_compact
    (value : Value) :
    value.written.WrittenAs value.compact := by
  cases value with
  | null => exact Document.writtenAs_null
  | bool value =>
      cases value with
      | true => exact Document.writtenAs_true
      | false => exact Document.writtenAs_false
  | number value => exact Document.writtenAs_print value
  | string value => exact Document.writtenAs_quote value
  | array elements =>
      cases elements with
      | nil => exact Document.writtenAs_emptyArray
      | cons first rest =>
          simpa [compact, written] using Document.WrittenAs.array
            (writtenAs_compactElements (first :: rest)
              (List.cons_ne_nil first rest)) blanks_nil
  | object fields =>
      cases fields with
      | nil => exact Document.writtenAs_emptyObject
      | cons first rest =>
          simpa [compact, written] using Document.WrittenAs.object
            (writtenAs_compactFields (first :: rest)
              (List.cons_ne_nil first rest)) blanks_nil

theorem writtenAs_compactElements
    (elements : List Value)
    (hNonempty : elements ≠ []) :
    (writtenElements elements).WrittenAs
      (compactElements elements) := by
  cases elements with
  | nil => exact absurd rfl hNonempty
  | cons first rest =>
      have hFirst := writtenAs_compact first
      cases rest with
      | nil => exact .last blanks_nil hFirst
      | cons second rest =>
          exact .more blanks_nil hFirst
            (writtenAs_compactElements (second :: rest)
              (List.cons_ne_nil second rest))

theorem writtenAs_compactFields
    (fields : List (String × Value))
    (hNonempty : fields ≠ []) :
    (writtenEntries fields).WrittenAs (compactFields fields) := by
  cases fields with
  | nil => exact absurd rfl hNonempty
  | cons first rest =>
      cases first with
      | mk name value =>
          have hValue := writtenAs_compact value
          cases rest with
          | nil => exact .last blanks_nil name blanks_nil hValue
          | cons second rest =>
              exact .more blanks_nil name blanks_nil hValue
                (writtenAs_compactFields (second :: rest)
                  (List.cons_ne_nil second rest))

end

end Value

------------------------------------------------------------
-- Decoding Texts
------------------------------------------------------------

/- A text that holds one document is decoded as the document. -/
theorem decodeText_of_read
    {document : Document}
    (d : Decoder α)
    (hRead : Document.read text = (document, false)) :
    decodeText d text = d .start document := by
  unfold decodeText
  cases hDecode : d .start document with
  | error e => simp [hRead, hDecode]
  | ok value => simp [hRead, hDecode]

theorem Document.WrittenAs.read_eq
    {document : Document}
    (hText : document.WrittenAs text) :
    Document.read text = (document, false) := by
  have hRead := hText.read (2 * text.length + 2) [] (by omega)
    endsNumber_nil
  rw [List.append_nil] at hRead
  simp [Document.read, hRead, skipBlanks]

/- Both texts of a value are read as the same document. -/
theorem Value.read_of_mem_texts
    {value : Value}
    (hText : text ∈ [value.compact, value.pretty.toList]) :
    Document.read text = (value.written, false) := by
  simp only [Value.pretty, String.toList_ofList, List.mem_cons,
    List.not_mem_nil, or_false] at hText
  rcases hText with rfl | rfl
  · exact value.writtenAs_compact.read_eq
  · exact (value.writtenAs_prettyAt 0).read_eq

theorem decodeText_pretty
    (d : Decoder α)
    {value : Value}
    (hExact : ∀ n ∈ value.numbers, n.IsExact) :
    decodeText d value.pretty.toList = d .start value.document := by
  rw [← value.written_eq_document hExact]
  exact decodeText_of_read d (Value.read_of_mem_texts (by simp))

theorem decodeText_compact_written
    (d : Decoder α)
    (value : Value) :
    decodeText d value.compact = d .start value.written :=
  decodeText_of_read d (Value.read_of_mem_texts List.mem_cons_self)

theorem decodeText_compact
    (d : Decoder α)
    {value : Value}
    (hExact : ∀ n ∈ value.numbers, n.IsExact) :
    decodeText d value.compact = d .start value.document := by
  rw [decodeText_compact_written, value.written_eq_document hExact]

end Json

end Nullary
