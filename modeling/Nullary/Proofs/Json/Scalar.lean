import Mathlib.Data.List.TakeWhile
import Nullary.Json.Decode

/-
  The texts of strings and of numbers are read back as they
  were written.

  A string ends at its quote.  A number is read as far as its
  text goes on, so that what follows it must not look like
  more of it.

  Main declarations:
    * `Json.readString_flatMap_escapeChar`
    * `Json.EndsNumber`
    * `Json.NumberText.scan_chars_append`
    * `Json.Number.exists_print`
    * `Json.Number.asRead`
    * `Json.Number.readNumber_print_append`
    * `Json.Number.IsExact`
-/

namespace Nullary

namespace Json

------------------------------------------------------------
-- Strings
------------------------------------------------------------

/- A character that is written by its code. -/
def isCoded
    (c : Char) : Bool :=
  c.toNat < 0x20 && c.toNat != 0x08 && c.toNat != 0x0C &&
    c != '\n' && c != '\r' && c != '\t'

/- The unit that a written character is read as. -/
def StringUnit.ofChar
    (c : Char) : StringUnit :=
  if isCoded c then .code c.toNat else .char c

theorem hexValue?_hexDigit
    {n : Nat}
    (hDigit : n < 16) :
    hexValue? (hexDigit n) = some n := by
  have hAll :
      ∀ n : Fin 16, hexValue? (hexDigit n.val) = some n.val := by
    decide
  exact hAll ⟨n, hDigit⟩

/- The code of a control character is read back. -/
theorem hexCode?_hexDigit
    {n : Nat}
    (hSmall : n < 0x100) :
    hexCode? '0' '0' (hexDigit (n / 16)) (hexDigit (n % 16)) =
      some n := by
  have hZero : hexValue? '0' = some 0 := by decide
  have hHigh := hexValue?_hexDigit (n := n / 16) (by omega)
  have hLow := hexValue?_hexDigit (n := n % 16) (by omega)
  simp only [hexCode?, hZero, hHigh, hLow, Option.bind_eq_bind,
    Option.bind_some]
  exact congrArg some (by omega)

/- A character is scanned as its unit. -/
theorem scan_escapeChar_append
    (c : Char)
    (rest : List Char) :
    StringUnit.scan (escapeChar c ++ rest) =
      (.ofChar c :: (StringUnit.scan rest).1,
        (StringUnit.scan rest).2) := by
  unfold escapeChar StringUnit.ofChar isCoded
  by_cases hQuote : c = '"'
  · subst hQuote
    rfl
  by_cases hSlash : c = '\\'
  · subst hSlash
    rfl
  by_cases hBack : c.toNat = 0x08
  · have hChar : c = Char.ofNat 0x08 := by
      rw [← hBack, Char.ofNat_toNat]
    subst hChar
    rfl
  by_cases hForm : c.toNat = 0x0C
  · have hChar : c = Char.ofNat 0x0C := by
      rw [← hForm, Char.ofNat_toNat]
    subst hChar
    rfl
  by_cases hLine : c = '\n'
  · subst hLine
    rfl
  by_cases hReturn : c = '\r'
  · subst hReturn
    rfl
  by_cases hTab : c = '\t'
  · subst hTab
    rfl
  by_cases hControl : c.toNat < 0x20
  · have hCode := hexCode?_hexDigit (n := c.toNat) (by omega)
    simp [hQuote, hSlash, hBack, hForm, hLine, hReturn, hTab,
      hControl, StringUnit.scan, hCode]
  · simp [hQuote, hSlash, hBack, hForm, hLine, hReturn, hTab,
      hControl, StringUnit.scan]

theorem scan_flatMap_escapeChar
    (text : List Char)
    (rest : List Char) :
    StringUnit.scan (text.flatMap escapeChar ++ '"' :: rest) =
      (text.map .ofChar, .closed rest) := by
  induction text with
  | nil => rfl
  | cons c text ih =>
      rw [List.flatMap_cons, List.append_assoc,
        scan_escapeChar_append, ih, List.map_cons]

/- Codes of control characters are no halves of pairs. -/
theorem decode_cons_ofChar
    (c : Char)
    (text : List Char) :
    StringUnit.decode none
        (.ofChar c :: text.map .ofChar) =
      (StringUnit.decode none (text.map .ofChar)).map (c :: ·) := by
  by_cases hCoded : isCoded c = true
  · have hSmall : c.toNat < 0x20 := by
      simp only [isCoded, Bool.and_eq_true,
        decide_eq_true_eq] at hCoded
      omega
    have hLead : StringUnit.isLead c.toNat = false := by
      simp only [StringUnit.isLead, Bool.and_eq_false_iff,
        decide_eq_false_iff_not]
      omega
    have hTrail : StringUnit.isTrail c.toNat = false := by
      simp only [StringUnit.isTrail, Bool.and_eq_false_iff,
        decide_eq_false_iff_not]
      omega
    have hUnit : StringUnit.ofChar c = .code c.toNat :=
      if_pos hCoded
    rw [hUnit]
    cases text with
    | nil =>
        simp [StringUnit.decode, hLead, hTrail,
          Char.ofNat_toNat]
    | cons d text =>
        rw [List.map_cons]
        cases StringUnit.ofChar d with
        | char value =>
            simp [StringUnit.decode, hLead, hTrail,
              Char.ofNat_toNat]
        | code value =>
            simp [StringUnit.decode, hLead, hTrail,
              Char.ofNat_toNat]
  · have hUnit : StringUnit.ofChar c = .char c :=
      if_neg hCoded
    rw [hUnit]
    rfl

theorem decode_map_ofChar
    (text : List Char) :
    StringUnit.decode none (text.map .ofChar) = .ok text := by
  induction text with
  | nil => rfl
  | cons c text ih =>
      rw [List.map_cons, decode_cons_ofChar, ih]
      rfl

/- A quoted text is read back. -/
theorem readString_flatMap_escapeChar
    (text : String)
    (rest : List Char) :
    readString (text.toList.flatMap escapeChar ++ '"' :: rest) =
      .text (some text) rest := by
  simp [readString, scan_flatMap_escapeChar, decode_map_ofChar,
    Except.toOption]

------------------------------------------------------------
-- Numbers
------------------------------------------------------------

/- A text with which no number goes on. -/
def EndsNumber
    (rest : List Char) : Prop :=
  ∀ c ∈ rest.head?,
    isDigit c = false ∧ c ≠ '.' ∧ c ≠ 'e' ∧ c ≠ 'E'

instance
    (rest : List Char) :
    Decidable (EndsNumber rest) :=
  inferInstanceAs (Decidable (∀ c ∈ rest.head?, _))

theorem endsNumber_nil :
    EndsNumber [] := by
  intro c hHead
  cases hHead

/- The blanks and marks between values end a number. -/
theorem endsNumber_cons
    {c : Char}
    {rest : List Char}
    (hChar : isBlank c = true ∨ c ∈ [',', ']', '\x7d']) :
    EndsNumber (c :: rest) := by
  intro d hHead
  cases hHead
  simp only [isBlank, Bool.or_eq_true, beq_iff_eq,
    List.mem_cons, List.not_mem_nil, or_false] at hChar
  rcases hChar with
    (((rfl | rfl) | rfl) | rfl) | rfl | rfl | rfl
  all_goals decide

namespace Number

variable {n : Nat}

/- A digit by its value. -/
theorem isDigit_digitChar
    (hDigit : n < 10) :
    isDigit n.digitChar = true ∧
      NumberText.digitValue n.digitChar = n := by
  have hAll :
      ∀ n : Fin 10, isDigit n.val.digitChar = true ∧
        NumberText.digitValue n.val.digitChar = n.val := by
    decide
  exact hAll ⟨n, hDigit⟩

theorem isDigit_of_mem_digitChars
    {c : Char}
    (hMem : c ∈ digitChars n) :
    isDigit c = true := by
  induction n using Nat.strongRecOn with
  | ind n ih =>
      unfold digitChars at ih hMem
      by_cases hSmall : n < 10
      · rw [Nat.toDigits_of_lt_base hSmall,
          List.mem_singleton] at hMem
        rw [hMem]
        exact (isDigit_digitChar hSmall).1
      · rw [Nat.toDigits_of_base_le (by decide) (by omega),
          List.mem_append, List.mem_singleton] at hMem
        rcases hMem with hRest | hLast
        · exact ih (n / 10) (by omega) hRest
        · rw [hLast]
          exact (isDigit_digitChar (Nat.mod_lt n (by decide))).1

theorem digitChars_ne_nil
    (n : Nat) :
    digitChars n ≠ [] := by
  unfold digitChars
  by_cases hSmall : n < 10
  · simp [Nat.toDigits_of_lt_base hSmall]
  · simp [Nat.toDigits_of_base_le (b := 10) (by decide)
      (Nat.le_of_not_lt hSmall)]

theorem digitChar_ne_zero
    (hPositive : 0 < n)
    (hDigit : n < 10) :
    n.digitChar ≠ '0' := by
  have hAll :
      ∀ n : Fin 10, 0 < n.val → n.val.digitChar ≠ '0' := by
    decide
  exact hAll ⟨n, hDigit⟩ hPositive

theorem head?_digitChars_ne_zero
    (hPositive : 0 < n) :
    (digitChars n).head? ≠ some '0' := by
  induction n using Nat.strongRecOn with
  | ind n ih =>
      by_cases hSmall : n < 10
      · unfold digitChars
        rw [Nat.toDigits_of_lt_base hSmall, List.head?_cons,
          ne_eq, Option.some.injEq]
        exact digitChar_ne_zero hPositive hSmall
      · have hRest := ih (n / 10) (by omega) (by omega)
        have hNonempty := digitChars_ne_nil (n / 10)
        unfold digitChars at hRest hNonempty ⊢
        rw [Nat.toDigits_of_base_le (by decide) (by omega),
          List.head?_append]
        rw [List.head?_eq_some_head hNonempty] at hRest ⊢
        exact hRest

/- Only zero is written with a zero at the start. -/
theorem not_leading_zero
    (n : Nat) :
    ¬ ((digitChars n).head? = some '0' ∧
      1 < (digitChars n).length) := by
  rintro ⟨hHead, hLength⟩
  rcases Nat.eq_zero_or_pos n with rfl | hPositive
  · exact absurd hLength (by decide)
  · exact head?_digitChars_ne_zero hPositive hHead

/- The digits of a number are taken up one after the other. -/
theorem takeDigits_append
    {value : Nat}
    {first : List Char}
    {next : Nat}
    (second : List Char)
    (hFirst :
      NumberText.takeDigits value first = (next, [])) :
    NumberText.takeDigits value (first ++ second) =
      NumberText.takeDigits next second := by
  induction first generalizing value with
  | nil =>
      cases hFirst
      rfl
  | cons c first ih =>
      rw [NumberText.takeDigits] at hFirst
      rw [List.cons_append, NumberText.takeDigits]
      split at hFirst
      · next hFits =>
          rw [if_pos hFits]
          exact ih hFirst
      · simp at hFirst

theorem takeDigits_digitChars
    (hFits : n ≤ NumberText.largest) :
    NumberText.takeDigits 0 (digitChars n) = (n, []) := by
  induction n using Nat.strongRecOn with
  | ind n ih =>
      unfold digitChars at ih ⊢
      by_cases hSmall : n < 10
      · rw [Nat.toDigits_of_lt_base hSmall]
        simp [NumberText.takeDigits,
          (isDigit_digitChar hSmall).2, hFits]
      · have hLast :=
          (isDigit_digitChar (Nat.mod_lt n (by decide))).2
        have hSum : n / 10 * 10 + n % 10 = n := by omega
        rw [Nat.toDigits_of_base_le (by decide) (by omega),
          takeDigits_append _ (ih (n / 10) (by omega) (by omega))]
        simp [NumberText.takeDigits, hLast, hSum, hFits]

end Number

------------------------------------------------------------
-- Number Texts
------------------------------------------------------------

/- Digits, at least one. -/
structure Digits
    (text : List Char) : Prop where
  nonempty : text ≠ []
  all : ∀ c ∈ text, isDigit c = true

theorem Number.digits_digitChars
    (n : Nat) :
    Digits (digitChars n) :=
  ⟨digitChars_ne_nil n, fun _ => isDigit_of_mem_digitChars⟩

namespace Digits

variable {digits rest : List Char}

theorem isEmpty_eq_false
    (hDigits : Digits digits) :
    digits.isEmpty = false :=
  List.isEmpty_eq_false_iff.mpr hDigits.nonempty

/- Digits are taken up to the first other character. -/
theorem takeWhile_append
    (hDigits : Digits digits)
    (hRest : ∀ c ∈ rest.head?, isDigit c = false) :
    (digits ++ rest).takeWhile isDigit = digits := by
  rw [List.takeWhile_append_of_pos hDigits.all]
  cases rest with
  | nil => simp
  | cons c rest => simp [hRest c rfl]

theorem dropWhile_append
    (hDigits : Digits digits)
    (hRest : ∀ c ∈ rest.head?, isDigit c = false) :
    (digits ++ rest).dropWhile isDigit = rest := by
  rw [List.dropWhile_append_of_pos hDigits.all]
  cases rest with
  | nil => rfl
  | cons c rest => simp [hRest c rfl]

theorem exists_cons
    (hDigits : Digits digits) :
    ∃ c more, digits = c :: more ∧ isDigit c = true := by
  cases digits with
  | nil => exact absurd rfl hDigits.nonempty
  | cons c more =>
      exact ⟨c, more, rfl, hDigits.all c List.mem_cons_self⟩

end Digits

namespace NumberText

/- How a fraction is written. -/
def fractionChars : Option (List Char) → List Char
  | none => []
  | some digits => '.' :: digits

/- How a power of ten is written, always with its sign. -/
def exponentChars : Option (Bool × List Char) → List Char
  | none => []
  | some (negative, digits) =>
      'e' :: (if negative then '-' else '+') :: digits

/- How the parts of a number are written. -/
def chars
    (text : NumberText) : List Char :=
  (if text.negative then ['-'] else []) ++
    (text.whole ++
      (fractionChars text.fraction ++ exponentChars text.exponent))

/- Every part has digits, and none follows a leading zero. -/
structure WellFormed
    (text : NumberText) : Prop where
  whole : Digits text.whole
  noLeadingZero :
    ¬ (text.whole.head? = some '0' ∧ 1 < text.whole.length)
  fraction : ∀ digits ∈ text.fraction, Digits digits
  exponent : ∀ power ∈ text.exponent, Digits power.2

variable {rest : List Char}

theorem scanExponent_append
    (negative : Bool)
    (whole : List Char)
    (fraction : Option (List Char))
    {exponent : Option (Bool × List Char)}
    (hExponent : ∀ power ∈ exponent, Digits power.2)
    (hRest : EndsNumber rest) :
    scanExponent negative whole fraction
        (exponentChars exponent ++ rest) =
      .number ⟨negative, whole, fraction, exponent⟩ rest := by
  cases exponent with
  | none =>
      cases rest with
      | nil => rfl
      | cons c rest =>
          rcases hRest c rfl with ⟨_, _, hSmall, hLarge⟩
          simp [exponentChars, scanExponent, hSmall, hLarge]
  | some power =>
      rcases power with ⟨below, digits⟩
      have hDigits : Digits digits := hExponent _ rfl
      have hTake :=
        hDigits.takeWhile_append fun c hMem => (hRest c hMem).1
      have hDrop :=
        hDigits.dropWhile_append fun c hMem => (hRest c hMem).1
      cases below <;> simp [exponentChars, scanExponent, hTake,
        hDrop, hDigits.nonempty]

/- What is written of a power is no digit and no point. -/
theorem head?_exponentChars_append
    (exponent : Option (Bool × List Char))
    (hRest : EndsNumber rest) :
    ∀ c ∈ (exponentChars exponent ++ rest).head?,
      isDigit c = false ∧ c ≠ '.' := by
  intro c hMem
  cases exponent with
  | none => exact ⟨(hRest c hMem).1, (hRest c hMem).2.1⟩
  | some power =>
      cases hMem
      decide

theorem scanFraction_append
    (negative : Bool)
    (whole : List Char)
    {fraction : Option (List Char)}
    {exponent : Option (Bool × List Char)}
    (hFraction : ∀ digits ∈ fraction, Digits digits)
    (hExponent : ∀ power ∈ exponent, Digits power.2)
    (hRest : EndsNumber rest) :
    scanFraction negative whole
        (fractionChars fraction ++ (exponentChars exponent ++ rest)) =
      .number ⟨negative, whole, fraction, exponent⟩ rest := by
  have hNext := head?_exponentChars_append exponent hRest
  cases fraction with
  | none =>
      rw [fractionChars, List.nil_append, scanFraction]
      · exact scanExponent_append negative whole none hExponent hRest
      · intro more hPoint
        exact (hNext '.' (by rw [hPoint]; rfl)).2 rfl
  | some digits =>
      have hDigits : Digits digits := hFraction digits rfl
      have hTake :=
        hDigits.takeWhile_append fun c hMem => (hNext c hMem).1
      have hDrop :=
        hDigits.dropWhile_append fun c hMem => (hNext c hMem).1
      rw [fractionChars, List.cons_append, scanFraction]
      simp only [hTake, hDrop, hDigits.isEmpty_eq_false,
        Bool.false_eq_true, if_false]
      exact scanExponent_append negative whole (some digits)
        hExponent hRest

/- What is written of a fraction is no digit. -/
theorem head?_fractionChars_append
    (fraction : Option (List Char))
    (exponent : Option (Bool × List Char))
    (hRest : EndsNumber rest) :
    ∀ c ∈ (fractionChars fraction ++
        (exponentChars exponent ++ rest)).head?,
      isDigit c = false := by
  intro c hMem
  cases fraction with
  | none => exact (head?_exponentChars_append exponent hRest c hMem).1
  | some digits =>
      cases hMem
      decide

/- A number is scanned part by part, up to its end. -/
theorem scan_chars_append
    {text : NumberText}
    (hText : text.WellFormed)
    (hRest : EndsNumber rest) :
    scan (text.chars ++ rest) = .number text rest := by
  rcases text with ⟨negative, whole, fraction, exponent⟩
  have hNext := head?_fractionChars_append fraction exponent hRest
  have hUnsigned :
      scanUnsigned negative
          (whole ++ (fractionChars fraction ++
            (exponentChars exponent ++ rest))) =
        .number ⟨negative, whole, fraction, exponent⟩ rest := by
    simp only [scanUnsigned, hText.whole.takeWhile_append hNext,
      hText.whole.dropWhile_append hNext,
      hText.whole.isEmpty_eq_false, hText.noLeadingZero,
      Bool.false_eq_true, if_false]
    exact scanFraction_append negative whole hText.fraction
      hText.exponent hRest
  cases negative with
  | true =>
      simpa [chars, scan] using hUnsigned
  | false =>
      rcases hText.whole.exists_cons with ⟨c, more, hWhole, hDigit⟩
      have hNotSign : c ≠ '-' := by
        rintro rfl
        exact absurd hDigit (by decide)
      cases hWhole
      rw [← hUnsigned]
      simp [chars, scan, hNotSign]

end NumberText

------------------------------------------------------------
-- Printed Numbers
------------------------------------------------------------

namespace Number

variable {digits : List Char}

/- A positive decimal with a power of ten is a number text. -/
theorem exists_withPower
    (hDigits : Digits digits)
    (exponent : Int) :
    ∃ text : NumberText, text.WellFormed ∧
      text.negative = false ∧
      withPower digits exponent = text.chars := by
  rcases hDigits.exists_cons with ⟨c, more, rfl, hDigit⟩
  have hPower := digits_digitChars exponent.natAbs
  have hWhole : Digits [c] :=
    ⟨List.cons_ne_nil c [], by simpa using hDigit⟩
  cases more with
  | nil =>
      refine ⟨⟨false, [c], none,
        some (decide (exponent < 0), digitChars exponent.natAbs)⟩,
        ⟨hWhole, by simp, by simp, by simpa using hPower⟩, rfl, ?_⟩
      simp [withPower, NumberText.chars, NumberText.fractionChars,
        NumberText.exponentChars]
  | cons d more =>
      have hFraction : Digits (d :: more) :=
        ⟨List.cons_ne_nil d more, fun e hMem =>
          hDigits.all e (List.mem_cons_of_mem c hMem)⟩
      refine ⟨⟨false, [c], some (d :: more),
        some (decide (exponent < 0), digitChars exponent.natAbs)⟩,
        ⟨hWhole, by simp, by simpa using hFraction,
          by simpa using hPower⟩, rfl, ?_⟩
      simp [withPower, NumberText.chars, NumberText.fractionChars,
        NumberText.exponentChars]

/- A positive decimal with a point among its digits is a number text. -/
theorem exists_withPoint
    (hDigits : Digits digits)
    (hFirst : digits.head? ≠ some '0')
    (whole : Nat) :
    ∃ text : NumberText, text.WellFormed ∧
      text.negative = false ∧
      withPoint digits (whole + 1) = text.chars := by
  rcases hDigits.exists_cons with ⟨c, more, rfl, hDigit⟩
  have hWhole :
      Digits ((c :: more).take (whole + 1) ++
        List.replicate (whole + 1 - (c :: more).length) '0') := by
    refine ⟨by simp, fun d hMem => ?_⟩
    rcases List.mem_append.mp hMem with hTaken | hZero
    · exact hDigits.all d (List.mem_of_mem_take hTaken)
    · rw [List.eq_of_mem_replicate hZero]
      decide
  have hFraction :
      Digits (if ((c :: more).drop (whole + 1)).isEmpty then ['0']
        else (c :: more).drop (whole + 1)) := by
    split
    · exact ⟨by simp, by simp [isDigit]⟩
    · next hMore =>
        exact ⟨by simpa using hMore, fun d hMem =>
          hDigits.all d (List.mem_of_mem_drop hMem)⟩
  refine ⟨⟨false, _, some _, none⟩,
    ⟨hWhole, fun hZero => hFirst (by simpa using hZero.1),
      by simpa using hFraction, by simp⟩, rfl, ?_⟩
  simp [withPoint, NumberText.chars, NumberText.fractionChars,
    NumberText.exponentChars]

/- A decimal below one is a number text. -/
theorem exists_belowOne
    (hDigits : Digits digits)
    (zeros : Nat) :
    ∃ text : NumberText, text.WellFormed ∧
      text.negative = false ∧
      '0' :: '.' :: List.replicate zeros '0' ++ digits =
        text.chars := by
  have hZero : Digits ['0'] := ⟨by simp, by simp [isDigit]⟩
  have hFraction : Digits (List.replicate zeros '0' ++ digits) := by
    refine ⟨by simp [hDigits.nonempty], fun c hMem => ?_⟩
    rcases List.mem_append.mp hMem with hFill | hDigit
    · rw [List.eq_of_mem_replicate hFill]
      decide
    · exact hDigits.all c hDigit
  refine ⟨⟨false, ['0'], some (List.replicate zeros '0' ++ digits),
    none⟩, ⟨hZero, by simp, by simpa using hFraction, by simp⟩,
    rfl, ?_⟩
  simp [NumberText.chars, NumberText.fractionChars,
    NumberText.exponentChars]

theorem exists_printDecimal
    (d : Decimal) :
    ∃ text : NumberText, text.WellFormed ∧
      text.negative = false ∧ printDecimal d = text.chars := by
  have hDigits := digits_digitChars d.digits
  have hZero : Digits ['0'] := ⟨by simp, by simp [isDigit]⟩
  rw [printDecimal]
  split
  · exact ⟨⟨false, ['0'], some ['0'], none⟩,
      ⟨hZero, by simp, by simpa using hZero, by simp⟩, rfl, rfl⟩
  · next hPositive =>
      have hFirst :=
        head?_digitChars_ne_zero (Nat.pos_of_ne_zero hPositive)
      split
      · exact exists_withPower hDigits _
      · split
        · exact exists_belowOne hDigits _
        · exact exists_withPoint hDigits hFirst _

/- The parts of a whole number. -/
def wholeText
    (negative : Bool)
    (n : Nat) : NumberText :=
  ⟨negative, digitChars n, none, none⟩

theorem wellFormed_wholeText
    (negative : Bool)
    (n : Nat) :
    (wholeText negative n).WellFormed :=
  ⟨digits_digitChars n, not_leading_zero n, by simp [wholeText],
    by simp [wholeText]⟩

theorem print_ofNat
    (n : Nat) :
    print (.integer (.ofNat n)) = (wholeText false n).chars := by
  simp [print, printInteger, wholeText, NumberText.chars,
    NumberText.fractionChars, NumberText.exponentChars]

theorem print_negSucc
    (n : Nat) :
    print (.integer (.negSucc n)) =
      (wholeText true (n + 1)).chars := by
  simp [print, printInteger, wholeText, NumberText.chars,
    NumberText.fractionChars, NumberText.exponentChars]

/- Every number is written as a number text. -/
theorem exists_print
    (number : Number) :
    ∃ text : NumberText, text.WellFormed ∧
      number.print = text.chars := by
  cases number with
  | integer value =>
      cases value with
      | ofNat n =>
          exact ⟨_, wellFormed_wholeText false n,
            print_ofNat n⟩
      | negSucc n =>
          exact ⟨_, wellFormed_wholeText true (n + 1),
            print_negSucc n⟩
  | double bits =>
      rcases exists_printDecimal (Binary.ofBits bits).shortest with
        ⟨text, hText, hPositive, hPrint⟩
      refine ⟨⟨decide (bits >>> 63 = 1), text.whole, text.fraction,
        text.exponent⟩, ⟨hText.whole, hText.noLeadingZero,
          hText.fraction, hText.exponent⟩, ?_⟩
      simp [print, printDouble, hPrint, NumberText.chars, hPositive]

/- What the text of a number is read as, if it is not too large. -/
def asRead
    (number : Number) : Option Number :=
  match NumberText.scan number.print with
  | .number text _ => text.value?
  | .broken _ _ => none

theorem asRead_eq
    {number : Number}
    {text : NumberText}
    (hText : text.WellFormed)
    (hPrint : number.print = text.chars) :
    number.asRead = text.value? := by
  have hScan := NumberText.scan_chars_append hText endsNumber_nil
  rw [List.append_nil] at hScan
  rw [asRead, hPrint, hScan]

/- The text of a number is read up to its end. -/
theorem readNumber_print_append
    (number : Number)
    {rest : List Char}
    (hRest : EndsNumber rest) :
    Document.readNumber (number.print ++ rest) =
      (.number number.asRead, some rest) := by
  rcases number.exists_print with ⟨text, hText, hPrint⟩
  rw [asRead_eq hText hPrint, hPrint, Document.readNumber,
    NumberText.scan_chars_append hText hRest]

/-
  A number whose text is exact: a whole number that fits into
  64 bits, with a sign if it is negative.
-/
def IsExact : Number → Prop
  | integer value =>
      -(Nat.pow 2 63 : Nat) ≤ value ∧
        value ≤ (NumberText.largest : Nat)
  | double _ => False

/- The text of an exact number is read back. -/
theorem IsExact.asRead_eq_some
    {number : Number}
    (hExact : number.IsExact) :
    number.asRead = some number := by
  cases number with
  | double bits => exact hExact.elim
  | integer value =>
      rcases hExact with ⟨hLow, hHigh⟩
      cases value with
      | ofNat n =>
          have hFits : n ≤ NumberText.largest :=
            Int.ofNat_le.mp hHigh
          rw [asRead_eq (wellFormed_wholeText false n)
            (print_ofNat n)]
          simp [NumberText.value?, wholeText,
            takeDigits_digitChars hFits]
      | negSucc n =>
          have hSmall : n + 1 ≤ Nat.pow 2 63 := by omega
          have hFits : n + 1 ≤ NumberText.largest :=
            Nat.le_trans hSmall (by decide)
          rw [asRead_eq (wellFormed_wholeText true (n + 1))
            (print_negSucc n)]
          simp [NumberText.value?, wholeText,
            takeDigits_digitChars hFits, hSmall, Int.negSucc_eq]

end Number

end Json

end Nullary
