import Nullary.Proofs.Token.Layout

/-
  How much of a text a literal takes: something, and no more
  than is there.

  Main declarations:
    * `Literal.number_bounds`
    * `Literal.length_bounds`
-/

namespace Nullary

theorem orElse_eq_some_iff
    {α : Type}
    {first second : Option α}
    {value : α} :
    (first <|> second) = some value ↔
      first = some value ∨ first = none ∧ second = some value := by
  cases first <;> simp

theorem identifierLength_le
    {text : List Char}
    {length : Nat}
    (hLength : identifierLength text = some length) :
    length ≤ text.length := by
  unfold identifierLength at hLength
  split at hLength
  · cases hLength
  · next c others =>
      split at hLength <;> cases hLength
      have hTake :=
        (List.takeWhile_prefix (l := others)
          isIdentifierContinue).length_le
      rw [List.length_cons]
      omega

namespace Literal

variable {text : List Char}
variable {length : Nat}

/- What is counted on from what follows it. -/
theorem bounds_of_map
    {inner : Option Nat}
    {count : Nat}
    (hInner : ∀ {found}, inner = some found → found ≤ text.length)
    (hLength : inner.map (· + count) = some length) :
    count ≤ length ∧ length ≤ text.length + count := by
  rcases Option.map_eq_some_iff.mp hLength with ⟨found, hFound, rfl⟩
  exact ⟨Nat.le_add_left _ _,
    Nat.add_le_add_right (hInner hFound) count⟩

------------------------------------------------------------
-- Numbers
------------------------------------------------------------

/- An exponent mark is part of the mantissa. -/
theorem mantissa_bounds
    {point dotted marked : Bool}
    (hMantissa :
      mantissa point text = some (length, dotted, marked)) :
    (marked = true → 0 < length) ∧ length ≤ text.length := by
  fun_induction mantissa point text generalizing length with
  | case1 | case3 | case6 | case7 =>
      cases hMantissa
      simp
  | case4 => cases hMantissa
  | case2 | case5 =>
      rename_i ih
      rcases Option.bind_eq_some_iff.mp hMantissa with
        ⟨⟨inner, _, _⟩, hInner, hPair⟩
      cases hPair
      exact ⟨fun _ => Nat.succ_pos inner,
        Nat.succ_le_succ (ih hInner).2⟩

theorem exponent_le
    {signed valued : Bool}
    (hExponent : exponent signed valued text = some length) :
    length ≤ text.length := by
  fun_induction exponent signed valued text generalizing length with
  | case1 | case3 | case8 =>
      cases hExponent
      exact Nat.zero_le _
  | case2 | case4 | case9 => cases hExponent
  | case5 | case6 | case7 =>
      rename_i ih
      exact (bounds_of_map ih hExponent).2

theorem floatDigits_bounds
    (hDigits : floatDigits text = some length) :
    0 < length ∧ length ≤ text.length := by
  cases text with
  | nil => cases hDigits
  | cons c text =>
      rw [List.length_cons]
      simp only [floatDigits] at hDigits
      split at hDigits
      · cases hDigits
      · rcases Option.bind_eq_some_iff.mp hDigits with
          ⟨⟨found, dotted, marked⟩, hMantissa, hDigits⟩
        rcases mantissa_bounds hMantissa with ⟨hFound, hLe⟩
        dsimp only at hDigits
        split at hDigits
        · next hMarked =>
            have hPos := hFound hMarked
            split at hDigits
            · next digits hExponent =>
                have hRest := exponent_le hExponent
                rw [List.length_drop] at hRest
                cases hDigits
                omega
            · split at hDigits <;> cases hDigits
              omega
        · split at hDigits <;> cases hDigits
          omega

/- Where there must be digits, there are some. -/
theorem digitRun_bounds
    {base : Nat}
    {empty : Bool}
    (hRun : digitRun base empty text = some length) :
    (empty = true → 0 < length) ∧ length ≤ text.length := by
  fun_induction digitRun base empty text generalizing length with
  | case1 | case3 | case6 | case8 => cases hRun
  | case2 | case7 | case9 =>
      cases hRun
      simp_all
  | case4 | case5 =>
      rename_i ih
      have hBounds :=
        bounds_of_map (fun hInner => (ih hInner).2) hRun
      exact ⟨fun _ => hBounds.1, hBounds.2⟩

theorem integerDigits_bounds
    (hDigits : integerDigits text = some length) :
    0 < length ∧ length ≤ text.length := by
  unfold integerDigits at hDigits
  split at hDigits
  case h_4 =>
    rcases digitRun_bounds hDigits with ⟨hPos, hLe⟩
    exact ⟨hPos rfl, hLe⟩
  all_goals
    have hBounds :=
      bounds_of_map (fun hInner => (digitRun_bounds hInner).2) hDigits
    simp only [List.length_cons]
    omega

theorem suffix_le
    (text : List Char) :
    suffix text ≤ text.length := by
  unfold suffix
  cases hLength : identifierLength text with
  | none => exact Nat.zero_le _
  | some length => exact identifierLength_le hLength

theorem numberWith_bounds
    {digits : Nat}
    (hDigits : 0 < digits ∧ digits ≤ text.length)
    (hNumber : numberWith text digits = some length) :
    0 < length ∧ length ≤ text.length := by
  simp only [numberWith] at hNumber
  split at hNumber <;> cases hNumber
  have hSuffix := suffix_le (text.drop digits)
  rw [List.length_drop] at hSuffix
  omega

theorem number_bounds
    (hNumber : number text = some length) :
    0 < length ∧ length ≤ text.length := by
  unfold number at hNumber
  rcases orElse_eq_some_iff.mp hNumber with
    hFloat | ⟨_, hInteger⟩
  · rcases Option.bind_eq_some_iff.mp hFloat with
      ⟨digits, hDigits, hLength⟩
    exact numberWith_bounds (floatDigits_bounds hDigits) hLength
  · rcases Option.bind_eq_some_iff.mp hInteger with
      ⟨digits, hDigits, hLength⟩
    exact numberWith_bounds (integerDigits_bounds hDigits) hLength

------------------------------------------------------------
-- Quoted Literals
------------------------------------------------------------

variable {flavour : Flavour}
variable {hashes : Nat}

/- A literal takes its closing quote, and ends in the text. -/
theorem cooked_bounds
    {state : QuoteState}
    (hCooked : cooked flavour state text = some length) :
    0 < length ∧ length ≤ text.length := by
  fun_induction cooked flavour state text generalizing length with
  | case1 => cases hCooked
  | case2 state c text =>
      have hSuffix := suffix_le text
      cases hCooked
      rw [List.length_cons]
      omega
  | case3 state c text _ ih =>
      rcases Option.bind_eq_some_iff.mp hCooked with
        ⟨next, _, hRest⟩
      rcases Option.bind_eq_some_iff.mp hRest with
        ⟨inner, hInner, hPair⟩
      cases hPair
      exact ⟨Nat.succ_pos inner,
        Nat.succ_le_succ (ih next hInner).2⟩

/- The hashes that close a raw literal stand in the text. -/
theorem hashes_le
    (hHashes :
      (text.take hashes == List.replicate hashes '#') = true) :
    hashes ≤ text.length := by
  have hLength := congrArg List.length (eq_of_beq hHashes)
  rw [List.length_take, List.length_replicate] at hLength
  omega

theorem rawBody_bounds
    (hRaw : rawBody flavour hashes text = some length) :
    0 < length ∧ length ≤ text.length := by
  fun_induction rawBody flavour hashes text generalizing length with
  | case1 | case4 => cases hRaw
  | case2 | case5 =>
      rename_i ih
      have hBounds := bounds_of_map (fun hInner => (ih hInner).2) hRaw
      simp only [List.length_cons]
      omega
  | case3 c others hReturn hCloses =>
      rw [Bool.and_eq_true] at hCloses
      have hHashes := hashes_le hCloses.2
      have hSuffix := suffix_le (others.drop hashes)
      rw [List.length_drop] at hSuffix
      cases hRaw
      rw [List.length_cons]
      omega

theorem raw_le
    (hRaw : raw flavour text = some length) :
    length ≤ text.length := by
  simp only [raw] at hRaw
  split at hRaw
  · next body hDrop =>
      have hLeft := congrArg List.length hDrop
      rw [List.length_drop, List.length_cons] at hLeft
      split at hRaw
      · cases hRaw
      · have hBounds :=
          bounds_of_map (fun hInner => (rawBody_bounds hInner).2) hRaw
        omega
  · cases hRaw

theorem string_bounds
    (hString : string text = some length) :
    0 < length ∧ length ≤ text.length := by
  unfold string at hString
  split at hString
  case h_7 => cases hString
  all_goals
    simp only [List.length_cons]
    first
    | have hBounds := bounds_of_map raw_le hString
      omega
    | have hBounds :=
        bounds_of_map (fun hInner => (cooked_bounds hInner).2) hString
      omega

theorem quotedCharacter_le
    (hQuoted : quotedCharacter flavour text = some length) :
    length ≤ text.length := by
  rcases Option.bind_eq_some_iff.mp hQuoted with
    ⟨inner, hInner, hClose⟩
  split at hClose
  · next more hDrop =>
      have hLeft := congrArg List.length hDrop
      rw [List.length_drop, List.length_cons] at hLeft
      have hSuffix := suffix_le more
      cases hClose
      omega
  · cases hClose

theorem character_bounds
    (hCharacter : character text = some length) :
    0 < length ∧ length ≤ text.length := by
  unfold character at hCharacter
  split at hCharacter
  case h_3 => cases hCharacter
  all_goals
    have hBounds := bounds_of_map quotedCharacter_le hCharacter
    simp only [List.length_cons]
    omega

theorem length_bounds
    {found : Nat}
    (hLength : Literal.length text = some found) :
    0 < found ∧ found ≤ text.length := by
  unfold Literal.length at hLength
  rcases orElse_eq_some_iff.mp hLength with hString | ⟨_, hRest⟩
  · exact string_bounds hString
  · rcases orElse_eq_some_iff.mp hRest with
      hCharacter | ⟨_, hNumber⟩
    · exact character_bounds hCharacter
    · exact number_bounds hNumber

end Literal

end Nullary
