import Nullary.Text.Quoted

/-
  A literal can be read back, so no two texts are written as
  the same literal.

  Main declarations:
    * `Quoted.ofHex_hex`
    * `Quoted.read?_escape_append`
    * `Quoted.escapeAll_inj`
    * `Quoted.literal_inj`
-/

namespace Nullary

namespace Quoted

variable {n : Nat}

------------------------------------------------------------
-- Numbers
------------------------------------------------------------

/- The value of a hexadecimal digit. -/
def hexValue
    (c : Char) : Nat :=
  if c.isDigit then c.toNat - '0'.toNat
  else c.toNat - 'a'.toNat + 10

/- The number that digits stand for. -/
def ofHex
    (digits : List Char) : Nat :=
  digits.foldl (fun n c => 16 * n + hexValue c) 0

theorem hexValue_digitChar
    (hDigit : n < 16) :
    hexValue n.digitChar = n := by
  have hAll : ∀ n : Fin 16, hexValue n.val.digitChar = n.val := by
    decide
  exact hAll ⟨n, hDigit⟩

theorem digitChar_ne_brace
    (hDigit : n < 16) :
    n.digitChar ≠ '\x7d' := by
  have hAll : ∀ n : Fin 16, n.val.digitChar ≠ '\x7d' := by
    decide
  exact hAll ⟨n, hDigit⟩

/- A number is read back from its digits. -/
theorem ofHex_hex
    (n : Nat) :
    ofHex (hex n) = n := by
  induction n using Nat.strongRecOn with
  | ind n ih =>
      unfold hex at ih ⊢
      by_cases hSmall : n < 16
      · rw [Nat.toDigits_of_lt_base hSmall]
        simp [ofHex, hexValue_digitChar hSmall]
      · have hRest := ih (n / 16) (by omega)
        rw [Nat.toDigits_of_base_le (by decide) (by omega)]
        unfold ofHex at hRest ⊢
        rw [List.foldl_append, hRest]
        have hLast :=
          hexValue_digitChar
            (Nat.mod_lt n (by decide : 16 > 0))
        simp only [List.foldl_cons, List.foldl_nil, hLast]
        omega

/- No digit is the brace that ends a number. -/
theorem ne_brace_of_mem_hex
    {c : Char}
    (hMem : c ∈ hex n) :
    c ≠ '\x7d' := by
  induction n using Nat.strongRecOn with
  | ind n ih =>
      unfold hex at ih hMem
      by_cases hSmall : n < 16
      · rw [Nat.toDigits_of_lt_base hSmall,
          List.mem_singleton] at hMem
        rw [hMem]
        exact digitChar_ne_brace hSmall
      · rw [Nat.toDigits_of_base_le (by decide) (by omega),
          List.mem_append, List.mem_singleton] at hMem
        rcases hMem with hRest | hLast
        · exact ih (n / 16) (by omega) hRest
        · rw [hLast]
          exact digitChar_ne_brace (Nat.mod_lt n (by decide))

------------------------------------------------------------
-- Characters
------------------------------------------------------------

/- Read a character after a backslash. -/
def readMarked? : List Char → Option (Char × List Char)
  | [] => none
  | c :: rest =>
      if c = 'x' then some (Char.ofNat 0, rest.drop 2)
      else if c = '0' then some (Char.ofNat 0, rest)
      else if c = 't' then some ('\t', rest)
      else if c = 'r' then some ('\r', rest)
      else if c = 'n' then some ('\n', rest)
      else if c = 'u' then
        let digits := rest.tail.takeWhile (· ≠ '\x7d')
        some (Char.ofNat (ofHex digits),
          (rest.tail.drop digits.length).tail)
      else some (c, rest)

/- Read the written form of a character. -/
def read? : List Char → Option (Char × List Char)
  | [] => none
  | c :: rest =>
      if c = '\\' then readMarked? rest else some (c, rest)

/- A number between braces is read back. -/
theorem readMarked?_number
    (n : Nat)
    (rest : List Char) :
    readMarked? ('u' :: '\x7b' :: (hex n ++ '\x7d' :: rest)) =
      some (Char.ofNat n, rest) := by
  have hDigits :
      (hex n ++ '\x7d' :: rest).takeWhile (· ≠ '\x7d') =
        hex n := by
    rw [List.takeWhile_append_of_pos]
    · simp
    · intro c hMem
      simpa using ne_brace_of_mem_hex hMem
  simp only [readMarked?, List.tail_cons, hDigits, ofHex_hex,
    List.drop_left]
  rfl

/- The written form of a character is read back. -/
theorem read?_escape_append
    (c : Char)
    (next : Option Char)
    (rest : List Char) :
    read? (escape c next ++ rest) = some (c, rest) := by
  unfold escape
  split
  · next hNull =>
      have hChar : c = Char.ofNat 0 := by
        rw [← hNull, Char.ofNat_toNat]
      subst hChar
      split
      · split <;> rfl
      · rfl
  · split
    · next hTab =>
        subst hTab
        rfl
    · split
      · next hReturn =>
          subst hReturn
          rfl
      · split
        · next hFeed =>
            subst hFeed
            rfl
        · split
          · next hMark =>
              rcases hMark with rfl | rfl
              · rfl
              · rfl
          · next hPlain =>
              split
              · have hNumber := readMarked?_number c.toNat rest
                rw [Char.ofNat_toNat] at hNumber
                simpa [read?] using hNumber
              · rw [List.singleton_append, read?,
                  if_neg (fun hMark => hPlain (Or.inl hMark))]

------------------------------------------------------------
-- Texts
------------------------------------------------------------

/- No character is written as nothing. -/
theorem escapeAll_cons_ne_nil
    (c : Char)
    (text : List Char) :
    escapeAll (c :: text) ≠ [] := by
  intro hEmpty
  have hRead :=
    read?_escape_append c text.head? (escapeAll text)
  rw [escapeAll] at hEmpty
  rw [hEmpty] at hRead
  cases hRead

/- Texts that are written alike are the same. -/
theorem escapeAll_inj
    {first second : List Char} :
    escapeAll first = escapeAll second ↔ first = second := by
  constructor
  · intro hSame
    induction first generalizing second with
    | nil =>
        cases second with
        | nil => rfl
        | cons c second =>
            exact absurd hSame.symm
              (escapeAll_cons_ne_nil c second)
    | cons c first ih =>
        cases second with
        | nil =>
            exact absurd hSame (escapeAll_cons_ne_nil c first)
        | cons d second =>
            have hRead := congrArg read? hSame
            rw [escapeAll, escapeAll, read?_escape_append,
              read?_escape_append, Option.some.injEq,
              Prod.mk.injEq] at hRead
            rw [hRead.1, ih hRead.2]
  · rintro rfl
    rfl

theorem literal_inj
    {first second : List Char} :
    literal first = literal second ↔ first = second := by
  unfold literal
  rw [List.cons_append, List.cons_append, List.cons.injEq,
    List.append_left_inj, escapeAll_inj]
  simp

end Quoted

end Nullary
