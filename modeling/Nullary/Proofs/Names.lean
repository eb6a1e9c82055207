import Mathlib.Data.List.Induction
import Mathlib.Data.List.Nodup
import Nullary.Declaration.Modifiers
import Nullary.Settings.Basic

/-
  Lists to which names are added one after the other, each of
  them once: the qualifiers of a declaration and the names of
  the markers.

  `FirstOccurrences` says what comes to the names that were
  there.  These may hold repetitions, which are kept.

  Main declarations:
    * `FirstOccurrences`
    * `Settings.exists_firstOccurrences`
    * `Settings.idxOf_foldl_addName_lt_iff`
    * `Modifiers.insertAll_adds_firstOccurrences`
-/

namespace Nullary

------------------------------------------------------------
-- First Occurrences
------------------------------------------------------------

/-
  The given names that were not known, in the order in which
  they first occur.  The order is strict, so that each of them
  is there once.
-/
structure FirstOccurrences
    (known given added : List String) : Prop where
  mem_iff : ∀ name, name ∈ added ↔ name ∈ given ∧ name ∉ known
  ordered :
    added.Pairwise fun name other =>
      given.idxOf name < given.idxOf other

namespace FirstOccurrences

variable {known given added : List String}
variable {name other : String}

theorem nodup
    (hFirst : FirstOccurrences known given added) :
    added.Nodup := by
  apply hFirst.ordered.imp
  rintro name _ hOrder rfl
  exact absurd hOrder (Nat.lt_irrefl _)

/- Names that are given later do not change the order. -/
theorem ordered_append
    (hFirst : FirstOccurrences known given added)
    (more : List String) :
    added.Pairwise fun name other =>
      (given ++ more).idxOf name < (given ++ more).idxOf other := by
  apply hFirst.ordered.imp_of_mem
  intro name other hName hOther hOrder
  rwa [List.idxOf_append_of_mem ((hFirst.mem_iff name).mp hName).1,
    List.idxOf_append_of_mem ((hFirst.mem_iff other).mp hOther).1]

/- A name that is there already adds nothing. -/
theorem again
    (hFirst : FirstOccurrences known given added)
    (hMem : name ∈ known ++ added) :
    FirstOccurrences known (given ++ [name]) added where
  mem_iff other := by
    rw [hFirst.mem_iff, List.mem_append, List.mem_singleton]
    constructor
    · rintro ⟨hGiven, hKnown⟩
      exact ⟨Or.inl hGiven, hKnown⟩
    · rintro ⟨hGiven | rfl, hKnown⟩
      · exact ⟨hGiven, hKnown⟩
      · rcases List.mem_append.mp hMem with hThere | hThere
        · exact absurd hThere hKnown
        · exact (hFirst.mem_iff other).mp hThere
  ordered := hFirst.ordered_append [name]

/- A new name is added at the end. -/
theorem new
    (hFirst : FirstOccurrences known given added)
    (hMem : name ∉ known ++ added) :
    FirstOccurrences known (given ++ [name]) (added ++ [name]) := by
  rw [List.mem_append, not_or] at hMem
  rcases hMem with ⟨hKnown, hAdded⟩
  have hGiven : name ∉ given := fun hThere =>
    hAdded ((hFirst.mem_iff name).mpr ⟨hThere, hKnown⟩)
  constructor
  · intro other
    rw [List.mem_append, List.mem_append, hFirst.mem_iff,
      List.mem_singleton]
    constructor
    · rintro (⟨hThere, hNew⟩ | rfl)
      · exact ⟨Or.inl hThere, hNew⟩
      · exact ⟨Or.inr rfl, hKnown⟩
    · rintro ⟨hThere | rfl, hNew⟩
      · exact Or.inl ⟨hThere, hNew⟩
      · exact Or.inr rfl
  · refine List.pairwise_append.mpr
      ⟨hFirst.ordered_append [name], List.pairwise_singleton _ _, ?_⟩
    intro other hOther last hLast
    cases List.mem_singleton.mp hLast
    have hThere := ((hFirst.mem_iff other).mp hOther).1
    rw [List.idxOf_append_of_mem hThere,
      List.idxOf_append_of_notMem hGiven]
    exact Nat.lt_add_right _ (List.idxOf_lt_length_of_mem hThere)

/- The place among the names added goes by the first occurrence. -/
theorem idxOf_lt_of_idxOf_lt
    (hFirst : FirstOccurrences known given added)
    (hOther : other ∈ added)
    (hOrder : added.idxOf name < added.idxOf other) :
    given.idxOf name < given.idxOf other := by
  have hBound := List.idxOf_lt_length_of_mem hOther
  have hPair :=
    List.pairwise_iff_getElem.mp hFirst.ordered _ _
      (Nat.lt_trans hOrder hBound) hBound hOrder
  rwa [List.getElem_idxOf, List.getElem_idxOf] at hPair

theorem idxOf_lt_iff
    (hFirst : FirstOccurrences known given added)
    (hName : name ∉ known)
    (hOther : other ∉ known) :
    added.idxOf name < added.idxOf other ↔
      given.idxOf name < given.idxOf other := by
  have hMem : ∀ one, one ∉ known → (one ∈ added ↔ one ∈ given) := by
    intro one hNew
    simp [hFirst.mem_iff, hNew]
  by_cases hThere : other ∈ added
  · refine ⟨hFirst.idxOf_lt_of_idxOf_lt hThere, fun hOrder => ?_⟩
    by_contra hNot
    rcases Nat.lt_or_eq_of_le (Nat.le_of_not_lt hNot) with
      hBack | hSame
    · -- `name` occurs, since it does so before `other`.
      have hGiven : name ∈ given :=
        List.idxOf_lt_length_iff.mp
          (Nat.lt_trans hOrder (List.idxOf_lt_length_of_mem
            ((hMem other hOther).mp hThere)))
      have hAgain :=
        hFirst.idxOf_lt_of_idxOf_lt ((hMem name hName).mpr hGiven)
          hBack
      omega
    · rw [(List.idxOf_inj hThere).mp hSame] at hOrder
      exact absurd hOrder (Nat.lt_irrefl _)
  · rw [List.idxOf_eq_length hThere, List.idxOf_eq_length
        (mt (hMem other hOther).mpr hThere),
      List.idxOf_lt_length_iff, List.idxOf_lt_length_iff,
      hMem name hName]

end FirstOccurrences

------------------------------------------------------------
-- Names Added in Turn
------------------------------------------------------------

namespace Settings

variable {names aliases : List String}
variable {name other : String}

theorem addName_of_mem
    (hMem : name ∈ names) :
    addName names name = names := by
  simp [addName, hMem]

theorem addName_of_not_mem
    (hMem : name ∉ names) :
    addName names name = names ++ [name] := by
  simp [addName, hMem]

/-
  Names that are added in turn come after those that were
  there, and they are the first occurrences of new names.
-/
theorem exists_firstOccurrences
    (names aliases : List String) :
    ∃ added,
      aliases.foldl addName names = names ++ added ∧
        FirstOccurrences names aliases added := by
  -- What was added so far is known from the names given so far.
  induction aliases using List.reverseRecOn with
  | nil => exact ⟨[], by simp, by simp, List.Pairwise.nil⟩
  | append_singleton aliases name ih =>
      rcases ih with ⟨added, hNames, hFirst⟩
      rw [List.foldl_append, hNames, List.foldl_cons, List.foldl_nil]
      by_cases hMem : name ∈ names ++ added
      · exact ⟨added, addName_of_mem hMem, hFirst.again hMem⟩
      · refine ⟨added ++ [name], ?_, hFirst.new hMem⟩
        rw [addName_of_not_mem hMem, List.append_assoc]

theorem mem_foldl_addName :
    name ∈ aliases.foldl addName names ↔
      name ∈ names ∨ name ∈ aliases := by
  rcases exists_firstOccurrences names aliases with
    ⟨added, hNames, hFirst⟩
  rw [hNames, List.mem_append, hFirst.mem_iff]
  tauto

theorem nodup_foldl_addName
    (hNodup : names.Nodup) :
    (aliases.foldl addName names).Nodup := by
  rcases exists_firstOccurrences names aliases with
    ⟨added, hNames, hFirst⟩
  rw [hNames]
  apply hNodup.append hFirst.nodup
  intro name hThere hAdded
  exact ((hFirst.mem_iff name).mp hAdded).2 hThere

/- Names are only added at the end. -/
theorem prefix_foldl_addName
    (names aliases : List String) :
    names <+: aliases.foldl addName names := by
  rcases exists_firstOccurrences names aliases with
    ⟨added, hNames, _⟩
  exact ⟨added, hNames.symm⟩

/- Names that are all there already change nothing. -/
theorem foldl_addName_eq_self
    (hThere : ∀ name ∈ aliases, name ∈ names) :
    aliases.foldl addName names = names := by
  rcases exists_firstOccurrences names aliases with
    ⟨added, hNames, hFirst⟩
  have hNone : added = [] := by
    apply List.eq_nil_iff_forall_not_mem.mpr
    intro name hAdded
    rcases (hFirst.mem_iff name).mp hAdded with ⟨hGiven, hNew⟩
    exact hNew (hThere name hGiven)
  rw [hNames, hNone, List.append_nil]

/- New names keep the order in which they first occur. -/
theorem idxOf_foldl_addName_lt_iff
    (hName : name ∉ names)
    (hOther : other ∉ names) :
    (aliases.foldl addName names).idxOf name <
        (aliases.foldl addName names).idxOf other ↔
      aliases.idxOf name < aliases.idxOf other := by
  rcases exists_firstOccurrences names aliases with
    ⟨added, hNames, hFirst⟩
  rw [hNames, List.idxOf_append_of_notMem hName,
    List.idxOf_append_of_notMem hOther, Nat.add_lt_add_iff_left,
    hFirst.idxOf_lt_iff hName hOther]

end Settings

------------------------------------------------------------
-- Qualifiers
------------------------------------------------------------

namespace Modifiers

theorem contains_eq_true_iff
    {m : Modifiers}
    {token : String} :
    m.contains token = true ↔ token ∈ m.tokens := by
  simp [contains]

/- Qualifiers are added as names of markers are. -/
theorem tokens_insert
    (m : Modifiers)
    (token : String) :
    (m.insert token).tokens = Settings.addName m.tokens token := by
  unfold insert
  by_cases hMem : token ∈ m.tokens
  · rw [if_pos (contains_eq_true_iff.mpr hMem),
      Settings.addName_of_mem hMem]
  · rw [if_neg (mt contains_eq_true_iff.mp hMem),
      Settings.addName_of_not_mem hMem]

theorem tokens_insertAll
    (m : Modifiers)
    (tokens : List String) :
    (m.insertAll tokens).tokens =
      tokens.foldl Settings.addName m.tokens := by
  induction tokens generalizing m with
  | nil => rfl
  | cons token tokens ih =>
      have hRest := ih (m.insert token)
      rwa [tokens_insert] at hRest

theorem contains_insertAll
    {m : Modifiers}
    {tokens : List String}
    {token : String} :
    (m.insertAll tokens).contains token = true ↔
      m.contains token = true ∨ token ∈ tokens := by
  rw [contains_eq_true_iff, contains_eq_true_iff, tokens_insertAll,
    Settings.mem_foldl_addName]

/-
  Tokens that are inserted into qualifiers, whether or not
  these hold repetitions, leave them where they are and add
  the first occurrences of the other tokens.
-/
theorem insertAll_adds_firstOccurrences
    (m : Modifiers)
    (tokens : List String) :
    (∃ added,
      (m.insertAll tokens).tokens = m.tokens ++ added ∧
        FirstOccurrences m.tokens tokens added ∧ added.Nodup) ∧
      (∀ token,
        (m.insertAll tokens).contains token = true ↔
          m.contains token = true ∨ token ∈ tokens) ∧
      ((m.insertAll tokens).isPublic = true ↔
        m.isPublic = true ∨ publicToken ∈ tokens) ∧
      (ofTokens tokens).tokens.Nodup ∧
      (m.insertAll tokens).insertAll tokens = m.insertAll tokens := by
  refine ⟨?_, fun token => contains_insertAll, contains_insertAll,
    ?_, ?_⟩
  · rcases Settings.exists_firstOccurrences m.tokens tokens with
      ⟨added, hTokens, hFirst⟩
    exact ⟨added, by rw [tokens_insertAll, hTokens], hFirst,
      hFirst.nodup⟩
  · rw [ofTokens, tokens_insertAll]
    exact Settings.nodup_foldl_addName List.nodup_nil
  · have hTokens :
        ((m.insertAll tokens).insertAll tokens).tokens =
          (m.insertAll tokens).tokens := by
      rw [tokens_insertAll]
      apply Settings.foldl_addName_eq_self
      intro token hMem
      exact contains_eq_true_iff.mp
        (contains_insertAll.mpr (Or.inr hMem))
    exact congrArg Modifiers.mk hTokens

example :
    (Modifiers.mk ["final", "final"]).insertAll
        ["public", "final", "crate", "public"] =
      ⟨["final", "final", "public", "crate"]⟩ := by
  decide

end Modifiers

end Nullary
