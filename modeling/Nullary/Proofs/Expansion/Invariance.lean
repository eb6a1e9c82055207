import Nullary.Proofs.Expansion.Splicing
import Nullary.Proofs.Names

/-
  What the expansion of a text does not depend on.

  A byte order mark stays before the text and changes nothing
  else, since every edit is moved by its size.  Of the names
  of markers it only matters which they are: an attribute is
  compared with all of them.  The aliases of settings may
  therefore be given in any order and more than once.

  Main declarations:
    * `Expansion.ofText_mark_cons`
    * `Expansion.ofText_transparent_mark`
    * `Expansion.ofText_congr`
    * `Settings.markerNames_as_set`
-/

namespace Nullary

------------------------------------------------------------
-- Byte Order Marks
------------------------------------------------------------

theorem dropByteOrderMark_cons
    (text : List Char) :
    dropByteOrderMark (byteOrderMark :: text) = text := by
  simp [dropByteOrderMark]

theorem dropByteOrderMark_of_head?
    {text : List Char}
    (hMark : text.head? ≠ some byteOrderMark) :
    dropByteOrderMark text = text :=
  if_neg hMark

namespace Expansion

theorem markOf_cons
    (text : List Char) :
    markOf (byteOrderMark :: text) = [byteOrderMark] := by
  simp [markOf]

theorem markOf_of_head?
    {text : List Char}
    (hMark : text.head? ≠ some byteOrderMark) :
    markOf text = [] :=
  if_neg hMark

/-
  Both texts are read as the same file, whose edits are made
  behind the mark as they are made without it.
-/
theorem ofText_mark_cons
    (names : List String)
    {text : List Char}
    (hMark : text.head? ≠ some byteOrderMark) :
    ofText names (byteOrderMark :: text) =
      (ofText names text).map withMark := by
  unfold ofText
  simp only [dropByteOrderMark_cons,
    dropByteOrderMark_of_head? hMark, markOf_cons,
    markOf_of_head? hMark, Edit.performAllAfter?_eq]
  cases SourceFile.parse? text with
  | none => rfl
  | some file =>
      dsimp only
      cases Edit.performAll? text (file.edits names text) with
      | none => rfl
      | some source => rfl

/-
  A text with a byte order mark before it has an expansion if
  the text has one, and fails for the same reason if not.  The
  mark is put before the expanded text, and the same is
  reported at the same places.
-/
theorem ofText_transparent_mark
    (names : List String)
    {text : List Char}
    (hMark : text.head? ≠ some byteOrderMark) :
    (∀ cause,
      ofText names (byteOrderMark :: text) = .error cause ↔
        ofText names text = .error cause) ∧
      ∀ e,
        ofText names text = .ok e →
          ofText names (byteOrderMark :: text) =
            .ok ⟨byteOrderMark :: e.source, e.diagnostics,
              e.expanded⟩ := by
  rw [ofText_mark_cons names hMark]
  cases ofText names text with
  | error cause =>
      refine ⟨fun other => ?_, fun e hOk => nomatch hOk⟩
      simp [Except.map]
  | ok found =>
      refine ⟨fun cause => by simp [Except.map], ?_⟩
      intro e hOk
      cases hOk
      rfl

/- One of two marked items is expanded, the other is reported. -/
theorem ofText_transparent_mark_two_items :
    ∃ e,
      "#[a] pub struct Bé;\n #[a] enum C \x7b\x7d".toList.head? ≠
          some byteOrderMark ∧
        ofText ["a"]
            "#[a] pub struct Bé;\n #[a] enum C \x7b\x7d".toList =
          .ok e ∧
        e.expanded = 1 ∧
        e.diagnostics.map (·.anchor) = [⟨2, 2⟩] ∧
        ofText ["a"] (byteOrderMark ::
            "#[a] pub struct Bé;\n #[a] enum C \x7b\x7d".toList) =
          .ok ⟨byteOrderMark :: e.source, e.diagnostics,
            e.expanded⟩ := by
  have hAny :
      (ofText ["a"]
          "#[a] pub struct Bé;\n #[a] enum C \x7b\x7d".toList).toOption.any
        (fun e => e.expanded == 1 &&
          e.diagnostics.map (·.anchor) == [⟨2, 2⟩]) = true := by
    decide +kernel
  have hMark :
      "#[a] pub struct Bé;\n #[a] enum C \x7b\x7d".toList.head? ≠
        some byteOrderMark := by
    decide
  rcases (Option.any_eq_true _ _).mp hAny with ⟨e, hFound, hTest⟩
  rw [Bool.and_eq_true, beq_iff_eq, beq_iff_eq] at hTest
  have hOk := eq_ok_of_toOption hFound
  exact ⟨e, hMark, hOk, hTest.1, hTest.2,
    (ofText_transparent_mark ["a"] hMark).2 e hOk⟩

end Expansion

------------------------------------------------------------
-- The Set of Names
------------------------------------------------------------

section SameNames

variable {names others : List String}

theorem Attribute.isMarker_congr
    (hSame : ∀ name, name ∈ names ↔ name ∈ others)
    (a : Attribute) :
    a.isMarker names = a.isMarker others := by
  have hAny :
      ∀ last : String,
        names.any (last == ·) = others.any (last == ·) := by
    intro last
    rw [Bool.eq_iff_iff]
    simp [hSame]
  unfold isMarker
  simp only [hAny]

theorem Item.markers_congr
    (hSame : ∀ name, name ∈ names ↔ name ∈ others)
    (item : Item) :
    item.markers names = item.markers others := by
  unfold markers
  exact List.filter_congr fun a _ => a.isMarker_congr hSame

/- The same items are marked, each by the same attributes. -/
theorem SourceFile.markedItems_congr
    (hSame : ∀ name, name ∈ names ↔ name ∈ others)
    (file : SourceFile) :
    file.markedItems names = file.markedItems others := by
  unfold markedItems
  apply List.filterMap_congr
  intro p _
  unfold MarkedItem.ofPlacement?
  rw [p.item.markers_congr hSame]

theorem Expansion.ofText_congr
    (hSame : ∀ name, name ∈ names ↔ name ∈ others)
    (text : List Char) :
    ofText names text = ofText others text := by
  unfold ofText SourceFile.edits SourceFile.diagnostics
    SourceFile.expanded
  simp only [SourceFile.markedItems_congr hSame]

end SameNames

------------------------------------------------------------
-- Aliases
------------------------------------------------------------

namespace Settings

variable {name : String}

/- The names of markers are the usual one and the aliases. -/
theorem mem_markerNames
    {s : Settings} :
    name ∈ s.markerNames ↔
      name = markerName ∨ name ∈ s.general.markerAliases := by
  unfold markerNames
  rw [mem_foldl_addName, List.mem_singleton]

/- Settings whose aliases are the same names, apart from the usual one. -/
def SameAliases
    (s t : Settings) : Prop :=
  ∀ name, name ≠ markerName →
    (name ∈ s.general.markerAliases ↔ name ∈ t.general.markerAliases)

theorem SameAliases.mem_markerNames_iff
    {s t : Settings}
    (hSame : s.SameAliases t)
    (name : String) :
    name ∈ s.markerNames ↔ name ∈ t.markerNames := by
  rw [mem_markerNames, mem_markerNames]
  by_cases hUsual : name = markerName
  · simp [hUsual]
  · rw [hSame name hUsual]

/-
  Settings with the same aliases give the same expansion of
  every text.  The names of markers start with the usual one,
  each stands there once, they are this one and the aliases,
  and the aliases come in the order in which they first occur.
-/
theorem markerNames_as_set
    (s : Settings) :
    (∀ t, s.SameAliases t → ∀ text,
      Expansion.ofText s.markerNames text =
        Expansion.ofText t.markerNames text) ∧
      s.markerNames.head? = some markerName ∧
      s.markerNames.Nodup ∧
      (∀ name,
        name ∈ s.markerNames ↔
          name = markerName ∨ name ∈ s.general.markerAliases) ∧
      ∀ name other,
        name ≠ markerName → other ≠ markerName →
          (s.markerNames.idxOf name < s.markerNames.idxOf other ↔
            s.general.markerAliases.idxOf name <
              s.general.markerAliases.idxOf other) := by
  refine ⟨fun t hSame => Expansion.ofText_congr hSame.mem_markerNames_iff,
    ?_, nodup_foldl_addName (List.nodup_singleton _),
    fun name => mem_markerNames, ?_⟩
  · rcases prefix_foldl_addName [markerName]
        s.general.markerAliases with
      ⟨rest, hNames⟩
    rw [markerNames, ← hNames]
    rfl
  · intro name other hName hOther
    exact idxOf_foldl_addName_lt_iff (by simpa using hName)
      (by simpa using hOther)

/- Aliases in another order, with repetitions and the usual name. -/
theorem markerNames_as_set_repeated :
    ∃ s t : Settings,
      s.general.markerAliases = ["ctor", markerName, "make", "ctor"] ∧
        t.general.markerAliases = ["make", "ctor"] ∧
        s.SameAliases t ∧
        s.markerNames ≠ t.markerNames ∧
        (∀ text,
          Expansion.ofText s.markerNames text =
            Expansion.ofText t.markerNames text) ∧
        (s.markerNames.idxOf "ctor" < s.markerNames.idxOf "make" ↔
          s.general.markerAliases.idxOf "ctor" <
            s.general.markerAliases.idxOf "make") := by
  have hSame :
      SameAliases
        ⟨⟨["ctor", markerName, "make", "ctor"]⟩, .default⟩
        ⟨⟨["make", "ctor"]⟩, .default⟩ := by
    intro name hUsual
    simp only [List.mem_cons, hUsual, List.not_mem_nil, or_false,
      false_or]
    tauto
  have hNames := markerNames_as_set
    ⟨⟨["ctor", markerName, "make", "ctor"]⟩, .default⟩
  exact ⟨_, _, rfl, rfl, hSame, by decide, hNames.1 _ hSame,
    hNames.2.2.2.2 "ctor" "make" (by decide) (by decide)⟩

end Settings

end Nullary
