import Nullary.Proofs.Expansion.Splicing

/-
  How many functions named `new` a type has after its file is
  expanded.

  A name that is written raw, as in `r#new`, is the name
  without the mark.  The expansion compares names as they are
  written, and decides about each marked record by itself.
  So it adds a second `new` where the first one, or the type
  that it belongs to, is written in the other way, and where
  two marked records of one body share their name.

  Main declarations:
    * `plainName`
    * `Item.news`
    * `Item.expandBody`
    * `Item.Doubles`
    * `SourceFile.news_expandBody_iff`
-/

namespace Nullary

------------------------------------------------------------
-- Names
------------------------------------------------------------

/- A name without the mark of a raw one. -/
def plainName
    (name : String) : String :=
  match name.toList with
  | 'r' :: '#' :: rest => String.ofList rest
  | _ => name

theorem plainName_constructorName :
    plainName Member.constructorName = Member.constructorName := by
  decide

------------------------------------------------------------
-- Functions Named `new`
------------------------------------------------------------

/- A function whose name is that of the constructor. -/
def ImplMember.isPlainNew : ImplMember → Bool
  | function _ signature =>
      plainName signature.name == Member.constructorName
  | other => false

namespace Item

/- The members of an inherent implementation of the named type. -/
def plainMembers
    (name : String) : Item → List ImplMember
  | impl item =>
      if item.ofTrait = false ∧
          item.self.name?.map plainName = some name then
        item.members
      else
        []
  | _ => []

/-
  The number of functions named `new` in the inherent
  implementations of a type in a body.
-/
def news
    (body : List Item)
    (name : String) : Nat :=
  (body.flatMap (plainMembers name)).countP
    ImplMember.isPlainNew

theorem news_append
    (first second : List Item)
    (name : String) :
    news (first ++ second) name =
      news first name + news second name := by
  unfold news
  rw [List.flatMap_append, List.countP_append]

theorem news_pos_iff
    {body : List Item}
    {name : String} :
    0 < news body name ↔
      ∃ implementation, Item.impl implementation ∈ body ∧
        implementation.ofTrait = false ∧
        implementation.self.name?.map plainName = some name ∧
        ∃ member ∈ implementation.members,
          member.isPlainNew = true := by
  unfold news
  rw [List.countP_pos_iff]
  constructor
  · rintro ⟨member, hMember, hNew⟩
    rcases List.mem_flatMap.mp hMember with
      ⟨item, hItem, hMember⟩
    cases item with
    | impl implementation =>
        simp only [plainMembers] at hMember
        split at hMember
        · next hInherent =>
            exact ⟨implementation, hItem, hInherent.1,
              hInherent.2, member, hMember, hNew⟩
        · cases hMember
    | _ => cases hMember
  · rintro ⟨implementation, hItem, hTrait, hName, member,
      hMember, hNew⟩
    refine ⟨member, List.mem_flatMap.mpr ⟨_, hItem, ?_⟩, hNew⟩
    simp only [plainMembers]
    rw [if_pos ⟨hTrait, hName⟩]
    exact hMember

end Item

------------------------------------------------------------
-- Generated Implementations
------------------------------------------------------------

/- The implementation that is generated for a record. -/
def StructItem.generatedImpl
    (record : StructItem) : ImplItem where
  attributes := []
  unsafety := false
  ofTrait := false
  self := .path ⟨false, [⟨record.name, .none⟩], [record.nameToken]⟩
  members :=
    [.function
      ⟨.everywhere,
        Fragment.publicInitializer.visibilityTokens⟩
      ⟨Member.constructorName, [],
        some (.path ⟨false, [⟨"Self", .none⟩], []⟩),
        Fragment.publicInitializer.functionTokens record.fields⟩]
  tokens := Fragment.publicInitializer.tokensFor record

namespace Item

/-
  The record that an item of a body is, if it is given a
  constructor.
-/
def grantee?
    (names : List String)
    (body : List Item)
    (item : Item) : Option StructItem :=
  (MarkedItem.ofPlacement? names ⟨item, body⟩).bind
    MarkedItem.grantee?

/- The records of a body that are given a constructor. -/
def granted
    (names : List String)
    (body : List Item) : List StructItem :=
  body.filterMap (grantee? names body)

/- A body with the implementations that are generated for it. -/
def expandBody
    (names : List String)
    (body : List Item) : List Item :=
  body ++ (granted names body).map fun record =>
    .impl record.generatedImpl

/-
  Each record of a name that is given a constructor adds one
  function.
-/
theorem news_expandBody
    (names : List String)
    (body : List Item)
    (name : String) :
    news (expandBody names body) name =
      news body name +
        (granted names body).countP
          fun record => plainName record.name == name := by
  unfold expandBody
  rw [news_append]
  congr 1
  induction granted names body with
  | nil => rfl
  | cons record records ih =>
      rw [List.map_cons, ← List.singleton_append, news_append,
        ih, List.countP_cons, Nat.add_comm]
      congr 1
      by_cases hName : plainName record.name = name
      · simp [news, plainMembers, StructItem.generatedImpl,
          Ty.name?, Path.lastName?, hName,
          ImplMember.isPlainNew, plainName_constructorName]
      · simp [news, plainMembers, StructItem.generatedImpl,
          Ty.name?, Path.lastName?, hName]

end Item

------------------------------------------------------------
-- Records That Are Given a Constructor
------------------------------------------------------------

namespace Item

variable {names : List String}
variable {body : List Item}
variable {record : StructItem}

/-
  A record has a marker, and nothing can be said against a
  constructor.
-/
def Grants
    (names : List String)
    (body : List Item)
    (record : StructItem) : Prop :=
  (∃ a ∈ record.attributes, a.isMarker names = true) ∧
    (struct record).objection? body = none

/- It is a marked item that nothing can be said against. -/
theorem grants_iff :
    Grants names body record ↔
      ∃ m, MarkedItem.ofPlacement? names
          ⟨struct record, body⟩ = some m ∧
        m.objection? = none := by
  constructor
  · rintro ⟨hAttribute, hNone⟩
    have hExists :
        ∃ m, MarkedItem.ofPlacement? names
          ⟨struct record, body⟩ = some m :=
      MarkedItem.exists_ofPlacement?_iff.mpr hAttribute
    rcases hExists with ⟨m, hMarked⟩
    exact ⟨m, hMarked,
      (MarkedItem.objection?_of_ofPlacement? hMarked).trans hNone⟩
  · rintro ⟨m, hMarked, hNone⟩
    exact ⟨MarkedItem.exists_ofPlacement?_iff.mp ⟨m, hMarked⟩,
      (MarkedItem.objection?_of_ofPlacement? hMarked).symm.trans
        hNone⟩

theorem grantee?_eq_some_iff
    {item : Item} :
    grantee? names body item = some record ↔
      item = struct record ∧ Grants names body record := by
  unfold grantee?
  rw [Option.bind_eq_some_iff, grants_iff]
  constructor
  · rintro ⟨m, hMarked, hGrantee⟩
    rcases MarkedItem.grantee?_eq_some_iff.mp hGrantee with
      ⟨hRecord, hNone⟩
    have hStruct : item = struct record :=
      (MarkedItem.ofPlacement?_eq_some_iff.mp
        hMarked).1.symm.trans hRecord
    subst hStruct
    exact ⟨rfl, m, hMarked, hNone⟩
  · rintro ⟨rfl, m, hMarked, hNone⟩
    have hItem : m.item = struct record :=
      (MarkedItem.ofPlacement?_eq_some_iff.mp hMarked).1
    exact ⟨m, hMarked,
      MarkedItem.grantee?_eq_some_iff.mpr ⟨hItem, hNone⟩⟩

theorem mem_granted_iff :
    record ∈ granted names body ↔
      struct record ∈ body ∧ Grants names body record := by
  unfold granted
  simp only [List.mem_filterMap, grantee?_eq_some_iff]
  constructor
  · rintro ⟨_, hMem, rfl, hGrants⟩
    exact ⟨hMem, hGrants⟩
  · rintro ⟨hMem, hGrants⟩
    exact ⟨_, hMem, rfl, hGrants⟩

/- Two records at different places of a body are both listed. -/
theorem sublist_granted_iff
    {first second : StructItem} :
    [first, second].Sublist (granted names body) ↔
      [struct first, struct second].Sublist body ∧
        Grants names body first ∧ Grants names body second := by
  unfold granted
  constructor
  · intro hSublist
    rcases List.sublist_filterMap_iff.mp hSublist with
      ⟨items, hItems, hMap⟩
    rcases List.filterMap_eq_cons_iff.mp hMap.symm with
      ⟨before, item, rest, rfl, _, hItem, hRest⟩
    rcases List.filterMap_eq_cons_iff.mp hRest with
      ⟨between, item', after, rfl, _, hItem', _⟩
    rcases grantee?_eq_some_iff.mp hItem with
      ⟨rfl, hFirst⟩
    rcases grantee?_eq_some_iff.mp hItem' with
      ⟨rfl, hSecond⟩
    refine ⟨?_, hFirst, hSecond⟩
    apply List.Sublist.trans _ hItems
    apply List.Sublist.trans _ (List.sublist_append_right _ _)
    apply List.Sublist.cons_cons
    apply List.Sublist.trans _ (List.sublist_append_right _ _)
    exact List.singleton_sublist.mpr List.mem_cons_self
  · rintro ⟨hSublist, hFirst, hSecond⟩
    have hBoth := hSublist.filterMap (grantee? names body)
    rwa [List.filterMap_cons_some
        (grantee?_eq_some_iff.mpr ⟨rfl, hFirst⟩),
      List.filterMap_cons_some
        (grantee?_eq_some_iff.mpr ⟨rfl, hSecond⟩),
      List.filterMap_nil] at hBoth

------------------------------------------------------------
-- Duplicates
------------------------------------------------------------

/-
  A function named `new` of a record that does not look like
  one: it, or the type that it belongs to, is written in
  another way.
-/
def HiddenNew
    (body : List Item)
    (record : StructItem) : Prop :=
  ∃ implementation, Item.impl implementation ∈ body ∧
    implementation.ofTrait = false ∧
    implementation.self.name?.map plainName =
      some (plainName record.name) ∧
    ∃ visibility signature,
      ImplMember.function visibility signature ∈
        implementation.members ∧
      plainName signature.name = Member.constructorName ∧
      (implementation.self.name? ≠ some record.name ∨
        signature.name ≠ Member.constructorName)

/-
  A name for which a body is given a second `new`: two of its
  records are given one, or a record that has a hidden one.
-/
inductive Doubles
    (names : List String)
    (body : List Item)
    (name : String) : Prop where
  | variants
      {first second : StructItem}
      (hPlaces : [struct first, struct second].Sublist body)
      (hFirst : Grants names body first)
      (hSecond : Grants names body second)
      (hName : plainName first.name = name)
      (hName' : plainName second.name = name)
  | hidden
      {record : StructItem}
      (hMem : struct record ∈ body)
      (hGrants : Grants names body record)
      (hName : plainName record.name = name)
      (hHidden : HiddenNew body record)

/-
  Two elements of a list are counted if both are at
  different places.
-/
theorem one_lt_countP_iff
    {α : Type}
    {test : α → Bool}
    {items : List α} :
    1 < items.countP test ↔
      ∃ first second, [first, second].Sublist items ∧
        test first = true ∧ test second = true := by
  rw [List.countP_eq_length_filter]
  constructor
  · intro hLength
    match hFilter : items.filter test, hLength with
    | first :: second :: rest, _ =>
        have hBoth : [first, second].Sublist (items.filter test) := by
          rw [hFilter]
          exact (List.nil_sublist rest).cons_cons second
            |>.cons_cons first
        have hTest :
            ∀ item ∈ [first, second], test item = true :=
          fun item hMem =>
            (List.mem_filter.mp (hBoth.subset hMem)).2
        exact ⟨first, second,
          hBoth.trans List.filter_sublist,
          hTest first (by simp), hTest second (by simp)⟩
  · rintro ⟨first, second, hSublist, hFirst, hSecond⟩
    have hBoth := (hSublist.filter test).length_le
    rw [List.filter_cons_of_pos hFirst,
      List.filter_cons_of_pos hSecond] at hBoth
    exact hBoth

/- What is not seen of a record has to be hidden. -/
theorem hiddenNew_iff
    (hGrants : Grants names body record) :
    HiddenNew body record ↔
      0 < news body (plainName record.name) := by
  rw [news_pos_iff]
  constructor
  · rintro ⟨implementation, hItem, hTrait, hName, visibility,
      signature, hMember, hNew, _⟩
    refine ⟨implementation, hItem, hTrait, hName, _, hMember, ?_⟩
    simpa [ImplMember.isPlainNew] using hNew
  · rintro ⟨implementation, hItem, hTrait, hName, member,
      hMember, hNew⟩
    cases member with
    | other => cases hNew
    | function visibility signature =>
        refine ⟨implementation, hItem, hTrait, hName, visibility,
          signature, hMember, ?_, ?_⟩
        · simpa [ImplMember.isPlainNew] using hNew
        · by_contra hShown
          rw [not_or, not_not, not_not] at hShown
          have hNone := objection?_struct_eq_none_iff.mp hGrants.2
          exact hNone.2.2 ⟨implementation, hItem, hTrait,
            hShown.1, _, hMember, hShown.2⟩

theorem doubles_iff
    {name : String} :
    Doubles names body name ↔
      1 < (granted names body).countP
          (fun record => plainName record.name == name) ∨
        0 < (granted names body).countP
            (fun record => plainName record.name == name) ∧
          0 < news body name := by
  constructor
  · intro hDoubles
    cases hDoubles with
    | variants hPlaces hFirst hSecond hName hName' =>
        left
        exact one_lt_countP_iff.mpr ⟨_, _,
          sublist_granted_iff.mpr ⟨hPlaces, hFirst, hSecond⟩,
          by simpa using hName, by simpa using hName'⟩
    | hidden hMem hGrants hName hHidden =>
        right
        subst hName
        exact ⟨List.countP_pos_iff.mpr ⟨_,
          mem_granted_iff.mpr ⟨hMem, hGrants⟩, by simp⟩,
          (hiddenNew_iff hGrants).mp hHidden⟩
  · rintro (hTwo | ⟨hOne, hNews⟩)
    · rcases one_lt_countP_iff.mp hTwo with
        ⟨first, second, hSublist, hName, hName'⟩
      rcases sublist_granted_iff.mp hSublist with
        ⟨hPlaces, hFirst, hSecond⟩
      exact .variants hPlaces hFirst hSecond
        (by simpa using hName) (by simpa using hName')
    · rcases List.countP_pos_iff.mp hOne with
        ⟨record, hRecord, hName⟩
      rcases mem_granted_iff.mp hRecord with ⟨hMem, hGrants⟩
      rw [beq_iff_eq] at hName
      subst hName
      exact .hidden hMem hGrants rfl
        ((hiddenNew_iff hGrants).mpr hNews)

end Item

------------------------------------------------------------
-- The Records of a File
------------------------------------------------------------

namespace SourceFile

/- The records of a body are those that an insertion is made for. -/
theorem mem_granted_iff_insertion
    (names : List String)
    (text : List Char)
    {file : SourceFile}
    {p : Placement}
    (hPlace : p ∈ Item.placements file.items)
    (record : StructItem) :
    record ∈ Item.granted names p.body ↔
      ∃ m ∈ file.markedItems names,
        m.body = p.body ∧ m.item = .struct record ∧
          m.insertion? text =
            some (record.insertion p.body text
              [.publicInitializer]) := by
  rw [Item.mem_granted_iff, Item.grants_iff]
  constructor
  · rintro ⟨hMem, m, hMarked, hNone⟩
    have hSibling := Item.sibling_mem_placements hPlace hMem
    rcases MarkedItem.ofPlacement?_eq_some_iff.mp hMarked with
      ⟨hItem, hBody, _⟩
    refine ⟨m, List.mem_filterMap.mpr ⟨_, hSibling, hMarked⟩,
      hBody, hItem,
      MarkedItem.insertion?_eq_some_iff.mpr
        ⟨record, hItem, hNone, ?_⟩⟩
    rw [hBody]
  · rintro ⟨m, hM, hBody, hItem, hInsertion⟩
    rcases MarkedItem.insertion?_eq_some_iff.mp hInsertion with
      ⟨_, _, hNone, _⟩
    have hMem :=
      Item.mem_body_of_mem_placements
        (mem_markedItems_iff.mp hM).1
    have hMarked := ofPlacement?_of_mem hM
    rw [hItem, hBody] at hMem hMarked
    exact ⟨hMem, m, hMarked, hNone⟩

/- Both are there when the expanded text is read again. -/
example :
    ((Expansion.ofText ["a"]
        ("#[a] pub struct B; " ++
          "impl B \x7b fn r#new() \x7b\x7d \x7d").toList).toOption.bind
      fun e => parse? e.source).map
        (fun file => Item.news file.items "B") =
      some 2 := by
  decide +kernel

end SourceFile

end Nullary
