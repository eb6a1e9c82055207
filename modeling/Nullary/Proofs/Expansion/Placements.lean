import Mathlib.Data.List.Flatten
import Nullary.Expansion.Placement

/-
  The items of a file at every depth.

  An item is addressed by a path: the first number counts
  the items of the file, and the next ones those of the
  inline modules on the way to it.  The placements of a file
  are its items in the order of their paths, each of them
  once.

  Main declarations:
    * `Item.placementAt?`
    * `Item.paths`
    * `Item.map_placementAt?_paths`
    * `Item.pairwise_paths`
    * `Item.mem_paths`
    * `Item.sibling_mem_placements`
-/

namespace Nullary

variable {p : Placement}

namespace Item

------------------------------------------------------------
-- Siblings
------------------------------------------------------------

theorem mem_placementsOf_self
    (body : List Item)
    (item : Item) :
    ⟨item, body⟩ ∈ placementsOf body item := by
  cases item with
  | module attributes content tokens =>
      cases content with
      | none => simp [placementsOf]
      | some items => simp [placementsOf]
  | _ => simp [placementsOf]

theorem mem_placementsOfAll
    (body : List Item)
    {items : List Item}
    {item : Item}
    (hMem : item ∈ items) :
    ⟨item, body⟩ ∈ placementsOfAll body items := by
  induction items with
  | nil => cases hMem
  | cons first items ih =>
      rw [placementsOfAll, List.mem_append]
      rcases List.mem_cons.mp hMem with rfl | hRest
      · exact Or.inl (mem_placementsOf_self body item)
      · exact Or.inr (ih hRest)

mutual

/-
  Whatever stands inside an item stands there with its whole
  body.
-/
theorem siblings_of_mem_placementsOf
    (body : List Item)
    (item : Item)
    (hMem : p ∈ placementsOf body item) :
    p.body = body ∨
      ∀ sibling ∈ p.body,
        ⟨sibling, p.body⟩ ∈ placementsOf body item := by
  cases item with
  | module attributes content tokens =>
      cases content with
      | none =>
          simp only [placementsOf, List.mem_singleton] at hMem
          exact Or.inl (by rw [hMem])
      | some items =>
          rw [placementsOf] at hMem ⊢
          rcases List.mem_cons.mp hMem with rfl | hInside
          · exact Or.inl rfl
          · right
            intro sibling hSibling
            apply List.mem_cons_of_mem
            rcases siblings_of_mem_placementsOfAll items items
              hInside with hBody | hAll
            · rw [hBody] at hSibling ⊢
              exact mem_placementsOfAll items hSibling
            · exact hAll sibling hSibling
  | _ =>
      simp only [placementsOf, List.mem_singleton] at hMem
      exact Or.inl (by rw [hMem])

theorem siblings_of_mem_placementsOfAll
    (body : List Item)
    (items : List Item)
    (hMem : p ∈ placementsOfAll body items) :
    p.body = body ∨
      ∀ sibling ∈ p.body,
        ⟨sibling, p.body⟩ ∈ placementsOfAll body items := by
  cases items with
  | nil => simp [placementsOfAll] at hMem
  | cons item items =>
      rw [placementsOfAll] at hMem ⊢
      rcases List.mem_append.mp hMem with hFirst | hRest
      · rcases siblings_of_mem_placementsOf body item hFirst
          with hBody | hAll
        · exact Or.inl hBody
        · exact Or.inr fun sibling hSibling =>
            List.mem_append_left _ (hAll sibling hSibling)
      · rcases siblings_of_mem_placementsOfAll body items hRest
          with hBody | hAll
        · exact Or.inl hBody
        · exact Or.inr fun sibling hSibling =>
            List.mem_append_right _ (hAll sibling hSibling)

end

/- The siblings of an item are items of the file. -/
theorem sibling_mem_placements
    {items : List Item}
    (hMem : p ∈ placements items)
    {sibling : Item}
    (hSibling : sibling ∈ p.body) :
    ⟨sibling, p.body⟩ ∈ placements items := by
  rcases siblings_of_mem_placementsOfAll items items hMem with
    hBody | hAll
  · rw [hBody] at hSibling ⊢
    exact mem_placementsOfAll items hSibling
  · exact hAll sibling hSibling

mutual

/- Whatever stands inside an item of a body is in its own body. -/
theorem mem_body_of_mem_placementsOf
    {body : List Item}
    (item : Item)
    (hItem : item ∈ body)
    (hMem : p ∈ placementsOf body item) :
    p.item ∈ p.body := by
  cases item with
  | module attributes content tokens =>
      cases content with
      | none =>
          simp only [placementsOf, List.mem_singleton] at hMem
          rw [hMem]
          exact hItem
      | some items =>
          rw [placementsOf] at hMem
          rcases List.mem_cons.mp hMem with rfl | hInside
          · exact hItem
          · exact mem_body_of_mem_placementsOfAll items
              (fun _ hInside => hInside) hInside
  | _ =>
      simp only [placementsOf, List.mem_singleton] at hMem
      rw [hMem]
      exact hItem

theorem mem_body_of_mem_placementsOfAll
    {body : List Item}
    (items : List Item)
    (hItems : ∀ item ∈ items, item ∈ body)
    (hMem : p ∈ placementsOfAll body items) :
    p.item ∈ p.body := by
  cases items with
  | nil => simp [placementsOfAll] at hMem
  | cons item items =>
      rw [placementsOfAll] at hMem
      rcases List.mem_append.mp hMem with hFirst | hRest
      · exact mem_body_of_mem_placementsOf item
          (hItems item List.mem_cons_self) hFirst
      · exact mem_body_of_mem_placementsOfAll items
          (fun other hOther =>
            hItems other (List.mem_cons_of_mem item hOther))
          hRest

end

theorem mem_body_of_mem_placements
    {items : List Item}
    {p : Placement}
    (hMem : p ∈ placements items) :
    p.item ∈ p.body :=
  mem_body_of_mem_placementsOfAll items (fun _ hItem => hItem)
    hMem

------------------------------------------------------------
-- Paths
------------------------------------------------------------

/- The item at a path, and the body that it stands in. -/
def placementAt? : List Item → List Nat → Option Placement
  | _, [] => none
  | body, [index] => body[index]?.map fun item => ⟨item, body⟩
  | body, index :: next :: path =>
      match body[index]? with
      | some item => placementAt? item.children (next :: path)
      | none => none

mutual

/- The paths from an item to itself and to what stands inside it. -/
def pathsIn : Item → List (List Nat)
  | .module _ (some items) _ => [] :: pathsFrom 0 items
  | _ => [[]]

/- The paths to items that are counted from a number on. -/
def pathsFrom
    (index : Nat) : List Item → List (List Nat)
  | [] => []
  | item :: rest =>
      (pathsIn item).map (index :: ·) ++ pathsFrom (index + 1) rest

end

/-
  The paths to all items of a body and of the inline modules
  in it.
-/
def paths
    (items : List Item) : List (List Nat) :=
  pathsFrom 0 items

/- What stands inside an item, by the path from it. -/
def insideAt?
    (body : List Item)
    (item : Item) : List Nat → Option Placement
  | [] => some ⟨item, body⟩
  | index :: path => placementAt? item.children (index :: path)

theorem placementAt?_cons
    (body : List Item)
    (index : Nat)
    (path : List Nat) :
    placementAt? body (index :: path) =
      body[index]?.bind (insideAt? body · path) := by
  cases path with
  | nil =>
      cases hItem : body[index]? with
      | none => simp [placementAt?, hItem]
      | some item => simp [placementAt?, hItem, insideAt?]
  | cons next path =>
      cases hItem : body[index]? with
      | none => simp [placementAt?, hItem]
      | some item => simp [placementAt?, hItem, insideAt?]

/- Nothing stands in an empty body. -/
theorem placementAt?_nil
    (path : List Nat) :
    placementAt? [] path = none := by
  cases path with
  | nil => rfl
  | cons index path => simp [placementAt?_cons]

/- Every path to an item has a first number, which is in range. -/
theorem exists_cons_of_mem_pathsFrom
    {index : Nat}
    {items : List Item}
    {path : List Nat}
    (hMem : path ∈ pathsFrom index items) :
    ∃ first rest, path = first :: rest ∧ index ≤ first := by
  induction items generalizing index with
  | nil => simp [pathsFrom] at hMem
  | cons item items ih =>
      rw [pathsFrom, List.mem_append] at hMem
      rcases hMem with hHere | hLater
      · rcases List.mem_map.mp hHere with ⟨rest, _, rfl⟩
        exact ⟨index, rest, rfl, Nat.le_refl index⟩
      · rcases ih hLater with ⟨first, rest, hPath, hFirst⟩
        exact ⟨first, rest, hPath, by omega⟩

mutual

/- The paths from an item lead to its placements, in their order. -/
theorem map_insideAt?_pathsIn
    (body : List Item)
    (item : Item) :
    (pathsIn item).map (insideAt? body item) =
      (placementsOf body item).map some := by
  cases item with
  | module attributes content tokens =>
      cases content with
      | none => simp [pathsIn, placementsOf, insideAt?]
      | some items =>
          rw [pathsIn, placementsOf, List.map_cons,
            List.map_cons]
          congr 1
          rw [← map_placementAt?_pathsFrom items [] items rfl]
          apply List.map_congr_left
          intro path hMem
          rcases exists_cons_of_mem_pathsFrom hMem with
            ⟨first, rest, rfl, _⟩
          rfl
  | _ => simp [pathsIn, placementsOf, insideAt?]

theorem map_placementAt?_pathsFrom
    (body : List Item)
    (before : List Item)
    (items : List Item)
    (hBody : body = before ++ items) :
    (pathsFrom before.length items).map (placementAt? body) =
      (placementsOfAll body items).map some := by
  cases items with
  | nil => simp [pathsFrom, placementsOfAll]
  | cons item items =>
      have hItem : body[before.length]? = some item := by
        simp [hBody]
      have hRest : body = (before ++ [item]) ++ items := by
        simp [hBody]
      have hLength :
          before.length + 1 = (before ++ [item]).length := by
        simp
      rw [pathsFrom, placementsOfAll, List.map_append,
        List.map_append, List.map_map, hLength,
        map_placementAt?_pathsFrom body (before ++ [item]) items
          hRest,
        ← map_insideAt?_pathsIn body item]
      congr 1
      apply List.map_congr_left
      intro path _
      simp [placementAt?_cons, hItem]

end

/- The paths of a file lead to its placements, in their order. -/
theorem map_placementAt?_paths
    (items : List Item) :
    (paths items).map (placementAt? items) =
      (placements items).map some :=
  map_placementAt?_pathsFrom items [] items rfl

mutual

/- No path is left out. -/
theorem mem_pathsIn
    (body : List Item)
    (item : Item)
    {path : List Nat}
    {p : Placement}
    (hFound : insideAt? body item path = some p) :
    path ∈ pathsIn item := by
  cases item with
  | module attributes content tokens =>
      cases content with
      | none =>
          cases path with
          | nil => simp [pathsIn]
          | cons index path =>
              cases (placementAt?_nil _).symm.trans hFound
      | some items =>
          cases path with
          | nil => simp [pathsIn]
          | cons index path =>
              rw [pathsIn]
              apply List.mem_cons_of_mem
              exact mem_pathsFrom items [] items rfl hFound
                (Nat.zero_le index)
  | _ =>
      cases path with
      | nil => simp [pathsIn]
      | cons index path =>
          cases (placementAt?_nil _).symm.trans hFound

theorem mem_pathsFrom
    (body : List Item)
    (before : List Item)
    (items : List Item)
    (hBody : body = before ++ items)
    {index : Nat}
    {path : List Nat}
    {p : Placement}
    (hFound : placementAt? body (index :: path) = some p)
    (hIndex : before.length ≤ index) :
    index :: path ∈ pathsFrom before.length items := by
  cases items with
  | nil =>
      have hNone : body[index]? = none := by
        simpa [hBody] using hIndex
      simp [placementAt?_cons, hNone] at hFound
  | cons item items =>
      rw [pathsFrom, List.mem_append]
      rcases Nat.eq_or_lt_of_le hIndex with hHere | hLater
      · left
        subst hHere
        have hItem : body[before.length]? = some item := by
          simp [hBody]
        rw [placementAt?_cons, hItem, Option.bind_some]
          at hFound
        exact List.mem_map.mpr
          ⟨path, mem_pathsIn body item hFound, rfl⟩
      · right
        have hRest : body = (before ++ [item]) ++ items := by
          simp [hBody]
        have hLength :
            before.length + 1 = (before ++ [item]).length := by
          simp
        rw [hLength]
        exact mem_pathsFrom body (before ++ [item]) items hRest
          hFound (hLength ▸ hLater)

end

theorem mem_paths
    {items : List Item}
    {path : List Nat}
    {p : Placement}
    (hFound : placementAt? items path = some p) :
    path ∈ paths items := by
  cases path with
  | nil => cases hFound
  | cons index path =>
      exact mem_pathsFrom items [] items rfl hFound
        (Nat.zero_le index)

mutual

/- An item comes before what stands inside it. -/
theorem pairwise_pathsIn
    (item : Item) :
    (pathsIn item).Pairwise (· < ·) := by
  cases item with
  | module attributes content tokens =>
      cases content with
      | none => simp [pathsIn]
      | some items =>
          rw [pathsIn, List.pairwise_cons]
          refine ⟨?_, pairwise_pathsFrom 0 items⟩
          intro path hMem
          rcases exists_cons_of_mem_pathsFrom hMem with
            ⟨first, rest, rfl, _⟩
          exact List.nil_lt_cons first rest
  | _ => simp [pathsIn]

theorem pairwise_pathsFrom
    (index : Nat)
    (items : List Item) :
    (pathsFrom index items).Pairwise (· < ·) := by
  cases items with
  | nil => simp [pathsFrom]
  | cons item items =>
      rw [pathsFrom, List.pairwise_append]
      refine ⟨?_, pairwise_pathsFrom (index + 1) items, ?_⟩
      · rw [List.pairwise_map]
        exact (pairwise_pathsIn item).imp fun hLess =>
          List.cons_lt_cons_self.mpr hLess
      · intro path hHere path' hLater
        rcases List.mem_map.mp hHere with ⟨rest, _, rfl⟩
        rcases exists_cons_of_mem_pathsFrom hLater with
          ⟨first, rest', rfl, hFirst⟩
        exact List.Lex.rel (by omega)

end

/- The paths of a file are in order, and all different. -/
theorem pairwise_paths
    (items : List Item) :
    (paths items).Pairwise (· < ·) :=
  pairwise_pathsFrom 0 items

end Item

end Nullary
