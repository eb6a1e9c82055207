import Nullary.Proofs.Expansion.Placements
import Nullary.Proofs.Grammar.Extents

/-
  Where the items of a parsed file stand in its text.

  The items of a body stand one after the other, and those of
  a module inside its braces.  Of two items neither of which
  encloses the other, one stops before the other starts.

  Main declarations:
    * `Item.Spread`
    * `Item.SpreadAll`
    * `Item.spread_iff`
    * `Grammar.occupies_level`
    * `SourceFile.spreadAll_items`
    * `Item.SpreadAll.apart`
-/

namespace Nullary

open SourceText Nullary.Parser Nullary.Tokens

variable {items : List Item}

------------------------------------------------------------
-- Complete Trees in a Text
------------------------------------------------------------

namespace TokenTree

/-
  What starts an item is no rest of a comment and does not end
  the item.
-/
theorem of_startsItem
    {tree : TokenTree}
    (hTree : tree.startsItem = true) :
    Comment.isContinuation tree = false ∧ tree.endsItem = false := by
  cases tree with
  | mark c joint span =>
      simp only [startsItem, Bool.or_eq_true, beq_iff_eq] at hTree
      rcases hTree with rfl | rfl
      · exact ⟨rfl, rfl⟩
      · exact ⟨rfl, rfl⟩
  | group => cases hTree
  | _ => exact ⟨rfl, rfl⟩

end TokenTree

namespace Remain

variable {low high : Nat}

/- The tree that starts an item takes some room. -/
theorem of_startsItem
    {tree : TokenTree}
    {rest : Tokens}
    (hTree : tree.startsItem = true)
    (hRemain : Remain text low high (tree :: rest)) :
    ∃ start next, low ≤ start ∧ start < next ∧
      tree.span.start = positionAt text start ∧
      Remain text next high rest := by
  have hFirst := (TokenTree.of_startsItem hTree).1
  cases hRemain.laid hFirst with
  | word hLow hOrder hRest =>
      exact ⟨_, _, hLow, hOrder, rfl, hRest.remain⟩
  | literal => cases hTree
  | mark hLow hChar hRest =>
      exact ⟨_, _, hLow, Nat.lt_succ_self _, rfl, hRest.remain⟩
  | group => cases hTree
  | @doc _ start stop _ inner content _ rest' hLow hDoc hTrees
      hRest =>
      rcases Comment.docTokens_eq_cons inner content
        (spanAt text start stop) with ⟨tail, hCons, hTail⟩
      rw [hCons, List.cons_append] at hTrees
      cases hTrees
      exact ⟨start, stop, hLow, hDoc.start_lt_stop, rfl, tail, rest',
        rfl, hTail, hRest⟩

/- The tree that ends an item is the last one of it. -/
theorem of_endsItem
    {tree : TokenTree}
    {rest : Tokens}
    (hTree : tree.endsItem = true)
    (hRemain : Remain text low high (tree :: rest)) :
    ∃ stop, low < stop ∧ tree.span.stop = positionAt text stop ∧
      Remain text stop high rest ∧
      ∀ content span, tree = .group .brace content span →
        ∃ inside outside, low ≤ inside ∧ outside < stop ∧
          Laid text inside outside content := by
  cases tree with
  | mark c joint span =>
      rw [TokenTree.endsItem, beq_iff_eq] at hTree
      subst hTree
      rcases (hRemain.laid rfl).of_mark (by decide) with
        ⟨start, hLow, rfl, _, hRest⟩
      refine ⟨start + 1, by omega, rfl, hRest.remain, ?_⟩
      rintro _ _ ⟨⟩
  | group delimiter content span =>
      rw [TokenTree.endsItem, beq_iff_eq] at hTree
      subst hTree
      rcases (hRemain.laid rfl).of_group with
        ⟨start, stop, hLow, rfl, hContent, _, hRest⟩
      have hInside := hContent.low_le_high
      refine ⟨stop + 1, by omega, rfl, hRest.remain, ?_⟩
      rintro _ _ ⟨⟩
      exact ⟨start + 1, stop, by omega, Nat.lt_succ_self stop,
        hContent⟩
  | _ => cases hTree

/- The trees of an item stand between two offsets. -/
theorem of_complete
    {used rest : Tokens}
    (hComplete : Grammar.Complete used)
    (hRemain : Remain text low high (used ++ rest)) :
    ∃ start stop, low ≤ start ∧ start + 1 < stop ∧
      Tokens.span used = spanAt text start stop ∧
      Remain text stop high rest ∧
      ∀ content span,
        used.getLast? = some (.group .brace content span) →
        ∃ inside outside, start ≤ inside ∧ outside ≤ stop ∧
          Laid text inside outside content := by
  rcases hComplete.head with ⟨first, more, rfl, hFirst⟩
  rcases hComplete.last with ⟨last, hLast, hEnds⟩
  rcases hRemain.of_startsItem hFirst with
    ⟨start, next, hLow, hNext, hStart, hMore⟩
  have hTail : more.getLast? = some last := by
    cases more with
    | nil =>
        rw [List.getLast?_singleton] at hLast
        cases hLast
        rw [(TokenTree.of_startsItem hFirst).2] at hEnds
        cases hEnds
    | cons second more => rwa [List.getLast?_cons_cons] at hLast
  rcases List.getLast?_eq_some_iff.mp hTail with ⟨front, rfl⟩
  have hSuffix : last :: rest <:+ front ++ [last] ++ rest :=
    ⟨front, by simp⟩
  rcases hMore.of_suffix hSuffix with ⟨middle, hMiddle, hEnd⟩
  rcases hEnd.of_endsItem hEnds with
    ⟨stop, hStop, hStopAt, hRest, hContent⟩
  refine ⟨start, stop, hLow, by omega, ?_, hRest, ?_⟩
  · unfold Tokens.span
    rw [hLast]
    simp only [List.head?_cons, Span.join, hStart, hStopAt, spanAt]
  · intro content span hGroup
    rw [hLast] at hGroup
    rcases hContent content span (Option.some.inj hGroup) with
      ⟨inside, outside, hInside, hOutside, hLaid⟩
    exact ⟨inside, outside, by omega, by omega, hLaid⟩

end Remain

------------------------------------------------------------
-- Items in a Text
------------------------------------------------------------

namespace Item

mutual

/-
  An item stands between two offsets of a text, and the items
  inside it stand between them.
-/
def Spread
    (text : List Char)
    (start stop : Nat) : Item → Prop
  | .module _ (some items) tokens =>
      Tokens.span tokens = spanAt text start stop ∧
        start + 1 < stop ∧
        ∃ low high, start ≤ low ∧ high ≤ stop ∧
          SpreadAll text low high items
  | item => item.span = spanAt text start stop ∧ start + 1 < stop

/- Items stand one after the other between two offsets. -/
def SpreadAll
    (text : List Char)
    (low high : Nat) : List Item → Prop
  | [] => low ≤ high
  | item :: rest =>
      ∃ start stop, low ≤ start ∧ Spread text start stop item ∧
        SpreadAll text stop high rest

end

variable {text : List Char}

theorem spread_iff
    {start stop : Nat}
    {item : Item} :
    item.Spread text start stop ↔
      item.span = spanAt text start stop ∧ start + 1 < stop ∧
        ∃ low high, start ≤ low ∧ high ≤ stop ∧
          SpreadAll text low high item.children := by
  have hNone :
      item.children = [] →
        ((item.span = spanAt text start stop ∧ start + 1 < stop) ↔
          item.span = spanAt text start stop ∧ start + 1 < stop ∧
            ∃ low high, start ≤ low ∧ high ≤ stop ∧
              SpreadAll text low high item.children) := by
    intro hChildren
    rw [hChildren]
    constructor
    · rintro ⟨hSpan, hOrder⟩
      refine ⟨hSpan, hOrder, start, stop, Nat.le_refl start,
        Nat.le_refl stop, ?_⟩
      rw [SpreadAll]
      omega
    · rintro ⟨hSpan, hOrder, _⟩
      exact ⟨hSpan, hOrder⟩
  cases item with
  | module attributes content tokens =>
      cases content with
      | none => simpa only [Spread] using hNone rfl
      | some items =>
          rw [Spread]
          rfl
  | _ => simpa only [Spread] using hNone rfl

theorem SpreadAll.low_le_high
    {low high : Nat}
    (hItems : SpreadAll text low high items) :
    low ≤ high := by
  induction items generalizing low with
  | nil => rwa [SpreadAll] at hItems
  | cons item items ih =>
      rw [SpreadAll] at hItems
      rcases hItems with ⟨start, stop, hLow, hItem, hRest⟩
      have hOrder := (spread_iff.mp hItem).2.1
      have hHigh := ih hRest
      omega

/- Items may be given more room before and after them. -/
theorem SpreadAll.of_le
    {low low' high high' : Nat}
    (hItems : SpreadAll text low high items)
    (hLow : low' ≤ low)
    (hHigh : high ≤ high') :
    SpreadAll text low' high' items := by
  induction items generalizing low low' with
  | nil =>
      rw [SpreadAll] at hItems ⊢
      omega
  | cons item items ih =>
      rw [SpreadAll] at hItems ⊢
      rcases hItems with ⟨start, stop, hStart, hItem, hRest⟩
      exact ⟨start, stop, by omega, hItem,
        ih hRest (Nat.le_refl stop)⟩

theorem SpreadAll.snoc
    {low middle start stop : Nat}
    {item : Item}
    (hItems : SpreadAll text low middle items)
    (hOrder : middle ≤ start)
    (hItem : item.Spread text start stop) :
    SpreadAll text low stop (items ++ [item]) := by
  induction items generalizing low with
  | nil =>
      rw [SpreadAll] at hItems
      rw [List.nil_append, SpreadAll]
      exact ⟨start, stop, by omega, hItem, by rw [SpreadAll]⟩
  | cons first items ih =>
      rw [SpreadAll] at hItems
      rw [List.cons_append, SpreadAll]
      rcases hItems with ⟨start', stop', hLow, hFirst, hRest⟩
      exact ⟨start', stop', hLow, hFirst, ih hRest⟩

end Item

------------------------------------------------------------
-- Parsed Items
------------------------------------------------------------

/- Trees make up an item wherever they stand. -/
def Item.Occupies
    (text : List Char)
    (item : Item)
    (taken : Tokens) : Prop :=
  ∀ (low high : Nat) (rest : Tokens),
    Remain text low high (taken ++ rest) →
    ∃ start stop, low ≤ start ∧ item.Spread text start stop ∧
      Remain text stop high rest

/- Trees make up items wherever they stand. -/
def Item.OccupyAll
    (text : List Char)
    (items : List Item)
    (taken : Tokens) : Prop :=
  ∀ (low high : Nat) (rest : Tokens),
    Remain text low high (taken ++ rest) →
    ∃ middle, Item.SpreadAll text low middle items ∧
      Remain text middle high rest

namespace Grammar

variable {text : List Char}
variable {g : Grammar}

/- A grammar whose items occupy the trees that are taken for them. -/
structure Spreading
    (text : List Char)
    (g : Grammar) : Prop where
  fields : g.FieldsFinish
  item : Takes [] g.item fun item taken => item.Occupies text taken

theorem occupyAll_items
    (hSpreading : Spreading text g) :
    Takes [] (manyToEnd g.item) (Item.OccupyAll text) := by
  refine .many ?_ ?_
  · intro low high rest hRemain
    exact ⟨low, by rw [Item.SpreadAll], hRemain⟩
  · intro items used hItems taken item rest hRun low high after hRemain
    have hItem := hSpreading.item taken item rest hRun
    rw [List.append_assoc] at hRemain
    rcases hItems low high (taken ++ after) hRemain with
      ⟨middle, hAll, hLeft⟩
    rcases hItem middle high after hLeft with
      ⟨start, stop, hStart, hSpread, hRest⟩
    exact ⟨stop, hAll.snoc hStart hSpread, hRest⟩

theorem occupyAll_moduleContent
    (hSpreading : Spreading text g) :
    Takes [] g.moduleContent fun found taken =>
      Item.OccupyAll text found.2 taken := by
  unfold moduleContent
  refine .skip_bind fun inner before => ?_
  refine .bind (.of_nil (occupyAll_items hSpreading)) ?_
  rintro items _ ⟨taken, rfl, hItems⟩
  refine .pure ?_
  intro low high rest hRemain
  rw [List.nil_append, List.append_assoc] at hRemain
  rcases hRemain.of_suffix (List.suffix_append before _) with
    ⟨low', hLow, hLeft⟩
  rcases hItems low' high rest hLeft with ⟨middle, hAll, hRest⟩
  exact ⟨middle, hAll.of_le hLow (Nat.le_refl middle), hRest⟩

/- An item occupies the trees that it was read from. -/
theorem occupies_of_reads
    (hSpreading : Spreading text g)
    {taken : Tokens}
    {item : Item}
    (hReads : g.Reads taken item) :
    item.Occupies text taken := by
  intro low high rest hRemain
  rcases hRemain.of_complete hReads.complete with
    ⟨start, stop, hLow, hOrder, hSpan, hRest, hContent⟩
  have hInside :
      ∃ low high, start ≤ low ∧ high ≤ stop ∧
        Item.SpreadAll text low high item.children := by
    rcases hReads.inside with hNone | ⟨content, span, inner, hLast, hRun⟩
    · refine ⟨start, stop, Nat.le_refl start, Nat.le_refl stop, ?_⟩
      rw [hNone, Item.SpreadAll]
      omega
    · rcases hContent content span hLast with
        ⟨inside, outside, hInside, hOutside, hLaid⟩
      rw [← List.append_nil content] at hRun
      have hAll :=
        occupyAll_moduleContent hSpreading content _ [] hRun
      have hRemain : Remain text inside outside (content ++ []) := by
        rw [List.append_nil]
        exact hLaid.remain
      rcases hAll inside outside [] hRemain with
        ⟨middle, hChildren, hNothing⟩
      have hMiddle := hNothing.low_le_high
      exact ⟨inside, middle, hInside, by omega, hChildren⟩
  refine ⟨start, stop, hLow, Item.spread_iff.mpr ⟨?_, hOrder, hInside⟩,
    hRest⟩
  rw [hReads.span, hSpan]

theorem spreading_level
    (text : List Char)
    (depth : Nat) :
    Spreading text (level depth) := by
  induction depth with
  | zero =>
      refine ⟨?_, ?_⟩
      · intro taken found rest hRun
        cases hRun
      · intro taken item rest hRun
        cases hRun
  | succ depth ih =>
      refine ⟨(level depth).finishes_namedFields, ?_⟩
      intro taken item rest hRun
      exact occupies_of_reads ih
        (takes_itemWith ih.fields taken item rest hRun)

end Grammar

namespace SourceFile

/- A file is read as the content of a module is. -/
theorem run_moduleContent_of_parse?
    {trees : Tokens}
    {file : SourceFile}
    (hFile : trees.parse? Grammar.sourceFile = some file) :
    ∃ inner,
      (Grammar.forTokens trees).moduleContent.run trees =
        some ((inner, file.items), []) := by
  rcases run_bind_eq_some (run_of_parse? hFile) with
    ⟨inner, left, hInner, hTail⟩
  rcases run_bind_eq_some hTail with ⟨items, _, hItems, hPure⟩
  cases hPure
  exact ⟨inner, run_bind_of_run hInner (run_bind_of_run hItems rfl)⟩

/-
  The items of a file stand one after the other in its text.
  A byte order mark before the text counts for nothing.
-/
theorem spreadAll_items
    {text : List Char}
    {file : SourceFile}
    (hParse : parse? text = some file) :
    Item.SpreadAll (dropByteOrderMark text) 0
      (dropByteOrderMark text).length file.items := by
  rcases Option.bind_eq_some_iff.mp hParse with
    ⟨trees, hTrees, hFile⟩
  have hLaid := Laid.of_dropInterpreterLine hTrees
  rcases run_moduleContent_of_parse? hFile with ⟨inner, hContent⟩
  rw [← List.append_nil trees] at hContent
  have hAll :=
    Grammar.occupyAll_moduleContent
      (Grammar.spreading_level (dropByteOrderMark text) _)
      trees _ [] hContent
  have hRemain := hLaid.remain
  rw [← List.append_nil trees] at hRemain
  rcases hAll 0 _ [] hRemain with ⟨middle, hSpread, hNothing⟩
  exact hSpread.of_le (Nat.le_refl 0) hNothing.low_le_high

end SourceFile

------------------------------------------------------------
-- Items by Their Paths
------------------------------------------------------------

/- The path of an item leads through what encloses it. -/
def PathThrough
    (outer path : List Nat) : Prop :=
  ∃ index rest, path = outer ++ index :: rest

theorem PathThrough.cons
    {outer path : List Nat}
    (hThrough : PathThrough outer path)
    (index : Nat) :
    PathThrough (index :: outer) (index :: path) := by
  rcases hThrough with ⟨next, rest, rfl⟩
  exact ⟨next, rest, rfl⟩

namespace Item

variable {text : List Char}
variable {low high : Nat}
variable {items : List Item}
variable {item : Item}

theorem SpreadAll.of_getElem?
    (hItems : SpreadAll text low high items)
    {index : Nat}
    (hItem : items[index]? = some item) :
    ∃ start stop, low ≤ start ∧ stop ≤ high ∧
      item.Spread text start stop := by
  induction items generalizing low index with
  | nil => cases hItem
  | cons first items ih =>
      rw [SpreadAll] at hItems
      rcases hItems with ⟨start, stop, hLow, hFirst, hRest⟩
      cases index with
      | zero =>
          cases hItem
          exact ⟨start, stop, hLow, hRest.low_le_high, hFirst⟩
      | succ index =>
          have hOrder := (spread_iff.mp hFirst).2.1
          rcases ih hRest hItem with
            ⟨start', stop', hStart, hStop, hSpread⟩
          exact ⟨start', stop', by omega, hStop, hSpread⟩

/- Of two items of a body the first stops before the second starts. -/
theorem SpreadAll.of_lt
    (hItems : SpreadAll text low high items)
    {index index' : Nat}
    (hOrder : index < index')
    {item item' : Item}
    (hItem : items[index]? = some item)
    (hItem' : items[index']? = some item') :
    ∃ start stop start' stop',
      item.Spread text start stop ∧ item'.Spread text start' stop' ∧
        stop ≤ start' ∧ stop' ≤ high := by
  induction items generalizing low index index' with
  | nil => cases hItem
  | cons first items ih =>
      rw [SpreadAll] at hItems
      rcases hItems with ⟨start, stop, hLow, hFirst, hRest⟩
      cases index' with
      | zero => omega
      | succ index' =>
          cases index with
          | zero =>
              cases hItem
              rcases hRest.of_getElem? hItem' with
                ⟨start', stop', hStart, hStop, hSpread⟩
              exact ⟨start, stop, start', stop', hFirst, hSpread,
                hStart, hStop⟩
          | succ index =>
              exact ih hRest (by omega) hItem hItem'

/- Whatever stands inside an item stands between its ends. -/
theorem SpreadAll.of_placementAt?
    (hItems : SpreadAll text low high items)
    {path : List Nat}
    {p : Placement}
    (hAt : placementAt? items path = some p) :
    ∃ start stop, low ≤ start ∧ stop ≤ high ∧
      p.item.Spread text start stop := by
  induction path generalizing items low high with
  | nil => cases hAt
  | cons index path ih =>
      rw [placementAt?_cons] at hAt
      rcases Option.bind_eq_some_iff.mp hAt with ⟨item, hItem, hInside⟩
      rcases hItems.of_getElem? hItem with
        ⟨start, stop, hLow, hHigh, hSpread⟩
      cases path with
      | nil =>
          cases hInside
          exact ⟨start, stop, hLow, hHigh, hSpread⟩
      | cons next path =>
          rcases (spread_iff.mp hSpread).2.2 with
            ⟨low', high', hLow', hHigh', hChildren⟩
          rcases ih hChildren hInside with
            ⟨start', stop', hStart, hStop, hFound⟩
          exact ⟨start', stop', by omega, by omega, hFound⟩

/- An item has one place only. -/
theorem Spread.unique
    {start stop start' stop' : Nat}
    (hSpread : item.Spread text start stop)
    (hStop : stop ≤ text.length)
    (hSpread' : item.Spread text start' stop')
    (hStop' : stop' ≤ text.length) :
    start = start' ∧ stop = stop' := by
  rcases spread_iff.mp hSpread with ⟨hSpan, hOrder, _⟩
  rcases spread_iff.mp hSpread' with ⟨hSpan', hOrder', _⟩
  rw [hSpan] at hSpan'
  have hStarts := congrArg (offset text ·.start) hSpan'
  have hStops := congrArg (offset text ·.stop) hSpan'
  simp only [spanAt] at hStarts hStops
  rw [offset_positionAt (by omega), offset_positionAt (by omega)]
    at hStarts
  rw [offset_positionAt hStop, offset_positionAt hStop'] at hStops
  exact ⟨hStarts, hStops⟩

theorem Spread.of_insideAt?
    {start stop : Nat}
    (hSpread : item.Spread text start stop)
    {body : List Item}
    {path : List Nat}
    {p : Placement}
    (hInside : insideAt? body item path = some p) :
    ∃ start' stop', start ≤ start' ∧ stop' ≤ stop ∧
      p.item.Spread text start' stop' := by
  cases path with
  | nil =>
      cases hInside
      exact ⟨start, stop, Nat.le_refl start, Nat.le_refl stop, hSpread⟩
  | cons index path =>
      rcases (spread_iff.mp hSpread).2.2 with
        ⟨low, high, hLow, hHigh, hChildren⟩
      rcases hChildren.of_placementAt? hInside with
        ⟨start', stop', hStart, hStop, hFound⟩
      exact ⟨start', stop', by omega, by omega, hFound⟩

/-
  An item that does not enclose another one starts after it
  or stops before it does.
-/
theorem SpreadAll.apart
    (hItems : SpreadAll text low high items)
    {path path' : List Nat}
    {p p' : Placement}
    (hAt : placementAt? items path = some p)
    (hAt' : placementAt? items path' = some p')
    (hOutside : ¬ PathThrough path' path) :
    ∃ start stop start' stop',
      p.item.Spread text start stop ∧ p'.item.Spread text start' stop' ∧
        stop ≤ high ∧ stop' ≤ high ∧
        (stop ≤ start' ∨ stop' ≤ stop) := by
  induction path generalizing items low high path' with
  | nil => cases hAt
  | cons index path ih =>
      cases path' with
      | nil => cases hAt'
      | cons index' path' =>
          rw [placementAt?_cons] at hAt hAt'
          rcases Option.bind_eq_some_iff.mp hAt with
            ⟨item, hItem, hInside⟩
          rcases Option.bind_eq_some_iff.mp hAt' with
            ⟨item', hItem', hInside'⟩
          rcases Nat.lt_trichotomy index index' with
            hBefore | rfl | hAfter
          · rcases hItems.of_lt hBefore hItem hItem' with
              ⟨start, stop, start', stop', hSpread, hSpread', hOrder,
                hHigh⟩
            rcases hSpread.of_insideAt? hInside with
              ⟨first, last, _, hLast, hFound⟩
            rcases hSpread'.of_insideAt? hInside' with
              ⟨first', last', hFirst', hLast', hFound'⟩
            have hSize := (spread_iff.mp hSpread').2.1
            exact ⟨first, last, first', last', hFound, hFound',
              by omega, by omega, Or.inl (by omega)⟩
          · rw [hItem] at hItem'
            cases hItem'
            rcases hItems.of_getElem? hItem with
              ⟨start, stop, _, hHigh, hSpread⟩
            cases path with
            | nil =>
                cases hInside
                rcases hSpread.of_insideAt? hInside' with
                  ⟨first', last', _, hLast', hFound'⟩
                exact ⟨start, stop, first', last', hSpread, hFound',
                  hHigh, by omega, Or.inr hLast'⟩
            | cons next path =>
                cases path' with
                | nil => exact absurd ⟨next, path, rfl⟩ hOutside
                | cons next' path' =>
                    rcases (spread_iff.mp hSpread).2.2 with
                      ⟨low', high', _, hHigh', hChildren⟩
                    rcases ih hChildren hInside hInside'
                        (fun hThrough =>
                          hOutside (hThrough.cons index)) with
                      ⟨first, last, first', last', hFound, hFound',
                        hLast, hLast', hApart⟩
                    exact ⟨first, last, first', last', hFound, hFound',
                      by omega, by omega, hApart⟩
          · rcases hItems.of_lt hAfter hItem' hItem with
              ⟨start', stop', start, stop, hSpread', hSpread, hOrder,
                hHigh⟩
            rcases hSpread.of_insideAt? hInside with
              ⟨first, last, hFirst, hLast, hFound⟩
            rcases hSpread'.of_insideAt? hInside' with
              ⟨first', last', _, hLast', hFound'⟩
            have hSize := (spread_iff.mp hFound).2.1
            exact ⟨first, last, first', last', hFound, hFound',
              by omega, by omega, Or.inr (by omega)⟩

end Item

end Nullary
