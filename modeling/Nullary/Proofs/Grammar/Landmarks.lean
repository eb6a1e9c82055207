import Nullary.Expansion.Placement
import Nullary.Proofs.Grammar.Placing

/-
  The landmarks of a parsed file stand in its text in the
  order of its items.

  An item is told by its attributes and, if it is a record or
  an implementation, by the end of its last token.  Modules
  are followed by what stands inside them, so that the
  landmarks of all items, at every depth, form one sequence.

  Main declarations:
    * `Item.landmarks`
    * `Item.allLandmarks`
    * `Grammar.Faithful`
    * `Grammar.faithful_level`
    * `SourceFile.placed_landmarks`
-/

namespace Nullary

open SourceText Nullary.Parser

------------------------------------------------------------
-- The Landmarks of Items
------------------------------------------------------------

namespace Attribute

/- The landmarks of attributes. -/
def landmarks
    (attributes : List Attribute) : List Landmark :=
  attributes.map fun a => .tag a.span

theorem landmarks_append
    (first second : List Attribute) :
    landmarks (first ++ second) =
      landmarks first ++ landmarks second :=
  List.map_append

end Attribute

namespace Item

/- The end of an item after which a constructor may be put. -/
def closing : Item → List Landmark
  | struct item => [.close (Tokens.span item.tokens).stop]
  | impl item => [.close (Tokens.span item.tokens).stop]
  | _ => []

/- The landmarks of an item without the items inside it. -/
def landmarks
    (item : Item) : List Landmark :=
  Attribute.landmarks item.attributes ++ item.closing

/- The landmarks of an item and of the items inside it. -/
def allLandmarks
    (item : Item) : List Landmark :=
  (placementsOf [] item).flatMap (·.item.landmarks)

/- It makes no difference to an item in which body it stands. -/
theorem flatMap_placementsOf
    (body : List Item)
    (item : Item) :
    (placementsOf body item).flatMap (·.item.landmarks) =
      item.allLandmarks := by
  unfold allLandmarks
  cases item with
  | module attributes content tokens =>
      cases content with
      | none => simp [placementsOf]
      | some items => simp [placementsOf]
  | _ => simp [placementsOf]

theorem flatMap_placementsOfAll
    (body items : List Item) :
    (placementsOfAll body items).flatMap (·.item.landmarks) =
      items.flatMap allLandmarks := by
  induction items with
  | nil => simp [placementsOfAll]
  | cons item items ih =>
      simp [placementsOfAll, flatMap_placementsOf, ih]

/- An item that is no inline module has nothing inside it. -/
theorem allLandmarks_eq_landmarks
    {item : Item}
    (hItem :
      ∀ attributes items tokens,
        item ≠ module attributes (some items) tokens) :
    item.allLandmarks = item.landmarks := by
  unfold allLandmarks
  cases item with
  | module attributes content tokens =>
      cases content with
      | none => simp [placementsOf]
      | some items => exact absurd rfl (hItem _ _ _)
  | _ => simp [placementsOf]

/- An inline module is followed by what stands inside it. -/
theorem allLandmarks_module
    (attributes : List Attribute)
    (items : List Item)
    (tokens : Tokens) :
    (module attributes (some items) tokens).allLandmarks =
      Attribute.landmarks attributes ++
        items.flatMap allLandmarks := by
  have hItems := flatMap_placementsOfAll items items
  unfold allLandmarks at hItems ⊢
  rw [placementsOf, List.flatMap_cons, hItems]
  simp [landmarks, closing, Item.attributes]

end Item

namespace Tokens

theorem span_append_stop
    (first : Tokens)
    {second : Tokens}
    (hSecond : second ≠ []) :
    (span (first ++ second)).stop = (span second).stop := by
  rcases List.exists_cons_of_ne_nil hSecond with
    ⟨head, tail, rfl⟩
  have hLast :
      (first ++ head :: tail).getLast? =
        (head :: tail).getLast? := by
    rw [List.getLast?_append, List.getLast?_cons]
    rfl
  cases first with
  | nil => rfl
  | cons head' tail' =>
      unfold span
      rw [hLast, List.getLast?_cons]
      rfl

end Tokens

------------------------------------------------------------
-- Attributes
------------------------------------------------------------

namespace Grammar

variable {text : List Char}
variable {marks base : List Landmark}
variable {g : Grammar}

theorem places_outerAttribute
    (g : Grammar)
    (marks : List Landmark) :
    Places text marks g.outerAttribute fun a more =>
      more = marks ++ [.tag a.span] := by
  intro high trees value rest hRun hReached
  unfold outerAttribute at hRun
  rcases run_bind_eq_some hRun with ⟨hash, rest₁, hHash, hRun₁⟩
  rcases run_bind_eq_some hRun₁ with
    ⟨⟨⟨path, body⟩, span⟩, rest₂, hGroup, hRun₂⟩
  cases hRun₂
  rcases eq_mark_of_run_mark rfl hHash with
    ⟨joint, first, rfl, rfl⟩
  rcases eq_group_of_run_within hGroup with
    ⟨content, rfl, hContent⟩
  exact ⟨_, rfl, hReached.past_attribute (Or.inl rfl)⟩

theorem places_innerAttribute
    (g : Grammar)
    (marks : List Landmark) :
    Places text marks g.innerAttribute fun a more =>
      more = marks ++ [.tag a.span] := by
  intro high trees value rest hRun hReached
  unfold innerAttribute at hRun
  rcases run_bind_eq_some hRun with ⟨hash, rest₁, hHash, hRun₁⟩
  rcases run_bind_eq_some hRun₁ with
    ⟨bang, rest₂, hBang, hRun₂⟩
  rcases run_bind_eq_some hRun₂ with
    ⟨⟨⟨path, body⟩, span⟩, rest₃, hGroup, hRun₃⟩
  cases hRun₃
  rcases eq_mark_of_run_mark rfl hHash with
    ⟨joint, first, rfl, rfl⟩
  rcases eq_mark_of_run_mark rfl hBang with
    ⟨joint', second, rfl, rfl⟩
  rcases eq_group_of_run_within hGroup with
    ⟨content, rfl, hContent⟩
  exact ⟨_, rfl,
    hReached.past_attribute (Or.inr ⟨joint', second, rfl⟩)⟩

/- A list with one landmark for each attribute. -/
theorem flatMap_tag
    (attributes : List Attribute) :
    (attributes.flatMap fun a => [Landmark.tag a.span]) =
      Attribute.landmarks attributes := by
  induction attributes with
  | nil => rfl
  | cons a attributes ih =>
      rw [List.flatMap_cons, ih]
      rfl

theorem places_outerAttributes
    (g : Grammar) :
    Places text marks g.outerAttributes fun attributes more =>
      more = marks ++ Attribute.landmarks attributes := by
  simpa only [flatMap_tag, outerAttributes] using
    Places.many g.places_outerAttribute

theorem places_innerAttributes
    (g : Grammar) :
    Places text marks g.innerAttributes fun attributes more =>
      more = marks ++ Attribute.landmarks attributes := by
  simpa only [flatMap_tag, innerAttributes] using
    Places.many g.places_innerAttribute

------------------------------------------------------------
-- Bodies in Braces
------------------------------------------------------------

/-
  Only the attributes at the start of a body are landmarks
  of it.
-/
theorem places_content
    (g : Grammar)
    {α β : Type}
    {rest : Parser α}
    (result : List Attribute → α → List Attribute × β)
    (hResult :
      ∀ attributes found,
        (result attributes found).1 = attributes) :
    Places text marks
      (do
        let attributes ← g.innerAttributes
        let found ← rest
        return result attributes found)
      fun parts more =>
        more = marks ++ Attribute.landmarks parts.1 := by
  refine .bind g.places_innerAttributes ?_
  rintro attributes more rfl
  refine .skip_bind fun found => .pure ?_
  rw [hResult]

theorem places_functionBody
    (g : Grammar) :
    Places text marks g.functionBody fun parts more =>
      more = marks ++ Attribute.landmarks parts.1 := by
  unfold functionBody
  refine .bind
    (.within (g.places_content (fun _ _ => (_, _))
      fun _ _ => rfl)) ?_
  rintro ⟨⟨attributes, tokens⟩, span⟩ more rfl
  exact .pure rfl

theorem places_traitBody
    (g : Grammar) :
    Places text marks g.traitBody fun parts more =>
      more = marks ++ Attribute.landmarks parts.1 := by
  unfold traitBody
  refine .bind
    (.within (g.places_content (fun _ _ => (_, _, _))
      fun _ _ => rfl)) ?_
  rintro ⟨⟨attributes, members, tokens⟩, span⟩ more rfl
  exact .pure rfl

/- The end of the body of an implementation is kept. -/
theorem places_implBody
    (g : Grammar) :
    Places text marks g.implBody fun parts more =>
      parts.2.2 ≠ [] ∧
        more = marks ++ Attribute.landmarks parts.1 ++
          [.close (Tokens.span parts.2.2).stop] := by
  unfold implBody
  refine .bind
    (.within_closed (g.places_content (fun _ _ => (_, _, _))
      fun _ _ => rfl)) ?_
  rintro ⟨⟨attributes, members, tokens⟩, span⟩ more
    ⟨inside, rfl, rfl⟩
  exact .pure ⟨List.cons_ne_nil _ _, rfl⟩

/-
  The braces of a record, whose end is kept.  The grammar
  gives back the braces that it has taken.
-/
def FieldsClose
    (text : List Char)
    (g : Grammar) : Prop :=
  ∀ marks, Places text marks g.fields fun parts more =>
    parts.2 ≠ [] ∧
      more = marks ++ [.close (Tokens.span parts.2).stop]

theorem places_namedFields
    (g : Grammar)
    (marks : List Landmark) :
    Places text marks g.namedFields fun parts more =>
      parts.2 ≠ [] ∧
        more = marks ++
          [.close (Tokens.span parts.2).stop] := by
  unfold namedFields
  have hContent :
      Places text marks
        (listUntil (·.isEmpty) "," g.namedField)
        fun _ more => more = marks :=
    .skip fun _ => rfl
  refine .bind (.within_closed hContent) ?_
  rintro ⟨fields, span⟩ more ⟨inside, rfl, rfl⟩
  exact .pure ⟨List.cons_ne_nil _ _, rfl⟩

------------------------------------------------------------
-- Items
------------------------------------------------------------

theorem places_structBody
    (hFields : FieldsClose text g) :
    Places text marks g.structBody fun parts more =>
      parts.2.2 ≠ [] ∧
        more = marks ++
          [.close (Tokens.span parts.2.2).stop] := by
  unfold structBody
  refine .skip_bind fun clause => ?_
  refine .skip_bind fun atParenthesis => ?_
  split
  · refine .skip_bind fun ⟨count, fields⟩ => ?_
    refine .skip_bind fun clause' => ?_
    refine .bind .semicolon ?_
    rintro semicolon more ⟨hNonempty, rfl⟩
    refine .pure ⟨by simp [hNonempty], ?_⟩
    rw [Tokens.span_append_stop _ hNonempty]
  · refine .skip_bind fun atBrace => ?_
    split
    · refine .bind (hFields marks) ?_
      rintro ⟨names, fields⟩ more ⟨hNonempty, rfl⟩
      refine .pure ⟨by simpa using fun _ => hNonempty, ?_⟩
      rw [Tokens.span_append_stop _ hNonempty]
    · refine .bind .semicolon ?_
      rintro semicolon more ⟨hNonempty, rfl⟩
      refine .pure ⟨by simp [hNonempty], ?_⟩
      rw [Tokens.span_append_stop _ hNonempty]

theorem places_structItem
    (hFields : FieldsClose text g)
    (attributes : List Attribute)
    (visibility : Visibility) :
    Places text marks (g.structItem attributes visibility)
      fun item more =>
        item.attributes = attributes ∧
          more = marks ++ (Item.struct item).closing := by
  unfold structItem
  refine .skip_bind fun keyword => ?_
  refine .skip_bind fun name => ?_
  refine .skip_bind fun generics => ?_
  refine .bind (places_structBody hFields) ?_
  rintro ⟨clause, fields, body⟩ more ⟨hNonempty, rfl⟩
  refine .pure ⟨rfl, ?_⟩
  simp only [Item.closing]
  rw [Tokens.span_append_stop _ hNonempty]

/-
  What an item that may be left unparsed adds: its landmarks,
  or none.
-/
def Adds
    (marks : List Landmark)
    (found : Option Item)
    (more : List Landmark) : Prop :=
  more = marks ++ found.elim [] Item.allLandmarks

theorem places_implItem
    (g : Grammar)
    (attributes : List Attribute)
    (visibility : Visibility) :
    Places text (marks ++ Attribute.landmarks attributes)
      (g.implItem attributes visibility)
      fun found more => Adds marks (found.map .impl) more := by
  unfold implItem
  refine .skip_bind fun default => ?_
  refine .skip_bind fun unsafety => ?_
  refine .skip_bind fun keyword => ?_
  refine .skip_bind fun atGenerics => ?_
  extract_lets afterGenerics
  have hGenerics :
      ∀ generics,
        Places text (marks ++ Attribute.landmarks attributes)
          (afterGenerics generics)
          fun found more =>
            Adds marks (found.map .impl) more := by
    intro generics
    refine .skip_bind fun constant => ?_
    extract_lets afterConstant
    have hConstant :
        Places text (marks ++ Attribute.landmarks attributes)
          (afterConstant ())
          fun found more =>
            Adds marks (found.map .impl) more := by
      refine .skip_bind fun ⟨ofTrait, apart, self, target⟩ => ?_
      refine .skip_bind fun clause => ?_
      refine .bind g.places_implBody ?_
      rintro ⟨inner, members, body⟩ more ⟨hNonempty, rfl⟩
      dsimp only at hNonempty ⊢
      split
      · exact Places.of_sublist (.pure (List.append_nil _).symm)
          (by simp)
      · refine .pure ?_
        unfold Adds
        rw [Option.map_some, Option.elim_some,
          Item.allLandmarks_eq_landmarks (by simp)]
        simp only [Item.landmarks, Item.attributes,
          Item.closing, Attribute.landmarks_append]
        rw [Tokens.span_append_stop _ hNonempty]
        simp only [List.append_assoc]
    split
    · exact .skip_bind fun _ => .skip_bind fun _ => hConstant
    · exact hConstant
  split
  · exact .skip_bind hGenerics
  · exact .skip_bind hGenerics

/- A grammar whose items and records are where they should be. -/
structure Faithful
    (text : List Char)
    (g : Grammar) : Prop where
  fields : FieldsClose text g
  item : ∀ marks, Places text marks g.item fun item more =>
    more = marks ++ item.allLandmarks

theorem places_moduleItem
    (hFaithful : Faithful text g)
    (attributes : List Attribute)
    (visibility : Visibility) :
    Places text (marks ++ Attribute.landmarks attributes)
      (g.moduleItem attributes visibility)
      fun item more => more = marks ++ item.allLandmarks := by
  unfold moduleItem
  refine .skip_bind fun unsafety => ?_
  refine .skip_bind fun keyword => ?_
  refine .skip_bind fun atTry => ?_
  extract_lets afterName
  have hName :
      ∀ name,
        Places text (marks ++ Attribute.landmarks attributes)
          (afterName name)
          fun item more =>
            more = marks ++ item.allLandmarks := by
    intro name
    refine .skip_bind fun atSemicolon => ?_
    split
    · refine .skip_bind fun semicolon => .pure ?_
      simp [Item.allLandmarks_eq_landmarks, Item.landmarks,
        Item.attributes, Item.closing]
    · have hContent :
          Places text
            (marks ++ Attribute.landmarks attributes)
            (do
              let inner ← g.innerAttributes
              let items ← manyToEnd g.item
              return (inner, items))
            fun parts more =>
              more = marks ++ Attribute.landmarks attributes ++
                Attribute.landmarks parts.1 ++
                parts.2.flatMap Item.allLandmarks := by
        refine .bind g.places_innerAttributes ?_
        rintro inner more rfl
        refine .bind (Places.many hFaithful.item) ?_
        rintro items more rfl
        exact .pure rfl
      refine .bind (.within hContent) ?_
      rintro ⟨⟨inner, items⟩, span⟩ more rfl
      refine .pure ?_
      simp [Item.allLandmarks_module,
        Attribute.landmarks_append]
  split
  · exact .skip_bind hName
  · exact .skip_bind hName

theorem places_traitItem
    (g : Grammar)
    (attributes : List Attribute)
    (visibility : Visibility) :
    Places text (marks ++ Attribute.landmarks attributes)
      (g.traitItem attributes visibility)
      fun item more => more = marks ++ item.allLandmarks := by
  unfold traitItem
  refine .skip_bind fun unsafety => ?_
  refine .skip_bind fun auto => ?_
  refine .skip_bind fun keyword => ?_
  refine .skip_bind fun name => ?_
  refine .skip_bind fun generics => ?_
  refine .skip_bind fun atEquals => ?_
  split
  · refine .skip_bind fun equals => ?_
    refine .skip_bind fun bounds => ?_
    refine .skip_bind fun clause => ?_
    refine .skip_bind fun semicolon => .pure ?_
    simp [Item.allLandmarks_eq_landmarks, Item.landmarks,
      Item.attributes, Item.closing]
  · refine .skip_bind fun colon => ?_
    extract_lets afterBounds
    have hBounds :
        ∀ bounds,
          Places text
            (marks ++ Attribute.landmarks attributes)
            (afterBounds bounds)
            fun item more =>
              more = marks ++ item.allLandmarks := by
      intro bounds
      refine .skip_bind fun clause => ?_
      refine .bind g.places_traitBody ?_
      rintro ⟨inner, members, body⟩ more rfl
      refine .pure ?_
      simp [Item.allLandmarks_eq_landmarks, Item.landmarks,
        Item.attributes, Item.closing,
        Attribute.landmarks_append]
    split
    · exact .skip_bind hBounds
    · exact .skip_bind hBounds

/- An item that is kept as written adds nothing. -/
theorem places_none
    (attributes : List Attribute) :
    Places text (marks ++ Attribute.landmarks attributes)
      (pure none) (Adds marks) :=
  Places.of_sublist (.pure (List.append_nil _).symm)
    (List.sublist_append_left _ _)

/- Neither does one whose attributes do not count. -/
theorem places_bare
    (attributes : List Attribute)
    (tokens : Tokens) :
    Places text (marks ++ Attribute.landmarks attributes)
      (pure (some (.bare tokens))) (Adds marks) :=
  Places.of_sublist (.pure (List.append_nil _).symm)
    (List.sublist_append_left _ _)

/- Other items have the attributes before them. -/
theorem places_marked
    (attributes : List Attribute)
    (tokens : Tokens) :
    Places text (marks ++ Attribute.landmarks attributes)
      (pure (some (.marked attributes tokens)))
      (Adds marks) := by
  refine .pure ?_
  simp [Adds, Item.allLandmarks_eq_landmarks, Item.landmarks,
    Item.attributes, Item.closing]

theorem places_functionItem
    (g : Grammar)
    (attributes : List Attribute)
    (visibility : Visibility) :
    Places text (marks ++ Attribute.landmarks attributes)
      (g.functionItem attributes visibility) (Adds marks) := by
  unfold functionItem
  refine .skip_bind fun signature => .branch ?_ ?_
  · exact .skip_bind fun semicolon => places_none attributes
  · refine .bind g.places_functionBody ?_
    rintro ⟨inner, body⟩ more rfl
    refine .pure ?_
    simp [Adds, Item.allLandmarks_eq_landmarks, Item.landmarks,
      Item.attributes, Item.closing,
      Attribute.landmarks_append]

theorem places_staticItem
    (g : Grammar)
    (attributes : List Attribute)
    (visibility : Visibility) :
    Places text (marks ++ Attribute.landmarks attributes)
      (g.staticItem attributes visibility) (Adds marks) := by
  unfold staticItem
  refine .skip_bind fun keyword => ?_
  refine .skip_bind fun mutability => ?_
  refine .skip_bind fun name => .branch ?_ ?_
  · refine .skip_bind fun equals => ?_
    refine .skip_bind fun value => ?_
    exact .skip_bind fun semicolon => places_none attributes
  · refine .skip_bind fun colon => ?_
    refine .skip_bind fun type => .branch ?_ ?_
    · exact .skip_bind fun semicolon => places_none attributes
    · refine .skip_bind fun equals => ?_
      refine .skip_bind fun value => ?_
      exact .skip_bind fun semicolon =>
        places_marked attributes _

theorem places_enumItem
    (g : Grammar)
    (attributes : List Attribute)
    (visibility : Visibility) :
    Places text (marks ++ Attribute.landmarks attributes)
      (g.enumItem attributes visibility)
      fun item more => more = marks ++ item.allLandmarks := by
  unfold enumItem
  refine .skip_bind fun keyword => ?_
  refine .skip_bind fun name => ?_
  refine .skip_bind fun generics => ?_
  refine .skip_bind fun clause => ?_
  refine .skip_bind fun ⟨variants, span⟩ => .pure ?_
  simp [Item.allLandmarks_eq_landmarks, Item.landmarks,
    Item.attributes, Item.closing]

theorem places_unionItem
    (g : Grammar)
    (attributes : List Attribute)
    (visibility : Visibility) :
    Places text (marks ++ Attribute.landmarks attributes)
      (g.unionItem attributes visibility)
      fun item more => more = marks ++ item.allLandmarks := by
  unfold unionItem
  refine .skip_bind fun keyword => ?_
  refine .skip_bind fun name => ?_
  refine .skip_bind fun generics => ?_
  refine .skip_bind fun clause => ?_
  refine .skip_bind fun ⟨names, fields⟩ => .pure ?_
  simp [Item.allLandmarks_eq_landmarks, Item.landmarks,
    Item.attributes, Item.closing]

/- A parsed item, given as one that may be left unparsed. -/
theorem places_some
    {p : Parser Item}
    (hItem :
      Places text marks p fun item more =>
        more = base ++ item.allLandmarks) :
    Places text marks (p >>= fun item => pure (some item))
      (Adds base) := by
  refine .bind hItem ?_
  rintro item more rfl
  exact .pure rfl

theorem places_itemBody
    (hFaithful : Faithful text g)
    (attributes : List Attribute) :
    Places text (marks ++ Attribute.landmarks attributes)
      (g.itemBody attributes) (Adds marks) := by
  unfold itemBody
  refine .skip_bind fun visibility => ?_
  extract_lets inherited head
  refine .branch
    (g.places_functionItem attributes visibility) ?_
  refine .branch
    (.skip_bind fun crate => places_bare attributes _) ?_
  refine .branch
    (.skip_bind fun foreign => places_bare attributes _) ?_
  refine .branch ?use ?_
  case use =>
    refine .skip_bind fun found => ?_
    cases found with
    | none => exact places_none attributes
    | some tokens => exact places_bare attributes tokens
  refine .branch
    (g.places_staticItem attributes visibility) ?_
  refine .branch ?constant ?_
  case constant =>
    refine .skip_bind fun ⟨tokens, generic, valued⟩ => ?_
    dsimp only
    split
    · exact places_none attributes
    · exact places_marked attributes _
  refine .branch
    (places_some
      (places_moduleItem hFaithful attributes visibility)) ?_
  refine .branch ?type ?_
  case type =>
    refine .skip_bind fun t => ?_
    split
    · exact places_none attributes
    · exact places_marked attributes _
  refine .branch ?struct ?_
  case struct =>
    refine .bind
      (places_structItem hFaithful.fields attributes
        visibility) ?_
    rintro item more ⟨hAttributes, rfl⟩
    refine .pure ?_
    simp [Adds, Item.allLandmarks_eq_landmarks,
      Item.landmarks, Item.attributes, hAttributes]
  refine .branch
    (places_some (g.places_enumItem attributes visibility)) ?_
  refine .branch
    (places_some (g.places_unionItem attributes visibility)) ?_
  refine .branch
    (places_some (g.places_traitItem attributes visibility)) ?_
  refine .branch ?impl ?_
  case impl =>
    refine .bind (g.places_implItem attributes visibility) ?_
    intro found more hAdds
    exact .pure hAdds
  refine .branch
    (.skip_bind fun _ => places_none attributes) ?_
  exact .branch
    (.skip_bind fun call => places_bare attributes _) .refuse

------------------------------------------------------------
-- The Grammar at Every Depth
------------------------------------------------------------

theorem places_itemWith
    (hFaithful : Faithful text g)
    (marks : List Landmark) :
    Places text marks g.itemWith fun item more =>
      more = marks ++ item.allLandmarks := by
  unfold itemWith orAsWritten
  have hItem :
      Places text marks
        (do
          let attributes ← g.outerAttributes
          g.itemBody attributes)
        (Adds marks) := by
    refine .bind g.places_outerAttributes ?_
    rintro attributes more rfl
    exact places_itemBody hFaithful attributes
  refine .bind (.written hItem) ?_
  rintro ⟨found, taken⟩ more hAdds
  cases found with
  | none =>
      refine .pure (hAdds.trans ?_)
      simp [Item.allLandmarks_eq_landmarks, Item.landmarks,
        Item.attributes, Item.closing, Attribute.landmarks]
  | some item => exact .pure hAdds

/- The grammar is faithful at every depth. -/
theorem faithful_level
    (text : List Char)
    (depth : Nat) :
    Faithful text (level depth) := by
  induction depth with
  | zero => exact ⟨fun _ => .refuse, fun _ => .refuse⟩
  | succ depth ih =>
      refine ⟨?_, ?_⟩
      · intro marks
        change Places text marks
          (delayed fun _ => (level depth).namedFields) _
        exact .delayed ((level depth).places_namedFields marks)
      · intro marks
        change Places text marks
          (delayed fun _ => (level depth).itemWith) _
        exact .delayed (places_itemWith ih marks)

end Grammar

------------------------------------------------------------
-- Files
------------------------------------------------------------

namespace SourceFile

/-
  The landmarks of all items of a file, at every depth, stand
  in its text in the order of the items.  A byte order mark
  before the text counts for nothing.
-/
theorem placed_landmarks
    {text : List Char}
    {file : SourceFile}
    (hParse : parse? text = some file) :
    Placed (dropByteOrderMark text)
      (dropByteOrderMark text).length
      ((Item.placements file.items).flatMap
        (·.item.landmarks)) := by
  rcases Option.bind_eq_some_iff.mp hParse with
    ⟨trees, hTrees, hFile⟩
  have hLaid := Laid.of_dropInterpreterLine hTrees
  have hReached :
      Reached (dropByteOrderMark text)
        (dropByteOrderMark text).length [] trees :=
    ⟨0, .nil _ 0, hLaid.remain⟩
  have hPlaces :
      Places (dropByteOrderMark text) []
        (Grammar.forTokens trees).sourceFile
        fun file more =>
          more = file.items.flatMap Item.allLandmarks := by
    unfold Grammar.sourceFile
    refine .skip_bind fun inner => ?_
    refine .bind
      (Places.many (Grammar.faithful_level _ _).item) ?_
    rintro items more rfl
    exact .pure (List.nil_append _)
  rcases hPlaces _ _ _ _ (run_of_parse? hFile) hReached with
    ⟨more, rfl, low, hPlaced, hRemain⟩
  unfold Item.placements
  rw [Item.flatMap_placementsOfAll]
  exact hPlaced.of_le hRemain.low_le_high

end SourceFile

end Nullary
