import Nullary.Proofs.Grammar.Spread
import Nullary.Proofs.Token.Cutting.Standing

/-
  Where the parts of a record declaration stand in a text.

  An item of a file is read at some offset of its text, and
  so is what stands inside of it.  For a record declaration
  this gives the trees that its name, each of its parameters
  and its clause were read from, and what follows them.

  Main declarations:
    * `Item.ReadIn`
    * `SourceFile.readIn_of_parse?`
    * `Grammar.findsRecords_itemBody`
    * `GenericParameter.StandsIn`
    * `WhereClause.StandsIn`
    * `StructItem.StandsIn`
    * `SourceFile.standsIn_of_parse?`
-/

namespace Nullary

open SourceText Nullary.Parser Nullary.Tokens

variable {text : List Char}

------------------------------------------------------------
-- Items
------------------------------------------------------------

/- An item is read from trees of a text. -/
def Item.ReadIn
    (text : List Char)
    (item : Item) : Prop :=
  ∃ depth start stop trees rest,
    Between text start stop trees ∧
      (Grammar.level depth).itemWith.run trees = some (item, rest)

namespace Grammar

/- An item starts with a word or with a mark of its own. -/
theorem isContinuation_of_run_itemWith
    {depth : Nat}
    {trees rest : Tokens}
    {item : Item}
    (hRun : (level depth).itemWith.run trees = some (item, rest))
    (tree : TokenTree)
    (hHead : trees.head? = some tree) :
    Comment.isContinuation tree = false := by
  rcases (level depth).itemWith.suffix_of_run hRun with ⟨taken, rfl⟩
  have hFields := (spreading_level [] depth).fields
  rcases (takes_itemWith hFields taken item rest hRun).complete.head with
    ⟨first, more, rfl, hStarts⟩
  cases hHead
  exact (TokenTree.of_startsItem hStarts).1

/- The items of a module are read from its content. -/
theorem readIn_of_run_moduleContent
    {depth start stop : Nat}
    {content : Tokens}
    {inner : List Attribute}
    {items : List Item}
    (hBetween : Between text start stop content)
    (hRun :
      (level depth).moduleContent.run content =
        some ((inner, items), []))
    {item : Item}
    (hItem : item ∈ items) :
    item.ReadIn text := by
  rcases run_bind_eq_some hRun with ⟨_, left, hInner, hTail⟩
  rcases run_bind_eq_some hTail with ⟨_, _, hItems, hPure⟩
  cases hPure
  rcases exists_run_of_run_many hItems hItem with
    ⟨trees, rest, hSuffix, hTrees⟩
  cases depth with
  | zero => cases hTrees
  | succ depth =>
      have hRead :
          (level depth).itemWith.run trees = some (item, rest) :=
        hTrees
      rcases hSuffix.trans
          ((level (depth + 1)).innerAttributes.suffix_of_run hInner) with
        ⟨before, rfl⟩
      rcases hBetween.split
          (Or.inr (isContinuation_of_run_itemWith hRead)) with
        ⟨middle, _, hLeft⟩
      exact ⟨depth, middle, stop, trees, rest, hLeft, hRead⟩

end Grammar

namespace Item

/- What stands inside an item is read from inside its trees. -/
theorem ReadIn.of_mem_children
    {item child : Item}
    (hItem : item.ReadIn text)
    (hChild : child ∈ item.children) :
    child.ReadIn text := by
  rcases hItem with ⟨depth, start, stop, trees, rest, hBetween, hRun⟩
  rcases (Grammar.level depth).itemWith.suffix_of_run hRun with
    ⟨taken, rfl⟩
  have hFields := (Grammar.spreading_level text depth).fields
  have hReads := Grammar.takes_itemWith hFields taken item rest hRun
  rcases hReads.inside with hNone | ⟨content, span, inner, hLast, hContent⟩
  · rw [hNone] at hChild
    cases hChild
  · rcases List.getLast?_eq_some_iff.mp hLast with ⟨before, rfl⟩
    rw [List.append_assoc] at hBetween
    -- A group in braces does not belong to the attribute before it.
    rcases hBetween.split (Or.inr (by rintro tree ⟨⟩; rfl)) with
      ⟨middle, _, hGroup⟩
    rcases hGroup.of_group with ⟨start', stop', hInside⟩
    exact Grammar.readIn_of_run_moduleContent hInside hContent hChild

theorem ReadIn.of_insideAt?
    {body : List Item}
    {item : Item}
    {path : List Nat}
    {p : Placement}
    (hItem : item.ReadIn text)
    (hAt : insideAt? body item path = some p) :
    p.item.ReadIn text := by
  induction path generalizing body item with
  | nil =>
      cases hAt
      exact hItem
  | cons index path ih =>
      rw [insideAt?, placementAt?_cons] at hAt
      rcases Option.bind_eq_some_iff.mp hAt with ⟨child, hChild, hInside⟩
      exact ih (hItem.of_mem_children (List.mem_of_getElem? hChild))
        hInside

end Item

/- Every item of a file is read from trees of its text. -/
theorem SourceFile.readIn_of_parse?
    {file : SourceFile}
    (hParse : parse? text = some file)
    {path : List Nat}
    {p : Placement}
    (hAt : Item.placementAt? file.items path = some p) :
    p.item.ReadIn (dropByteOrderMark text) := by
  rcases Option.bind_eq_some_iff.mp hParse with ⟨trees, hTrees, hFile⟩
  rcases exists_between_of_dropInterpreterLine hTrees with
    ⟨start, hBetween⟩
  rcases run_moduleContent_of_parse? hFile with ⟨inner, hContent⟩
  cases path with
  | nil => cases hAt
  | cons index path =>
      rw [Item.placementAt?_cons] at hAt
      rcases Option.bind_eq_some_iff.mp hAt with
        ⟨item, hItem, hInside⟩
      have hRead :=
        Grammar.readIn_of_run_moduleContent hBetween hContent
          (List.mem_of_getElem? hItem)
      exact hRead.of_insideAt? hInside

------------------------------------------------------------
-- Record Declarations
------------------------------------------------------------

namespace Grammar

variable {α : Type}
variable {g : Grammar}

/- Records that a parser gives are read at an end of the trees. -/
def FindsRecords
    (g : Grammar)
    (p : Parser (Option Item)) : Prop :=
  ∀ (trees rest : Tokens) (record : StructItem),
    p.run trees = some (some (.struct record), rest) →
    ∃ attributes visibility left left', left <:+ trees ∧
      (g.structItem attributes visibility).run left =
        some (record, left')

/- A parser gives no record. -/
def NoRecord
    (found : Option Item)
    (_ : Tokens) : Prop :=
  ∀ record, found ≠ some (.struct record)

namespace FindsRecords

theorem none
    {p : Parser (Option Item)}
    (hNone : Takes [] p NoRecord) :
    g.FindsRecords p := by
  intro trees rest record hRun
  rcases p.suffix_of_run hRun with ⟨taken, rfl⟩
  exact absurd rfl (hNone taken _ rest hRun record)

theorem skip_bind
    {p : Parser α}
    {next : α → Parser (Option Item)}
    (hNext : ∀ value, g.FindsRecords (next value)) :
    g.FindsRecords (p >>= next) := by
  intro trees rest record hRun
  rcases run_bind_eq_some hRun with ⟨value, left, hValue, hTail⟩
  rcases hNext value left rest record hTail with
    ⟨attributes, visibility, place, left', hSuffix, hRecord⟩
  exact ⟨attributes, visibility, place, left',
    hSuffix.trans (p.suffix_of_run hValue), hRecord⟩

theorem branch
    {test : Tokens → Bool}
    {p q : Parser (Option Item)}
    (hThen : g.FindsRecords p)
    (hElse : g.FindsRecords q) :
    g.FindsRecords
      (sees test >>= fun holds => if holds = true then p else q) := by
  refine skip_bind fun holds => ?_
  split
  · exact hThen
  · exact hElse

end FindsRecords

theorem noRecord_functionItem
    (attributes : List Attribute)
    (visibility : Visibility) :
    Takes [] (g.functionItem attributes visibility) NoRecord := by
  unfold functionItem
  refine .skip_bind fun signature _ => .branch ?_ ?_
  · exact .skip_bind fun _ _ => .pure nofun
  · refine .skip_bind ?_
    rintro ⟨inner, body⟩ _
    exact .pure nofun

theorem noRecord_staticItem
    (attributes : List Attribute)
    (visibility : Visibility) :
    Takes [] (g.staticItem attributes visibility) NoRecord := by
  unfold staticItem
  refine .skip_bind fun keyword _ => .skip_bind fun mutability _ => ?_
  refine .skip_bind fun name _ => .branch ?_ ?_
  · exact .skip_bind fun _ _ => .skip_bind fun _ _ =>
      .skip_bind fun _ _ => .pure nofun
  · refine .skip_bind fun colon _ => .skip_bind fun type _ =>
      .branch ?_ ?_
    · exact .skip_bind fun _ _ => .pure nofun
    · exact .skip_bind fun equals _ => .skip_bind fun value _ =>
        .skip_bind fun semicolon _ => .pure nofun

theorem noRecord_moduleItem
    (attributes : List Attribute)
    (visibility : Visibility) :
    Takes [] (g.moduleItem attributes visibility) fun item taken =>
      NoRecord (some item) taken := by
  unfold moduleItem
  refine .skip_bind fun unsafety _ => .skip_bind fun keyword _ => ?_
  refine .look fun _ => ?_
  split
  all_goals
    refine .skip_bind fun name _ => .branch ?_ ?_
    · exact .skip_bind fun _ _ => .pure nofun
    · refine .skip_bind ?_
      rintro ⟨⟨inner, items⟩, span⟩ _
      exact .pure nofun

theorem noRecord_enumItem
    (attributes : List Attribute)
    (visibility : Visibility) :
    Takes [] (g.enumItem attributes visibility) fun item taken =>
      NoRecord (some item) taken := by
  unfold enumItem
  refine .skip_bind fun keyword _ => .skip_bind fun name _ => ?_
  refine .skip_bind fun generics _ => .skip_bind fun clause _ => ?_
  refine .skip_bind ?_
  rintro ⟨variants, span⟩ _
  exact .pure nofun

theorem noRecord_unionItem
    (attributes : List Attribute)
    (visibility : Visibility) :
    Takes [] (g.unionItem attributes visibility) fun item taken =>
      NoRecord (some item) taken := by
  unfold unionItem
  refine .skip_bind fun keyword _ => .skip_bind fun name _ => ?_
  refine .skip_bind fun generics _ => .skip_bind fun clause _ => ?_
  refine .skip_bind ?_
  rintro ⟨names, fields⟩ _
  exact .pure nofun

theorem noRecord_traitItem
    (attributes : List Attribute)
    (visibility : Visibility) :
    Takes [] (g.traitItem attributes visibility) fun item taken =>
      NoRecord (some item) taken := by
  unfold traitItem
  refine .skip_bind fun unsafety _ => .skip_bind fun auto _ => ?_
  refine .skip_bind fun keyword _ => .skip_bind fun name _ => ?_
  refine .skip_bind fun generics _ => .branch ?_ ?_
  · exact .skip_bind fun equals _ => .skip_bind fun bounds _ =>
      .skip_bind fun clause _ => .skip_bind fun semicolon _ =>
        .pure nofun
  · refine .skip_bind fun colon _ => ?_
    dsimp only
    split
    all_goals
      refine .skip_bind fun bounds _ => .skip_bind fun clause _ =>
        .skip_bind ?_
      rintro ⟨inner, members, body⟩ _
      exact .pure nofun

/- A record is read where its keyword comes next. -/
theorem findsRecords_itemBody
    (attributes : List Attribute) :
    g.FindsRecords (g.itemBody attributes) := by
  unfold itemBody
  refine .skip_bind fun visibility => ?_
  extract_lets inherited head
  refine .branch (.none (noRecord_functionItem _ _)) ?_
  refine .branch (.none (.skip_bind fun _ _ => .pure nofun)) ?_
  refine .branch (.none (.skip_bind fun _ _ => .pure nofun)) ?_
  refine .branch (.none ?use) ?_
  case use =>
    refine .skip_bind fun found _ => .pure ?_
    cases found <;> exact nofun
  refine .branch (.none (noRecord_staticItem _ _)) ?_
  refine .branch (.none ?constant) ?_
  case constant =>
    refine .skip_bind ?_
    rintro ⟨tokens, generic, valued⟩ _
    refine .pure ?_
    split <;> exact nofun
  refine .branch (.none ?module) ?_
  case module =>
    exact .bind (noRecord_moduleItem _ _) fun item _ hItem => .pure hItem
  refine .branch (.none ?type) ?_
  case type =>
    refine .skip_bind fun t _ => .pure ?_
    split <;> exact nofun
  refine .branch ?struct ?_
  case struct =>
    intro trees rest record hRun
    rcases run_bind_eq_some hRun with ⟨found, left, hFound, hPure⟩
    cases hPure
    exact ⟨attributes, visibility, trees, rest, List.suffix_refl trees,
      hFound⟩
  refine .branch (.none ?enum) ?_
  case enum =>
    exact .bind (noRecord_enumItem _ _) fun item _ hItem => .pure hItem
  refine .branch (.none ?union) ?_
  case union =>
    exact .bind (noRecord_unionItem _ _) fun item _ hItem => .pure hItem
  refine .branch (.none ?trait) ?_
  case trait =>
    exact .bind (noRecord_traitItem _ _) fun item _ hItem => .pure hItem
  refine .branch (.none ?impl) ?_
  case impl =>
    refine .skip_bind fun found _ => .pure ?_
    cases found <;> exact nofun
  refine .branch (.none (.skip_bind fun _ _ => .pure nofun)) ?_
  exact .branch (.none (.skip_bind fun _ _ => .pure nofun))
    (.none .refuse)

end Grammar

/- A record of a text is read from its keyword on. -/
theorem Item.ReadIn.exists_run_structItem
    {record : StructItem}
    (hRead : (Item.struct record).ReadIn text) :
    ∃ depth attributes visibility start stop trees rest,
      Between text start stop trees ∧
        ((Grammar.level depth).structItem attributes visibility).run
            trees =
          some (record, rest) := by
  rcases hRead with ⟨depth, start, stop, trees, rest, hBetween, hRun⟩
  rcases run_bind_eq_some hRun with
    ⟨⟨found, written⟩, left, hWritten, hPure⟩
  have hFound : found = some (.struct record) := by
    cases found with
    | none => cases hPure
    | some item =>
        cases hPure
        rfl
  subst hFound
  rcases run_bind_eq_some hWritten with ⟨_, _, hLook, hTail⟩
  cases hLook
  rcases run_bind_eq_some hTail with ⟨_, _, hBody, hTail⟩
  rcases run_bind_eq_some hTail with ⟨_, _, hLook, hPure'⟩
  cases hLook
  cases hPure'
  have hFinds :
      (Grammar.level depth).FindsRecords (do
        let attributes ← (Grammar.level depth).outerAttributes
        (Grammar.level depth).itemBody attributes) :=
    .skip_bind Grammar.findsRecords_itemBody
  rcases hFinds _ _ _ hBody with
    ⟨attributes, visibility, place, left', ⟨before, rfl⟩, hRecord⟩
  rcases run_bind_eq_some hRecord with ⟨keyword, _, hKeyword, _⟩
  rcases eq_of_run_word hKeyword with ⟨span, rfl, _⟩
  rcases hBetween.split (Or.inr (by rintro tree ⟨⟩; rfl)) with
    ⟨middle, _, hPlace⟩
  exact ⟨depth, attributes, visibility, middle, stop, _, left', hPlace,
    hRecord⟩

------------------------------------------------------------
-- Parts of a Declaration
------------------------------------------------------------

/- A stop ends a list. -/
theorem Tokens.Stops.ends
    {trees : Tokens}
    (hStops : Stops trees) :
    Ends trees.texts := by
  rcases hStops with ⟨tree, more, rfl, hStop⟩
  intro text hText
  cases tree with
  | mark c joint span =>
      have hAll :
          ∀ c ∈ [':', '=', ',', '>', ';'], c.toString ∈ endTexts :=
        forall_mem_of_all (by decide)
      rw [texts_cons, TokenTree.texts_mark] at hText
      cases hText
      exact hAll c (List.contains_iff_mem.mp hStop)
  | group delimiter content span =>
      rw [eq_of_beq hStop, texts_cons, TokenTree.texts_group] at hText
      cases hText
      decide
  | word => cases hStop
  | literal => cases hStop

/- A colon that no bounds follow is a stop. -/
theorem Tokens.DanglingColon.stops
    {colon rest : Tokens}
    (hColon : DanglingColon colon rest)
    (hStops : Stops rest) :
    Stops (colon ++ rest) := by
  rcases hColon with rfl | ⟨joint, span, rfl, _⟩
  · exact hStops
  · exact ⟨_, rest, rfl, rfl⟩

/- A parameter is read from a text, and a stop comes after it. -/
def GenericParameter.StandsIn
    (text : List Char)
    (p : GenericParameter) : Prop :=
  ∃ start stop, ∃ declared colon assigned rest : Tokens,
    Between text start stop (declared ++ (colon ++ (assigned ++ rest))) ∧
      p.WrittenAs declared colon assigned rest ∧ Stops rest

/- Every parameter but the last one has a comma after it. -/
def GenericParameter.Separated : List GenericParameter → Prop
  | [] => True
  | [p] => p.comma.texts = [] ∨ p.comma.texts = [","]
  | p :: next :: others =>
      p.comma.texts = [","] ∧ Separated (next :: others)

/- A clause is read from a text, and a stop comes after it. -/
def WhereClause.StandsIn
    (text : List Char)
    (clause : WhereClause) : Prop :=
  ∃ start stop span, ∃ taken rest : Tokens,
    Between text start stop (.word "where" span :: (taken ++ rest)) ∧
      clause.keyword = [.word "where" span] ∧
      Echo true rest.texts taken clause.predicates ∧ Stops rest

/- The parts of a record declaration are read from a text. -/
structure StructItem.StandsIn
    (text : List Char)
    (record : StructItem) : Prop where
  nameToken : ∃ span, record.nameToken = .word record.name span
  identifier : IsIdentifier record.name.toList
  brackets :
    record.generics.parameters ≠ [] →
      record.generics.opening.texts = ["<"] ∧
        record.generics.closing.texts = [">"]
  separated : GenericParameter.Separated record.generics.parameters
  parameters : ∀ p ∈ record.generics.parameters, p.StandsIn text
  clause : ∀ clause ∈ record.generics.clause, clause.StandsIn text

namespace Grammar

variable {text : List Char}
variable {start stop : Nat}
variable {trees rest : Tokens}

theorem not_isDocMark_of_last
    {trees : Tokens}
    {c : Char}
    {joint : Bool}
    {span : Span}
    (hChar : c ≠ '#' ∧ c ≠ '!')
    (tree : TokenTree)
    (hLast :
      (trees ++ [TokenTree.mark c joint span]).getLast? = some tree) :
    tree.isDocMark = false := by
  rw [List.getLast?_concat] at hLast
  cases hLast
  simp [TokenTree.isDocMark, hChar]

/- Parameters in a list stand where the list does. -/
theorem standsIn_of_listed
    (hEchoing : Echoing g)
    {values : List (GenericParameter × Tokens)}
    (hListed :
      Listed (·.atMark ">") (·.atMark ">") "," g.genericParameter trees
        values rest)
    (hBetween : Between text start stop trees) :
    (∀ value ∈ values,
        ({ value.1 with comma := value.2 } : GenericParameter).StandsIn
          text) ∧
      GenericParameter.Separated
        (values.map fun value => { value.1 with comma := value.2 }) := by
  induction hListed generalizing start with
  | done => exact ⟨nofun, trivial⟩
  | last hValue hEnds =>
      rcases writtenAs_of_run_genericParameter hEchoing hValue with
        ⟨declared, colon, assigned, rfl, hWritten⟩
      refine ⟨?_, Or.inl texts_nil⟩
      intro value hMem
      cases List.mem_singleton.mp hMem
      exact ⟨start, stop, declared, colon, assigned, _, hBetween,
        { hWritten with }, .of_atMark (c := '>') rfl rfl hEnds⟩
  | @more _ _ left rest _ p values hValue hMark hRest ih =>
      rcases eq_mark_of_run_mark (c := ',') rfl hMark with
        ⟨joint, span, rfl, rfl⟩
      rcases writtenAs_of_run_genericParameter hEchoing hValue with
        ⟨declared, colon, assigned, rfl, hWritten⟩
      have hThis :
          ({ p with comma := [.mark ',' false span] } :
            GenericParameter).StandsIn text :=
        ⟨start, stop, declared, colon, assigned, _, hBetween,
          { hWritten with }, _, _, rfl, rfl⟩
      have hTrees :
          declared ++ (colon ++ (assigned ++ .mark ',' joint span :: left)) =
            (declared ++ colon ++ assigned ++ [.mark ',' joint span]) ++
              left := by
        simp
      rw [hTrees] at hBetween
      rcases hBetween.split
          (Or.inl (not_isDocMark_of_last (by decide))) with
        ⟨middle, _, hLeft⟩
      rcases ih hLeft with ⟨hOthers, hSeparated⟩
      refine ⟨List.forall_mem_cons.mpr ⟨hThis, hOthers⟩, ?_⟩
      have hComma : texts [.mark ',' false span] = [","] := by
        simp
      cases values with
      | nil => exact Or.inr hComma
      | cons next others => exact ⟨hComma, hSeparated⟩

/- Where generic parameters stand, and what is left after them. -/
theorem standsIn_of_run_generics
    (hEchoing : Echoing g)
    {generics : Generics}
    (hRun : g.generics.run trees = some (generics, rest))
    (hBetween : Between text start stop trees) :
    (generics.parameters ≠ [] →
        generics.opening.texts = ["<"] ∧
          generics.closing.texts = [">"]) ∧
      GenericParameter.Separated generics.parameters ∧
      (∀ p ∈ generics.parameters, p.StandsIn text) ∧
      ∃ middle, Between text middle stop rest := by
  rcases run_bind_eq_some hRun with ⟨_, _, hSees, hTail⟩
  cases hSees
  split at hTail
  · rcases run_bind_eq_some hTail with ⟨opening, left, hOpening, hTail⟩
    rcases run_bind_eq_some hTail with ⟨values, left', hValues, hTail⟩
    rcases run_bind_eq_some hTail with ⟨closing, _, hClosing, hPure⟩
    cases hPure
    have hOpen : "<".toList = ['<'] := rfl
    have hClose : ">".toList = ['>'] := rfl
    rcases eq_mark_of_run_mark hOpen hOpening with
      ⟨joint, span, rfl, rfl⟩
    rcases eq_mark_of_run_mark hClose hClosing with
      ⟨joint', span', rfl, rfl⟩
    have hListed := listed_of_run_listUntil hValues
    rcases (listUntil _ _ g.genericParameter).suffix_of_run hValues with
      ⟨taken, rfl⟩
    have hOpened : Between text start stop
        ([.mark '<' joint span] ++
          (taken ++ .mark '>' joint' span' :: rest)) :=
      hBetween
    rcases hOpened.split (Or.inl (by rintro tree ⟨⟩; rfl)) with
      ⟨middle, _, hInside⟩
    rcases standsIn_of_listed hEchoing hListed hInside with
      ⟨hParameters, hSeparated⟩
    have hTrees :
        taken ++ .mark '>' joint' span' :: rest =
          (taken ++ [.mark '>' joint' span']) ++ rest := by
      simp
    rw [hTrees] at hInside
    rcases hInside.split
        (Or.inl (not_isDocMark_of_last (by decide))) with
      ⟨after, _, hRest⟩
    refine ⟨fun _ => ⟨?_, ?_⟩, hSeparated, ?_, after, hRest⟩
    · simp
    · simp
    · intro p hMem
      rcases List.mem_map.mp hMem with ⟨value, hValue, rfl⟩
      exact hParameters value hValue
  · cases hTail
    exact ⟨fun hNone => absurd rfl hNone, trivial, nofun, start,
      hBetween⟩

/- Where a clause stands that may be missing. -/
theorem standsIn_of_run_clause?
    (hEchoing : Echoing g)
    {found : Option WhereClause}
    (hRun : g.clause?.run trees = some (found, rest))
    (hBetween : Between text start stop trees)
    (hNext : Stops rest)
    (clause : WhereClause)
    (hClause : clause ∈ found) :
    clause.StandsIn text := by
  rcases run_bind_eq_some hRun with ⟨_, _, hSees, hTail⟩
  cases hSees
  split at hTail
  · rcases run_bind_eq_some hTail with ⟨value, _, hValue, hPure⟩
    cases hPure
    cases hClause
    rcases echo_of_run_clause hEchoing hValue with
      ⟨span, taken, rfl, hKeyword, _, hEcho⟩
    exact ⟨start, stop, span, taken, _, hBetween, hKeyword, hEcho, hNext⟩
  · cases hTail
    cases hClause

/- A semicolon that is taken is a stop. -/
theorem stops_of_run_semicolon
    {trees rest value : Tokens}
    (hRun : (mark ";").run trees = some (value, rest)) :
    Stops trees := by
  have hMark : ";".toList = [';'] := rfl
  rcases eq_mark_of_run_mark hMark hRun with ⟨joint, span, rfl, _⟩
  exact ⟨_, rest, rfl, rfl⟩

/-
  The clause of a record stands before its fields, or after
  fields that have no names.
-/
theorem standsIn_of_run_structBody
    (hEchoing : Echoing g)
    {trees rest body : Tokens}
    {found : Option WhereClause}
    {fields : Fields}
    (hRun : g.structBody.run trees = some ((found, fields, body), rest))
    (hBetween : Between text start stop trees)
    (clause : WhereClause)
    (hClause : clause ∈ found) :
    clause.StandsIn text := by
  rcases run_bind_eq_some hRun with ⟨first, left, hFirst, hTail⟩
  rcases run_bind_eq_some hTail with ⟨_, _, hSees, hTail⟩
  cases hSees
  split at hTail
  · next hPositional =>
      rcases run_bind_eq_some hTail with
        ⟨⟨count, tokens⟩, left', hFields, hTail⟩
      rcases run_bind_eq_some hTail with ⟨second, left'', hSecond, hTail⟩
      rcases run_bind_eq_some hTail with ⟨semicolon, _, hMark, hPure⟩
      cases hPure
      -- The fields follow the name at once: there is no clause yet.
      have hNone : first = none ∧ left = trees := by
        rcases run_bind_eq_some hFirst with ⟨_, _, hSees, hFirst⟩
        cases hSees
        split at hFirst
        · rcases run_bind_eq_some hFirst with ⟨_, _, _, hPure⟩
          cases hPure
          simp at hPositional
        · cases hFirst
          exact ⟨rfl, rfl⟩
      rcases hNone with ⟨rfl, rfl⟩
      rcases run_bind_eq_some hFields with
        ⟨⟨values, span⟩, _, hGroup, hPure⟩
      cases hPure
      rcases eq_group_of_run_within hGroup with ⟨content, rfl, _⟩
      have hParts : Between text start stop
          ([.group .parenthesis content span] ++ left') :=
        hBetween
      rcases hParts.split (Or.inl (by rintro tree ⟨⟩; rfl)) with
        ⟨middle, _, hLeft⟩
      exact standsIn_of_run_clause? hEchoing hSecond hLeft
        (stops_of_run_semicolon hMark) clause hClause
  · rcases run_bind_eq_some hTail with ⟨_, _, hSees, hTail⟩
    cases hSees
    split at hTail
    · next hBrace =>
        rcases run_bind_eq_some hTail with
          ⟨⟨names, tokens⟩, _, _, hPure⟩
        cases hPure
        exact standsIn_of_run_clause? hEchoing hFirst hBetween
          (.of_atGroup hBrace) clause hClause
    · rcases run_bind_eq_some hTail with ⟨semicolon, _, hMark, hPure⟩
      cases hPure
      exact standsIn_of_run_clause? hEchoing hFirst hBetween
        (stops_of_run_semicolon hMark) clause hClause

/- Where the parts of a record stand. -/
theorem standsIn_of_run_structItem
    (hEchoing : Echoing g)
    {attributes : List Attribute}
    {visibility : Visibility}
    {record : StructItem}
    (hRun :
      (g.structItem attributes visibility).run trees =
        some (record, rest))
    (hBetween : Between text start stop trees) :
    record.StandsIn text := by
  rcases run_bind_eq_some hRun with ⟨keyword, left₁, hKeyword, hTail⟩
  rcases run_bind_eq_some hTail with ⟨name, left₂, hName, hTail⟩
  rcases run_bind_eq_some hTail with ⟨generics, left₃, hGenerics, hTail⟩
  rcases run_bind_eq_some hTail with
    ⟨⟨clause, fields, body⟩, left₄, hBody, hPure⟩
  cases hPure
  rcases eq_of_run_word hKeyword with ⟨span, rfl, rfl⟩
  rcases eq_of_run_name hName with ⟨text', span', rfl, rfl, _⟩
  have hParts : Between text start stop
      ([.word "struct" span] ++ ([.word text' span'] ++ left₂)) :=
    hBetween
  rcases hParts.split (Or.inl (by rintro tree ⟨⟩; rfl)) with
    ⟨middle, _, hNamed⟩
  rcases hNamed.split (Or.inl (by rintro tree ⟨⟩; rfl)) with
    ⟨after, hWord, hLeft⟩
  rcases standsIn_of_run_generics hEchoing hGenerics hLeft with
    ⟨hBrackets, hSeparated, hParameters, place, hRest⟩
  exact
    { nameToken := ⟨span', rfl⟩
      identifier := hWord.isIdentifier List.mem_cons_self
      brackets := hBrackets
      separated := hSeparated
      parameters := hParameters
      clause := standsIn_of_run_structBody hEchoing hBody hRest }

end Grammar

/- The parts of a record of a file stand in its text. -/
theorem SourceFile.standsIn_of_parse?
    {file : SourceFile}
    (hParse : parse? text = some file)
    {path : List Nat}
    {p : Placement}
    (hAt : Item.placementAt? file.items path = some p)
    {record : StructItem}
    (hRecord : p.item = .struct record) :
    record.StandsIn (dropByteOrderMark text) := by
  have hRead := readIn_of_parse? hParse hAt
  rw [hRecord] at hRead
  rcases hRead.exists_run_structItem with
    ⟨depth, attributes, visibility, start, stop, trees, rest, hBetween,
      hRun⟩
  exact Grammar.standsIn_of_run_structItem (Grammar.echoing_level depth)
    hRun hBetween

end Nullary
