import Nullary.Proofs.Expansion.Ranges
import Nullary.Proofs.Grammar.Spread

/-
  Where a constructor is put.

  A constructor is put after the record and after all of the
  inherent implementations of its name in the same body, and
  inside no item but the modules that enclose the record.
  Only on the first line of a text that still starts with a
  byte order mark when it is parsed is it put one character
  too early.

  Main declarations:
    * `StructItem.IsHost`
    * `StructItem.exists_host`
    * `Item.StandsAt`
    * `Item.exists_sibling_path`
    * `SourceFile.insertion_follows_hosts`
-/

namespace Nullary

open SourceText

------------------------------------------------------------
-- Hosts of a Constructor
------------------------------------------------------------

theorem le_foldl_max_of_mem
    (init : Nat)
    {stops : List Nat}
    {stop : Nat}
    (hMem : stop ∈ stops) :
    stop ≤ stops.foldl max init := by
  induction stops generalizing init with
  | nil => cases hMem
  | cons first stops ih =>
      rcases List.mem_cons.mp hMem with rfl | hRest
      · exact Nat.le_trans (Nat.le_max_right init stop)
          (le_foldl_max _ stops)
      · exact ih (max init first) hRest

namespace StructItem

/-
  The record itself, or an inherent implementation of its
  name next to it.
-/
def IsHost
    (record : StructItem)
    (siblings : List Item)
    (item : Item) : Prop :=
  item = .struct record ∨
    ∃ implementation,
      item = .impl implementation ∧ item ∈ siblings ∧
        implementation.ofTrait = false ∧
        implementation.self.name? = some record.name

/- The ends of all hosts. -/
def hostStops
    (record : StructItem)
    (siblings : List Item)
    (text : List Char) : List Nat :=
  offset text (Tokens.span record.tokens).stop ::
    (siblings.filterMap (Item.inherentImpl? record.name)).map
      fun i => offset text (Tokens.span i.tokens).stop

theorem mem_hostStops_iff
    {record : StructItem}
    {siblings : List Item}
    {text : List Char}
    {stop : Nat} :
    stop ∈ record.hostStops siblings text ↔
      ∃ host, record.IsHost siblings host ∧
        stop = offset text host.span.stop := by
  unfold hostStops
  simp only [List.mem_cons, List.mem_map, List.mem_filterMap,
    Item.inherentImpl?_eq_some_iff]
  constructor
  · rintro (rfl | ⟨implementation, ⟨_, hMem, rfl, hInherent⟩, rfl⟩)
    · exact ⟨.struct record, Or.inl rfl, rfl⟩
    · exact ⟨.impl implementation,
        Or.inr ⟨implementation, rfl, hMem, hInherent⟩, rfl⟩
  · rintro ⟨host, rfl | ⟨implementation, rfl, hMem, hInherent⟩, rfl⟩
    · exact Or.inl rfl
    · exact Or.inr ⟨implementation, ⟨_, hMem, rfl, hInherent⟩, rfl⟩

/- A constructor is put at the end of the host that stops last. -/
theorem exists_host
    (record : StructItem)
    (siblings : List Item)
    (text : List Char) :
    ∃ host, record.IsHost siblings host ∧
      record.insertionOffset siblings text =
        offset text host.span.stop ∧
      ∀ other, record.IsHost siblings other →
        offset text other.span.stop ≤
          record.insertionOffset siblings text := by
  have hMem :
      record.insertionOffset siblings text ∈
        record.hostStops siblings text :=
    foldl_max_mem _ _
  have hMax :
      ∀ stop ∈ record.hostStops siblings text,
        stop ≤ record.insertionOffset siblings text := by
    intro stop hStop
    rcases List.mem_cons.mp hStop with rfl | hOther
    · exact le_foldl_max _ _
    · exact le_foldl_max_of_mem _ hOther
  rcases mem_hostStops_iff.mp hMem with ⟨host, hHost, hOffset⟩
  refine ⟨host, hHost, hOffset, ?_⟩
  intro other hOther
  exact hMax _ (mem_hostStops_iff.mpr ⟨other, hOther, rfl⟩)

end StructItem

------------------------------------------------------------
-- Paths of Siblings
------------------------------------------------------------

namespace Item

/-
  Whatever stands next to an item has a path, which leads
  through the same modules.
-/
theorem exists_sibling_path
    {items : List Item}
    {path : List Nat}
    {p : Placement}
    (hAt : placementAt? items path = some p)
    {sibling : Item}
    (hSibling : sibling ∈ p.body) :
    ∃ path', placementAt? items path' = some ⟨sibling, p.body⟩ ∧
      ∀ outer, PathThrough outer path' → PathThrough outer path := by
  induction path generalizing items with
  | nil => cases hAt
  | cons index path ih =>
      rw [placementAt?_cons] at hAt
      rcases Option.bind_eq_some_iff.mp hAt with ⟨item, hItem, hInside⟩
      cases path with
      | nil =>
          cases hInside
          rcases List.mem_iff_getElem?.mp hSibling with
            ⟨index', hIndex⟩
          refine ⟨[index'], by simp [placementAt?, hIndex], ?_⟩
          rintro outer ⟨next, rest, hPath⟩
          cases outer with
          | nil => exact ⟨index, [], rfl⟩
          | cons => simp at hPath
      | cons next path =>
          rcases ih hInside with ⟨path', hPath', hThrough⟩
          refine ⟨index :: path', ?_, ?_⟩
          · rw [placementAt?_cons, hItem, Option.bind_some]
            cases path' with
            | nil => cases hPath'
            | cons => exact hPath'
          · rintro outer ⟨next', rest, hOuter⟩
            cases outer with
            | nil => exact ⟨index, next :: path, rfl⟩
            | cons index' outer =>
                rw [List.cons_append] at hOuter
                cases hOuter
                exact (hThrough outer ⟨next', rest, rfl⟩).cons index

------------------------------------------------------------
-- Where Items Stand
------------------------------------------------------------

/-
  An item stands between two offsets of a text.  Its
  positions count from where the text is parsed.
-/
def StandsAt
    (body : List Char)
    (item : Item)
    (first last : Nat) : Prop :=
  ∃ start stop,
    item.span = spanAt (dropByteOrderMark body) start stop ∧
      start < stop ∧ stop ≤ (dropByteOrderMark body).length ∧
      first = start + leadLength body ∧
      last = stop + leadLength body

theorem Spread.standsAt
    {body : List Char}
    {item : Item}
    {start stop : Nat}
    (hSpread : item.Spread (dropByteOrderMark body) start stop)
    (hStop : stop ≤ (dropByteOrderMark body).length) :
    item.StandsAt body (start + leadLength body)
      (stop + leadLength body) := by
  rcases spread_iff.mp hSpread with ⟨hSpan, hOrder, _⟩
  exact ⟨start, stop, hSpan, by omega, hStop, rfl, rfl⟩

end Item

namespace Leads

variable {body text : List Char}
variable {lead : Nat}

/- What lands later stands later. -/
theorem le_of_landing_le
    {offset offset' place place' : Nat}
    (hOrder : place ≤ place')
    (hLanding : Landing body text lead offset place)
    (hLanding' : Landing body text lead offset' place') :
    offset ≤ offset' := by
  by_contra hAfter
  have hLater := landing_lt (Nat.lt_of_not_le hAfter) hLanding' hLanding
  omega

/-
  An offset lands where it should, unless it is on the first
  line after a mark.
-/
theorem landing_eq_iff
    (hLeads : Leads body text lead)
    (hMark : body.head? = some byteOrderMark ↔ lead = 1)
    {offset place : Nat}
    (hLanding : Landing body text lead offset place) :
    (place = offset + lead ↔
      body.head? ≠ some byteOrderMark ∨
        ∃ i, i < offset + lead ∧ body[i]? = some '\n') ∧
      (place ≠ offset + lead → place + 1 = offset + lead) := by
  cases hLanding with
  | firm hLine =>
      refine ⟨iff_of_true rfl ?_, fun hNe => absurd rfl hNe⟩
      rcases hLine with hZero | ⟨i, hIndex, hNewline⟩
      · left
        rw [ne_eq, hMark]
        omega
      · exact Or.inr ⟨i + lead, by omega,
          by rw [hLeads.getElem?, hNewline]⟩
  | slipped hLead hFirst hLine =>
      subst hLead
      refine ⟨iff_of_false (by omega) ?_, fun _ => rfl⟩
      rintro (hNone | ⟨i, hIndex, hNewline⟩)
      · exact hNone (hMark.mpr rfl)
      · cases i with
        | zero => exact hFirst.ne_newline hNewline
        | succ i =>
            rw [hLeads.getElem?] at hNewline
            exact hLine i (Nat.zero_le i) (by omega) hNewline

end Leads

------------------------------------------------------------
-- Constructors of a File
------------------------------------------------------------

namespace SourceFile

variable {body : List Char}
variable {file : SourceFile}
variable {names : List String}

/- A host of a marked record stands next to it. -/
theorem exists_host_path
    {path : List Nat}
    {m : MarkedItem}
    (hMarked : file.MarkedAt names path m)
    {record : StructItem}
    (hItem : m.item = .struct record)
    {host : Item}
    (hHost : record.IsHost m.body host) :
    ∃ path',
      Item.placementAt? file.items path' = some ⟨host, m.body⟩ ∧
        ∀ outer, PathThrough outer path' → PathThrough outer path := by
  rcases hHost with rfl | ⟨_, _, hMem, _⟩
  · exact ⟨path, by rw [hMarked.placement, hItem], fun _ h => h⟩
  · exact Item.exists_sibling_path hMarked.placement hMem

/- Where a host stands, and where its end is found. -/
theorem exists_host_landing
    (hParse : parse? body = some file)
    {path : List Nat}
    {item : Item}
    {siblings : List Item}
    (hAt : Item.placementAt? file.items path = some ⟨item, siblings⟩) :
    ∃ start stop,
      item.Spread (dropByteOrderMark body) start stop ∧
        stop ≤ (dropByteOrderMark body).length ∧
        Landing body (dropByteOrderMark body) (leadLength body) stop
          (offset body item.span.stop) := by
  rcases (spreadAll_items hParse).of_placementAt? hAt with
    ⟨start, stop, _, hStop, hSpread⟩
  refine ⟨start, stop, hSpread, hStop, ?_⟩
  rw [(Item.spread_iff.mp hSpread).1]
  exact (leads_leadLength body).landing stop hStop

/-
  There is an end of a record or of an inherent
  implementation of its name in the same body that no other
  of these exceeds, and that is inside no item but the
  modules around the record.  The constructor of the record
  is put there exactly if the text has no byte order mark
  when it is parsed or the end is not on its first line;
  otherwise it is put before the last character of the item
  that ends there.
-/
theorem insertion_follows_hosts
    (hParse : parse? body = some file)
    {path : List Nat}
    {m : MarkedItem}
    (hMarked : file.MarkedAt names path m)
    {e : Edit}
    (hInsertion : m.insertion? body = some e) :
    ∃ record host first last,
      m.item = .struct record ∧
      e.start = inBytes body (record.insertionOffset m.body body) ∧
      e.stop = e.start ∧
      record.IsHost m.body host ∧ host.StandsAt body first last ∧
      (∀ other, record.IsHost m.body other →
        ∃ first' last',
          other.StandsAt body first' last' ∧ last' ≤ last) ∧
      (∀ path' p, Item.placementAt? file.items path' = some p →
        ¬ PathThrough path' path →
        ∃ first' last',
          p.item.StandsAt body first' last' ∧
            (last ≤ first' ∨ last' ≤ last)) ∧
      (record.insertionOffset m.body body = last ↔
        body.head? ≠ some byteOrderMark ∨
          ∃ i, i < last ∧ body[i]? = some '\n') ∧
      (record.insertionOffset m.body body ≠ last →
        record.insertionOffset m.body body + 1 = last ∧
          first < record.insertionOffset m.body body) := by
  have hLeads := leads_leadLength body
  have hMark :
      body.head? = some byteOrderMark ↔ leadLength body = 1 := by
    unfold leadLength
    split <;> simp [*]
  rcases MarkedItem.insertion?_eq_some_iff.mp hInsertion with
    ⟨record, hItem, _, rfl⟩
  rcases record.exists_host m.body body with
    ⟨host, hHost, hOffset, hMax⟩
  rcases exists_host_path hMarked hItem hHost with
    ⟨hostPath, hHostAt, hThrough⟩
  rcases exists_host_landing hParse hHostAt with
    ⟨start, stop, hSpread, hStop, hLanding⟩
  have hSize := (Item.spread_iff.mp hSpread).2.1
  rw [← hOffset] at hLanding
  rcases hLeads.landing_eq_iff hMark hLanding with ⟨hEnd, hSlip⟩
  refine ⟨record, host, start + leadLength body,
    stop + leadLength body, hItem, rfl, rfl, hHost,
    hSpread.standsAt hStop, ?_, ?_, hEnd, ?_⟩
  · intro other hOther
    rcases exists_host_path hMarked hItem hOther with
      ⟨path', hOtherAt, _⟩
    rcases exists_host_landing hParse hOtherAt with
      ⟨start', stop', hSpread', hStop', hLanding'⟩
    have hOrder :=
      Leads.le_of_landing_le (hMax other hOther) hLanding' hLanding
    exact ⟨_, _, hSpread'.standsAt hStop', by omega⟩
  · intro path' p hAt hOutside
    rcases (spreadAll_items hParse).apart hHostAt hAt
        (fun hPath => hOutside (hThrough path' hPath)) with
      ⟨first, last, start', stop', hSame, hSpread', hLast, hStop',
        hApart⟩
    rcases hSame.unique hLast hSpread hStop with ⟨rfl, rfl⟩
    exact ⟨_, _, hSpread'.standsAt hStop', by omega⟩
  · intro hNe
    have hOne := hSlip hNe
    have hLead : leadLength body ≤ 1 := by
      unfold leadLength
      split <;> omega
    exact ⟨hOne, by omega⟩

/- A record in a module, with an implementation after it. -/
theorem insertion_follows_hosts_module :
    ∃ file m e,
      parse?
          "mod n \x7b #[a] pub struct B; impl B \x7b\x7d \x7d".toList =
        some file ∧
      file.MarkedAt ["a"] [0, 0] m ∧
      m.insertion?
          "mod n \x7b #[a] pub struct B; impl B \x7b\x7d \x7d".toList =
        some e ∧
      e.start = 36 ∧
      ∃ record host first last,
        m.item = .struct record ∧ record.IsHost m.body host ∧
          host.StandsAt
            "mod n \x7b #[a] pub struct B; impl B \x7b\x7d \x7d".toList
            first last ∧
          record.insertionOffset m.body
              "mod n \x7b #[a] pub struct B; impl B \x7b\x7d \x7d".toList =
            last := by
  have hSome :
      ((parse?
          "mod n \x7b #[a] pub struct B; impl B \x7b\x7d \x7d".toList).any
        fun file => (Item.placementAt? file.items [0, 0]).any
          fun p => (MarkedItem.ofPlacement? ["a"] p).any
            fun m => (m.insertion?
                "mod n \x7b #[a] pub struct B; impl B \x7b\x7d \x7d".toList).any
              fun e => e.start == 36) = true := by
    decide +kernel
  simp only [Option.any_eq_true] at hSome
  rcases hSome with
    ⟨file, hParse, p, hAt, m, hFound, e, hInsertion, hStart⟩
  rcases MarkedItem.ofPlacement?_eq_some_iff.mp hFound with
    ⟨hItem, hBody, hMarkers⟩
  have hMarked : file.MarkedAt ["a"] [0, 0] m :=
    ⟨by rw [hAt, hItem, hBody], by rw [hMarkers, hItem]; rfl⟩
  rcases insertion_follows_hosts hParse hMarked hInsertion with
    ⟨record, host, first, last, hRecord, _, _, hHost, hStands, _, _,
      hEnd, _⟩
  exact ⟨file, m, e, hParse, hMarked, hInsertion, eq_of_beq hStart,
    record, host, first, last, hRecord, hHost, hStands,
    hEnd.mpr (Or.inl (by decide))⟩

/-
  After a byte order mark a constructor is put before the
  semicolon of its record.
-/
example :
    ((parse? (byteOrderMark :: "#[a] pub struct B;".toList)).bind
        fun file => (file.markedItems ["a"]).head?.bind fun m =>
          (m.insertion?
            (byteOrderMark :: "#[a] pub struct B;".toList)).map
              (·.start)) =
      some (inBytes (byteOrderMark :: "#[a] pub struct B;".toList)
        18) := by
  decide +kernel

end SourceFile

end Nullary
