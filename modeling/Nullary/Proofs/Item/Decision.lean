import Nullary.Constructor.Attribute

/-
  What decides whether a marked item is given a constructor,
  in terms of the functions that are written next to it.

  A record is given one if it is public and if none of its
  inherent implementations in the same body declares a public
  constructor without parameters or a function named `new`.

  Main declarations:
    * `ImplMember.IsConstructorOf`
    * `ImplMember.IsNew`
    * `Item.Implements`
    * `Item.withAttributes`
    * `Item.objection?`
    * `Item.outcome_eq`
-/

namespace Nullary

------------------------------------------------------------
-- Functions of Implementations
------------------------------------------------------------

namespace ImplMember

/-
  A public function without parameters whose result is the
  named type.
-/
def IsConstructorOf
    (name : String) : ImplMember → Prop
  | function visibility signature =>
      visibility.scope = .everywhere ∧
        signature.arguments = [] ∧
        (signature.result.bind Ty.name? = some "Self" ∨
          signature.result.bind Ty.name? = some name)
  | other => False

/- A function with the name of the generated constructor. -/
def IsNew : ImplMember → Prop
  | function _ signature =>
      signature.name = Member.constructorName
  | other => False

instance
    (name : String) :
    DecidablePred (IsConstructorOf name)
  | function _ _ => inferInstanceAs (Decidable (_ ∧ _ ∧ _))
  | other => inferInstanceAs (Decidable False)

instance : DecidablePred IsNew
  | function _ _ => inferInstanceAs (Decidable (_ = _))
  | other => inferInstanceAs (Decidable False)

end ImplMember

theorem Visibility.isPublic_modifiers
    (visibility : Visibility) :
    visibility.modifiers.isPublic = true ↔
      visibility.scope = .everywhere := by
  rcases visibility with ⟨scope, tokens⟩
  cases scope <;> simp [modifiers] <;> decide

theorem Signature.returnsSelf_eq_true_iff
    (signature : Signature)
    (name : String) :
    signature.returnsSelf name = true ↔
      signature.result.bind Ty.name? = some "Self" ∨
        signature.result.bind Ty.name? = some name := by
  unfold returnsSelf
  cases signature.result with
  | none => simp
  | some type => cases hName : type.name? <;> simp [hName]

/- Without parameters there is no receiver among them. -/
theorem Signature.arguments_eq_nil_iff
    (signature : Signature) :
    signature.arguments = [] ↔
      signature.hasReceiver = false ∧
        signature.arguments.filterMap
          Argument.parameter? = [] := by
  unfold hasReceiver
  cases signature.arguments with
  | nil => simp
  | cons argument rest =>
      cases argument <;> simp [Argument.parameter?]

namespace ImplMember

theorem isPublicNullary_member
    (name : String)
    (member : ImplMember) :
    (member.member name).isPublicNullary = true ↔
      member.IsConstructorOf name := by
  cases member with
  | other =>
      simp [ImplMember.member, Member.isPublicNullary,
        IsConstructorOf]
  | function visibility signature =>
      simp only [ImplMember.member, Signature.member,
        IsConstructorOf]
      rw [← Visibility.isPublic_modifiers,
        signature.arguments_eq_nil_iff,
        ← signature.returnsSelf_eq_true_iff]
      split
      · next hSelf =>
          rw [Bool.and_eq_true, Bool.not_eq_true'] at hSelf
          simp [Member.isPublicNullary, hSelf]
      · next hSelf =>
          rw [Bool.and_eq_true, Bool.not_eq_true'] at hSelf
          constructor
          · intro hFalse
            cases hFalse
          · rintro ⟨_, ⟨hReceiver, _⟩, hReturns⟩
            exact absurd ⟨hReceiver, hReturns⟩ hSelf

theorem takesConstructorName_member
    (name : String)
    (member : ImplMember) :
    (member.member name).takesConstructorName = true ↔
      member.IsNew := by
  cases member with
  | other =>
      simp [ImplMember.member, Member.takesConstructorName,
        IsNew]
  | function visibility signature =>
      simp only [ImplMember.member, Signature.member, IsNew]
      split <;> simp [Member.takesConstructorName]

end ImplMember

------------------------------------------------------------
-- Members next to a Record
------------------------------------------------------------

namespace Item

/-
  An inherent implementation of the named type in the body
  has a member with the property.
-/
def Implements
    (body : List Item)
    (name : String)
    (property : ImplMember → Prop) : Prop :=
  ∃ implementation, Item.impl implementation ∈ body ∧
    implementation.ofTrait = false ∧
    implementation.self.name? = some name ∧
    ∃ member ∈ implementation.members, property member

theorem inherentImpl?_eq_some_iff
    {name : String}
    {item : Item}
    {implementation : ImplItem} :
    inherentImpl? name item = some implementation ↔
      item = .impl implementation ∧
        implementation.ofTrait = false ∧
        implementation.self.name? = some name := by
  cases item with
  | impl found =>
      simp only [inherentImpl?, ImplItem.isInherentFor,
        Bool.and_eq_true, Bool.not_eq_true', beq_iff_eq,
        Option.ite_none_right_eq_some, Item.impl.injEq,
        Option.some.injEq]
      constructor
      · rintro ⟨⟨hTrait, hName⟩, rfl⟩
        exact ⟨rfl, hTrait, hName⟩
      · rintro ⟨rfl, hTrait, hName⟩
        exact ⟨⟨hTrait, hName⟩, rfl⟩
  | _ => simp [inherentImpl?]

instance
    (body : List Item)
    (name : String)
    (property : ImplMember → Prop)
    [DecidablePred property] :
    Decidable (Implements body name property) :=
  decidable_of_iff
    (∃ implementation ∈ body.filterMap (inherentImpl? name),
      ∃ member ∈ implementation.members, property member)
    (by
      simp only [Implements, List.mem_filterMap,
        inherentImpl?_eq_some_iff]
      constructor
      · rintro ⟨implementation, ⟨_, hItem, rfl, hInherent⟩,
          hMember⟩
        exact ⟨implementation, hItem, hInherent.1,
          hInherent.2, hMember⟩
      · rintro ⟨implementation, hItem, hTrait, hName, hMember⟩
        exact ⟨implementation,
          ⟨_, hItem, rfl, hTrait, hName⟩, hMember⟩)

/-
  A test of members holds of a member next to a record if it
  holds of what an implementation declares.
-/
theorem any_inherentMembers
    {test : Member → Bool}
    {property : ImplMember → Prop}
    {name : String}
    (hTest :
      ∀ member : ImplMember,
        test (member.member name) = true ↔ property member)
    (body : List Item) :
    (inherentMembers body name).any test = true ↔
      Implements body name property := by
  unfold inherentMembers Implements ImplItem.membersOf
  simp only [List.any_eq_true, List.mem_flatMap,
    List.mem_filterMap, List.mem_map,
    inherentImpl?_eq_some_iff]
  constructor
  · rintro ⟨_, ⟨implementation,
      ⟨_, hItem, rfl, hTrait, hName⟩,
      member, hMember, rfl⟩, hHolds⟩
    exact ⟨implementation, hItem, hTrait, hName, member,
      hMember, (hTest member).mp hHolds⟩
  · rintro ⟨implementation, hItem, hTrait, hName, member,
      hMember, hProperty⟩
    exact ⟨_, ⟨implementation,
      ⟨_, hItem, rfl, hTrait, hName⟩, member, hMember, rfl⟩,
      (hTest member).mpr hProperty⟩

end Item

/- The fields of a record are no constructors. -/
theorem Fields.any_members
    {test : Member → Bool}
    (hTest : ∀ name, test (.property name) = false)
    (fields : Fields) :
    fields.members.any test = false := by
  cases fields with
  | named names => simp [members, hTest]
  | positional count => simp [members, hTest]
  | unit => rfl

------------------------------------------------------------
-- Items with Other Attributes
------------------------------------------------------------

namespace Item

/- An item with other attributes and the tokens that go with them. -/
def withAttributes
    (attributes : List Attribute)
    (tokens : Tokens) : Item → Item
  | struct record =>
      .struct { record with attributes := attributes, tokens := tokens }
  | enum _ visibility name variants _ =>
      .enum attributes visibility name variants tokens
  | union _ visibility name fields _ =>
      .union attributes visibility name fields tokens
  | trait _ visibility unsafety name members _ =>
      .trait attributes visibility unsafety name members tokens
  | impl implementation =>
      .impl { implementation with
        attributes := attributes, tokens := tokens }
  | module _ content _ => .module attributes content tokens
  | marked _ _ => .marked attributes tokens
  | bare _ => .bare tokens

/- With its own attributes it is the same item. -/
theorem withAttributes_self
    (item : Item) :
    item.withAttributes item.attributes item.tokens = item := by
  cases item <;> rfl

end Item

------------------------------------------------------------
-- Outcomes
------------------------------------------------------------

namespace Item

/-
  What can be said against a constructor for an item of a
  body.  Of several objections the first one counts.
-/
def objection?
    (body : List Item) : Item → Option DiagnosticKind
  | struct record =>
      if record.visibility.scope ≠ .everywhere then
        some .nonPublicType
      else if Implements body record.name
          (ImplMember.IsConstructorOf record.name) then
        some .redundantInitialiser
      else if Implements body record.name ImplMember.IsNew then
        some .constructorNameTaken
      else
        none
  | _ => some .ineligibleKind

end Item

/- When nothing can be said against a constructor for a record. -/
theorem Item.objection?_struct_eq_none_iff
    {body : List Item}
    {record : StructItem} :
    (Item.struct record).objection? body = none ↔
      record.visibility.scope = .everywhere ∧
        ¬ Item.Implements body record.name
          (ImplMember.IsConstructorOf record.name) ∧
        ¬ Item.Implements body record.name
          ImplMember.IsNew := by
  simp only [objection?]
  split
  · simp_all
  · split
    · simp_all
    · split <;> simp_all

/- The outcome that goes with an objection. -/
def Outcome.ofObjection
    {α : Type}
    (anchor : α) : Option DiagnosticKind → Outcome α
  | none => .synthesized [.publicInitializer]
  | some .redundantInitialiser =>
      .redundant
        (.new .redundantInitialiser defaultMarker anchor)
  | some kind => .rejected (.new kind defaultMarker anchor)

theorem Outcome.ofObjection_eq_synthesized_iff
    {α : Type}
    {anchor : α}
    {objection : Option DiagnosticKind}
    {fragments : List Fragment} :
    ofObjection anchor objection = .synthesized fragments ↔
      objection = none ∧ fragments = [.publicInitializer] := by
  cases objection with
  | none => simp [ofObjection, eq_comm]
  | some kind => cases kind <;> simp [ofObjection]

namespace Item

variable {α : Type}

/-
  What comes of a record is decided by what is written next
  to it.
-/
theorem outcome_struct
    (record : StructItem)
    (body : List Item)
    (anchor : α) :
    (struct record).outcome (inherentMembers body) anchor =
      .ofObjection anchor ((struct record).objection? body) := by
  have hPublic :=
    Visibility.isPublic_modifiers record.visibility
  have hNullary :=
    any_inherentMembers
      (ImplMember.isPublicNullary_member record.name) body
  have hTaken :=
    any_inherentMembers
      (ImplMember.takesConstructorName_member record.name) body
  have hFields :=
    Fields.any_members
      (fun name => rfl : ∀ name,
        Member.isPublicNullary (.property name) = false)
      record.fields
  have hFields' :=
    Fields.any_members
      (fun name => rfl : ∀ name,
        Member.takesConstructorName (.property name) = false)
      record.fields
  simp only [outcome, declaration?, StructItem.declaration,
    Declaration.withMembers, Declaration.evaluateNamed,
    Declaration.evaluate, Declaration.evaluateWith,
    Declaration.hasPublicNullary,
    Declaration.constructorNameTaken, List.any_append,
    hFields, hFields', Bool.false_or,
    DeclarationKind.isEligible, objection?, ne_eq, ← hPublic,
    ← hNullary, ← hTaken]
  cases record.visibility.modifiers.isPublic with
  | false => rfl
  | true =>
      cases (inherentMembers body record.name).any
          Member.isPublicNullary with
      | true => rfl
      | false =>
          cases (inherentMembers body record.name).any
              Member.takesConstructorName <;> rfl

/- Every outcome is that of the first objection. -/
theorem outcome_eq
    (item : Item)
    (body : List Item)
    (anchor : α) :
    item.outcome (inherentMembers body) anchor =
      .ofObjection anchor (item.objection? body) := by
  cases item with
  | struct record => exact outcome_struct record body anchor
  | _ => rfl

end Item

end Nullary
