import Nullary.Proofs.Names
import Nullary.Verdict.Outcome

/-
  Declarations that grow by qualifiers and members.

  What is decided about a declaration of a given kind depends
  on three facts: that it is public, that it has a public
  constructor without parameters, and that the name of the
  generated constructor is taken.  An addition makes such a
  fact hold or leaves it as it is, so the decision only moves
  forward, and the order of the additions does not matter.

  Main declarations:
    * `Addition`
    * `Declaration.build`
    * `Declaration.BroughtBy`
    * `Declaration.BroughtBy.grow_iff`
    * `Declaration.Extends`
    * `Outcome.stage?`
    * `Declaration.decisions_build`
-/

namespace Nullary

------------------------------------------------------------
-- Additions
------------------------------------------------------------

/- What can be added to a declaration. -/
inductive Addition where
  | modifier (token : String)
  | member (member : Member)
deriving DecidableEq, Repr

namespace Addition

/- The addition makes a declaration public. -/
def IsPublic : Addition → Prop
  | modifier token => token = Modifiers.publicToken
  | member _ => False

/- The addition is a member that passes a test. -/
def Passes
    (test : Member → Bool) : Addition → Prop
  | modifier _ => False
  | member found => test found = true

end Addition

namespace Declaration

/- A declaration with one addition. -/
def add
    (d : Declaration) : Addition → Declaration
  | .modifier token => d.withModifier token
  | .member member => d.withMember member

/- A declaration with additions that are made one after the other. -/
def grow
    (d : Declaration)
    (additions : List Addition) : Declaration :=
  additions.foldl add d

/- The declaration that additions make of one with nothing in it. -/
def build
    (name : String)
    (kind : DeclarationKind)
    (additions : List Addition) : Declaration :=
  (new name kind).grow additions

end Declaration

------------------------------------------------------------
-- Facts That Additions Bring About
------------------------------------------------------------

theorem Modifiers.isPublic_insert
    (m : Modifiers)
    (token : String) :
    (m.insert token).isPublic = true ↔
      m.isPublic = true ∨ token = publicToken := by
  have hOne :
      (m.insertAll [token]).isPublic = true ↔
        m.isPublic = true ∨ publicToken ∈ [token] :=
    contains_insertAll
  rw [List.mem_singleton] at hOne
  exact hOne.trans (or_congr_right eq_comm)

namespace Declaration

@[simp] theorem kind_add
    (d : Declaration)
    (a : Addition) :
    (d.add a).kind = d.kind := by
  cases a <;> rfl

/-
  The additions that bring a fact about a declaration about.
  The others leave it as it is.
-/
def BroughtBy
    (Fact : Declaration → Prop)
    (Brings : Addition → Prop) : Prop :=
  ∀ d a, Fact (d.add a) ↔ Fact d ∨ Brings a

theorem isPublic_broughtBy :
    BroughtBy (·.modifiers.isPublic = true) Addition.IsPublic := by
  intro d a
  cases a with
  | modifier token => exact d.modifiers.isPublic_insert token
  | member m => simp [add, withMember, Addition.IsPublic]

theorem any_members_broughtBy
    (test : Member → Bool) :
    BroughtBy (·.members.any test = true) (Addition.Passes test) := by
  intro d a
  cases a with
  | modifier token => simp [add, withModifier, Addition.Passes]
  | member m => simp [add, withMember, Addition.Passes]

@[simp] theorem kind_grow
    (d : Declaration)
    (additions : List Addition) :
    (d.grow additions).kind = d.kind := by
  induction additions generalizing d with
  | nil => rfl
  | cons a rest ih => exact (ih (d.add a)).trans (d.kind_add a)

/-
  After several additions a fact holds if it held before or
  if one of them brings it about.
-/
theorem BroughtBy.grow_iff
    {Fact : Declaration → Prop}
    {Brings : Addition → Prop}
    (hAdd : BroughtBy Fact Brings)
    (d : Declaration)
    (additions : List Addition) :
    Fact (d.grow additions) ↔
      Fact d ∨ ∃ a ∈ additions, Brings a := by
  induction additions generalizing d with
  | nil => simp [grow]
  | cons a rest ih =>
      have hRest := ih (d.add a)
      rw [hAdd, or_assoc] at hRest
      simpa [grow] using hRest

/- Neither the order nor the number of the additions matters. -/
theorem BroughtBy.mono
    {Fact : Declaration → Prop}
    {Brings : Addition → Prop}
    (hAdd : BroughtBy Fact Brings)
    {d : Declaration}
    {additions others : List Addition}
    (hSubset : additions ⊆ others)
    (hFact : Fact (d.grow additions)) :
    Fact (d.grow others) := by
  rw [hAdd.grow_iff] at hFact ⊢
  rcases hFact with hBefore | ⟨a, hMem, hBrings⟩
  · exact Or.inl hBefore
  · exact Or.inr ⟨a, hSubset hMem, hBrings⟩

/-
  What the decision about one declaration rests on, apart
  from its kind, holds of another one too.
-/
structure Extends
    (d e : Declaration) : Prop where
  isPublic :
    d.modifiers.isPublic = true → e.modifiers.isPublic = true
  hasPublicNullary :
    d.hasPublicNullary = true → e.hasPublicNullary = true
  nameTaken :
    constructorNameTaken d.members = true →
      constructorNameTaken e.members = true

theorem extends_of_subset
    (d : Declaration)
    {additions others : List Addition}
    (hSubset : additions ⊆ others) :
    (d.grow additions).Extends (d.grow others) where
  isPublic := isPublic_broughtBy.mono hSubset
  hasPublicNullary :=
    (any_members_broughtBy Member.isPublicNullary).mono hSubset
  nameTaken :=
    (any_members_broughtBy Member.takesConstructorName).mono hSubset

end Declaration

------------------------------------------------------------
-- Stages
------------------------------------------------------------

/- How far a declaration of an eligible kind has come. -/
inductive Stage where
  | nonPublic
  | granted
  | nameTaken
  | redundant
deriving DecidableEq, Repr

/- The place of a stage in the order of stages. -/
def Stage.rank : Stage → Nat
  | nonPublic => 0
  | granted => 1
  | nameTaken => 2
  | redundant => 3

/- The stage that a kind of report belongs to. -/
def DiagnosticKind.stage? : DiagnosticKind → Option Stage
  | ineligibleKind => none
  | nonPublicType => some .nonPublic
  | constructorNameTaken => some .nameTaken
  | redundantInitialiser => some .redundant

/- The stage that an outcome shows; an ineligible kind has none. -/
def Outcome.stage?
    {α : Type}
    (outcome : Outcome α) : Option Stage :=
  match outcome.diagnostic? with
  | none => some .granted
  | some d => d.kind.stage?

namespace Declaration

variable {α : Type}
variable {d e : Declaration}

/- The stage of a declaration, whatever its members are named. -/
def stage
    (d : Declaration) : Stage :=
  if d.modifiers.isPublic then
    if d.hasPublicNullary then .redundant else .granted
  else
    .nonPublic

/- The stage of a declaration where constructors have names. -/
def namedStage
    (d : Declaration) : Stage :=
  if d.stage = .granted ∧ constructorNameTaken d.members then
    .nameTaken
  else
    d.stage

theorem stage?_evaluateWith
    (hEligible : d.kind.isEligible = true)
    (anchor : α)
    (marker : String) :
    (d.evaluateWith anchor marker).stage? = some d.stage := by
  unfold evaluateWith stage
  rw [if_neg (by simp [hEligible])]
  cases d.modifiers.isPublic <;> cases d.hasPublicNullary <;> rfl

theorem stage_ne_nameTaken
    (d : Declaration) :
    d.stage ≠ .nameTaken := by
  unfold stage
  cases d.modifiers.isPublic <;> cases d.hasPublicNullary <;> decide

/- A constructor that would be the second of its name is refused. -/
theorem evaluateNamed_of_taken
    {anchor : α}
    {fragments : List Fragment}
    (hGranted : d.evaluate anchor = .synthesized fragments)
    (hTaken : constructorNameTaken d.members = true) :
    d.evaluateNamed anchor =
      .rejected (.new .constructorNameTaken defaultMarker anchor) := by
  simp [evaluateNamed, hGranted, hTaken]

/- In all other cases the names of members do not matter. -/
theorem evaluateNamed_eq_evaluate_iff
    (d : Declaration)
    (anchor : α) :
    d.evaluateNamed anchor = d.evaluate anchor ↔
      ¬ ((∃ fragments,
            d.evaluate anchor = .synthesized fragments) ∧
          constructorNameTaken d.members = true) := by
  cases hOutcome : d.evaluate anchor with
  | synthesized fragments =>
      cases hTaken : constructorNameTaken d.members <;>
        simp [evaluateNamed, hOutcome, hTaken]
  | redundant report => simp [evaluateNamed, hOutcome]
  | rejected report => simp [evaluateNamed, hOutcome]

theorem stage?_evaluateNamed
    (hEligible : d.kind.isEligible = true)
    (anchor : α) :
    (d.evaluateNamed anchor).stage? = some d.namedStage := by
  unfold evaluateNamed evaluate evaluateWith namedStage stage
  rw [if_neg (by simp [hEligible])]
  cases d.modifiers.isPublic <;> cases d.hasPublicNullary <;>
    cases constructorNameTaken d.members <;> rfl

/- A declaration with more facts has come at least as far. -/
theorem Extends.rank_stage_le
    (hExtends : d.Extends e) :
    d.stage.rank ≤ e.stage.rank := by
  have hPublic := hExtends.isPublic
  have hNullary := hExtends.hasPublicNullary
  unfold stage
  revert hPublic hNullary
  cases d.modifiers.isPublic <;> cases e.modifiers.isPublic <;>
    cases d.hasPublicNullary <;> cases e.hasPublicNullary <;>
    decide

theorem Extends.rank_namedStage_le
    (hExtends : d.Extends e) :
    d.namedStage.rank ≤ e.namedStage.rank := by
  have hTaken := hExtends.nameTaken
  have hRank := hExtends.rank_stage_le
  unfold namedStage
  revert hTaken hRank
  cases d.stage <;> cases e.stage <;>
    cases constructorNameTaken d.members <;>
    cases constructorNameTaken e.members <;>
    decide

/-
  Declarations of one kind that extend each other are decided
  alike.
-/
theorem Extends.evaluateWith_eq
    (hKind : d.kind = e.kind)
    (hForth : d.Extends e)
    (hBack : e.Extends d)
    (anchor : α)
    (marker : String) :
    d.evaluateWith anchor marker = e.evaluateWith anchor marker := by
  have hPublic : d.modifiers.isPublic = e.modifiers.isPublic :=
    Bool.eq_iff_iff.mpr ⟨hForth.isPublic, hBack.isPublic⟩
  have hNullary : d.hasPublicNullary = e.hasPublicNullary :=
    Bool.eq_iff_iff.mpr
      ⟨hForth.hasPublicNullary, hBack.hasPublicNullary⟩
  unfold evaluateWith
  rw [hKind, hPublic, hNullary]

theorem Extends.evaluateNamed_eq
    (hKind : d.kind = e.kind)
    (hForth : d.Extends e)
    (hBack : e.Extends d)
    (anchor : α) :
    d.evaluateNamed anchor = e.evaluateNamed anchor := by
  have hTaken :
      constructorNameTaken d.members =
        constructorNameTaken e.members :=
    Bool.eq_iff_iff.mpr ⟨hForth.nameTaken, hBack.nameTaken⟩
  unfold evaluateNamed evaluate
  rw [hForth.evaluateWith_eq hKind hBack, hTaken]

------------------------------------------------------------
-- Decisions
------------------------------------------------------------

theorem evaluateWith_of_not_eligible
    (hNot : d.kind.isEligible = false)
    (anchor : α)
    (marker : String) :
    d.evaluateWith anchor marker =
      .rejected (.new .ineligibleKind marker anchor) := by
  unfold evaluateWith
  rw [if_pos (by simp [hNot])]

theorem evaluateNamed_of_not_eligible
    (hNot : d.kind.isEligible = false)
    (anchor : α) :
    d.evaluateNamed anchor =
      .rejected (.new .ineligibleKind defaultMarker anchor) := by
  unfold evaluateNamed evaluate
  rw [evaluateWith_of_not_eligible hNot]

/- A constructor or a method has the name of the generated constructor. -/
def DeclaresNew
    (d : Declaration) : Prop :=
  (∃ modifiers parameters,
      Member.initializer (some Member.constructorName) modifiers
        parameters ∈ d.members) ∨
    ∃ modifiers,
      Member.method Member.constructorName modifiers ∈ d.members

theorem constructorNameTaken_iff
    (d : Declaration) :
    constructorNameTaken d.members = true ↔ d.DeclaresNew := by
  unfold constructorNameTaken DeclaresNew
  rw [List.any_eq_true]
  constructor
  · rintro ⟨member, hMem, hTakes⟩
    cases member with
    | initializer name modifiers parameters =>
        have hName : name = some Member.constructorName :=
          beq_iff_eq.mp hTakes
        exact Or.inl ⟨modifiers, parameters, hName ▸ hMem⟩
    | method name modifiers =>
        have hName : name = Member.constructorName :=
          beq_iff_eq.mp hTakes
        exact Or.inr ⟨modifiers, hName ▸ hMem⟩
    | property name => cases hTakes
    | other => cases hTakes
  · rintro (⟨modifiers, parameters, hMem⟩ | ⟨modifiers, hMem⟩)
    · exact ⟨_, hMem, rfl⟩
    · exact ⟨_, hMem, rfl⟩

/-
  The decision about a declaration of an eligible kind only
  moves forward while it grows, and it is the same for all
  orders and repetitions of the additions.  One of another
  kind is always rejected.  Names matter only where a
  constructor would be added to a declaration with a `new`.
-/
theorem decisions_build
    (name : String)
    (kind : DeclarationKind)
    (anchor : α)
    (marker : String)
    (additions : List Addition) :
    (kind.isEligible = true →
      ∀ more,
        (∃ before after,
          ((build name kind additions).evaluateWith anchor
              marker).stage? = some before ∧
            ((build name kind (additions ++ more)).evaluateWith
              anchor marker).stage? = some after ∧
            before ≠ .nameTaken ∧ after ≠ .nameTaken ∧
            before.rank ≤ after.rank) ∧
          ∃ before after,
            ((build name kind additions).evaluateNamed
                anchor).stage? = some before ∧
              ((build name kind (additions ++ more)).evaluateNamed
                anchor).stage? = some after ∧
              before.rank ≤ after.rank) ∧
      (∀ others,
        (∀ a, a ∈ additions ↔ a ∈ others) →
        (build name kind additions).evaluateWith anchor marker =
            (build name kind others).evaluateWith anchor marker ∧
          (build name kind additions).evaluateNamed anchor =
            (build name kind others).evaluateNamed anchor) ∧
      (kind.isEligible = false →
        (build name kind additions).evaluateWith anchor marker =
            .rejected (.new .ineligibleKind marker anchor) ∧
          (build name kind additions).evaluateNamed anchor =
            .rejected (.new .ineligibleKind defaultMarker anchor)) ∧
      ((build name kind additions).evaluateNamed anchor =
          (build name kind additions).evaluate anchor ↔
        ¬ ((∃ fragments,
              (build name kind additions).evaluate anchor =
                .synthesized fragments) ∧
            (build name kind additions).DeclaresNew)) ∧
      ∀ fragments,
        (build name kind additions).evaluate anchor =
            .synthesized fragments →
        (build name kind additions).DeclaresNew →
        (build name kind additions).evaluateNamed anchor =
          .rejected
            (.new .constructorNameTaken defaultMarker anchor) := by
  have hKind (others : List Addition) :
      (build name kind others).kind = kind :=
    (new name kind).kind_grow others
  refine ⟨?_, ?_, ?_, ?_, ?_⟩
  · intro hEligible more
    have hExtends :
        (build name kind additions).Extends
          (build name kind (additions ++ more)) :=
      (new name kind).extends_of_subset
        (List.subset_append_left additions more)
    have hBefore :
        (build name kind additions).kind.isEligible = true := by
      rw [hKind, hEligible]
    have hAfter :
        (build name kind (additions ++ more)).kind.isEligible =
          true := by
      rw [hKind, hEligible]
    constructor
    · exact ⟨_, _, stage?_evaluateWith hBefore anchor marker,
        stage?_evaluateWith hAfter anchor marker,
        stage_ne_nameTaken _, stage_ne_nameTaken _,
        hExtends.rank_stage_le⟩
    · exact ⟨_, _, stage?_evaluateNamed hBefore anchor,
        stage?_evaluateNamed hAfter anchor,
        hExtends.rank_namedStage_le⟩
  · intro others hSame
    have hSameKind :
        (build name kind additions).kind =
          (build name kind others).kind := by
      rw [hKind, hKind]
    have hForth :=
      (new name kind).extends_of_subset fun a => (hSame a).mp
    have hBack :=
      (new name kind).extends_of_subset fun a => (hSame a).mpr
    exact ⟨hForth.evaluateWith_eq hSameKind hBack anchor marker,
      hForth.evaluateNamed_eq hSameKind hBack anchor⟩
  · intro hNot
    have hNotEligible :
        (build name kind additions).kind.isEligible = false := by
      rw [hKind, hNot]
    exact ⟨evaluateWith_of_not_eligible hNotEligible anchor marker,
      evaluateNamed_of_not_eligible hNotEligible anchor⟩
  · rw [evaluateNamed_eq_evaluate_iff, constructorNameTaken_iff]
  · intro fragments hGranted hNew
    exact evaluateNamed_of_taken hGranted
      ((constructorNameTaken_iff _).mpr hNew)

/-
  A struct that has a method `new` when it becomes public, and
  then a constructor; the same with the qualifier repeated;
  and an enumeration.
-/
theorem decisions_build_method_new :
    (DeclarationKind.struct.isEligible = true ∧
      ∃ before after,
        ((build "A" .struct
            [.member (.method "new" .empty),
              .modifier "public"]).evaluateNamed ()).stage? =
          some before ∧
        ((build "A" .struct
            [.member (.method "new" .empty), .modifier "public",
              .member (.initializer none ⟨["public"]⟩
                [])]).evaluateNamed ()).stage? = some after ∧
        before.rank ≤ after.rank) ∧
      (build "A" .struct
          [.member (.method "new" .empty),
            .modifier "public"]).evaluateNamed () =
        (build "A" .struct
          [.modifier "public", .member (.method "new" .empty),
            .modifier "public"]).evaluateNamed () ∧
      DeclarationKind.enum.isEligible = false ∧
      (build "A" .enum [.modifier "public"]).evaluateNamed () =
        .rejected (.new .ineligibleKind defaultMarker ()) ∧
      (build "A" .struct
          [.member (.method "new" .empty),
            .modifier "public"]).evaluateNamed () =
        .rejected (.new .constructorNameTaken defaultMarker ()) := by
  rcases decisions_build "A" .struct () defaultMarker
      [.member (.method "new" .empty), .modifier "public"] with
    ⟨hForward, hSame, _, _, hTaken⟩
  rcases decisions_build "A" .enum () defaultMarker
      [.modifier "public"] with
    ⟨_, _, hRejected, _⟩
  have hNew :
      (build "A" .struct [.member (.method "new" .empty),
        .modifier "public"]).DeclaresNew :=
    Or.inr ⟨.empty, by decide⟩
  refine ⟨⟨rfl, ?_⟩, ?_, rfl, (hRejected rfl).2,
    hTaken [.publicInitializer] (by decide) hNew⟩
  · exact (hForward rfl
      [.member (.initializer none ⟨["public"]⟩ [])]).2
  · exact (hSame
      [.modifier "public", .member (.method "new" .empty),
        .modifier "public"] (by simp)).2

end Declaration

end Nullary
