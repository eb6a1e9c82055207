import Nullary.Declaration.Basic
import Nullary.Verdict.Diagnostic

/-
  The decision whether a declaration is given a constructor.

  The rules are tried in a fixed order: the kind of the
  declaration, its visibility, and the constructors that it
  has already.  If none of them objects, one public
  constructor without parameters is synthesized.

  Key definitions include:
    * `Outcome`
    * `Declaration.evaluateWith`
    * `Declaration.evaluate`
    * `Declaration.evaluateNamed`
-/

namespace Nullary

------------------------------------------------------------
-- Outcomes
------------------------------------------------------------

/- What comes of a marked declaration. -/
inductive Outcome (α : Type) where
  | synthesized (fragments : List Fragment)
  | redundant (diagnostic : Diagnostic α)
  | rejected (diagnostic : Diagnostic α)
deriving DecidableEq, Repr

namespace Outcome

variable {α β : Type}

/- The constructors to add. -/
def fragments : Outcome α → List Fragment
  | synthesized fragments => fragments
  | _ => []

/- The report, if there is one. -/
def diagnostic? : Outcome α → Option (Diagnostic α)
  | synthesized _ => none
  | redundant d => some d
  | rejected d => some d

/- The declaration was rejected. -/
def isFatal : Outcome α → Bool
  | rejected _ => true
  | _ => false

/- The constructors to add, or the report of a rejection. -/
def toExcept : Outcome α → Except (Diagnostic α) (List Fragment)
  | synthesized fragments => .ok fragments
  | redundant _ => .ok []
  | rejected d => .error d

/- The same outcome, anchored elsewhere. -/
def mapAnchor
    (f : α → β) : Outcome α → Outcome β
  | synthesized fragments => .synthesized fragments
  | redundant d => .redundant (d.mapAnchor f)
  | rejected d => .rejected (d.mapAnchor f)

end Outcome

------------------------------------------------------------
-- Evaluation
------------------------------------------------------------

/- How the marker is written in reports unless said otherwise. -/
def defaultMarker : String :=
  "#[public_initialiser]"

namespace Declaration

variable {α : Type}

/- Decide about a declaration, with the marker written in a given way. -/
def evaluateWith
    (d : Declaration)
    (anchor : α)
    (marker : String) : Outcome α :=
  if !d.kind.isEligible then
    .rejected (.new .ineligibleKind marker anchor)
  else if !d.modifiers.isPublic then
    .rejected (.new .nonPublicType marker anchor)
  else if d.hasPublicNullary then
    .redundant (.new .redundantInitialiser marker anchor)
  else
    .synthesized [.publicInitializer]

/- Decide about a declaration. -/
def evaluate
    (d : Declaration)
    (anchor : α) : Outcome α :=
  d.evaluateWith anchor defaultMarker

/-
  Decide about a declaration in a language where constructors
  are functions with a name: a second function with the name
  of the generated one is an error.
-/
def evaluateNamed
    (d : Declaration)
    (anchor : α) : Outcome α :=
  match d.evaluate anchor with
  | .synthesized fragments =>
      if constructorNameTaken d.members then
        .rejected (.new .constructorNameTaken defaultMarker anchor)
      else
        .synthesized fragments
  | outcome => outcome

end Declaration

end Nullary
