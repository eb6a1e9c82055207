/-
  What is reported about a marked declaration.

  Key definitions include:
    * `Severity`
    * `DiagnosticKind`
    * `DiagnosticKind.severity`
    * `DiagnosticKind.message`
    * `Diagnostic`
    * `Diagnostic.new`
-/

namespace Nullary

------------------------------------------------------------
-- Severity
------------------------------------------------------------

/- How serious a report is. -/
inductive Severity where
  | warning
  | error
deriving DecidableEq, Repr

namespace Severity

/- All severities, in the order in which they are listed to users. -/
def all : List Severity :=
  [.warning, .error]

/- The word for a severity. -/
def name : Severity → String
  | warning => "warning"
  | error => "error"

end Severity

------------------------------------------------------------
-- Kinds
------------------------------------------------------------

/- What can be said against a constructor. -/
inductive DiagnosticKind where
  | ineligibleKind
  | nonPublicType
  | redundantInitialiser
  | constructorNameTaken
deriving DecidableEq, Repr

namespace DiagnosticKind

/- All kinds, in the order in which they are listed to users. -/
def all : List DiagnosticKind :=
  [.ineligibleKind, .nonPublicType, .redundantInitialiser, .constructorNameTaken]

/- The word for a kind. -/
def name : DiagnosticKind → String
  | ineligibleKind => "IneligibleKind"
  | nonPublicType => "NonPublicType"
  | redundantInitialiser => "RedundantInitialiser"
  | constructorNameTaken => "ConstructorNameTaken"

/- A constructor that is there already is only warned about. -/
def severity : DiagnosticKind → Severity
  | redundantInitialiser => .warning
  | _ => .error

/- The text for a kind, given how the marker is written. -/
def message
    (marker : String) : DiagnosticKind → String
  | ineligibleKind => marker ++ " can only be applied to a class or a struct"
  | nonPublicType => marker ++ " can only be applied to a public type"
  | redundantInitialiser => "A public, parameterless parameter already exists"
  | constructorNameTaken =>
      marker ++ " cannot generate `new()`: the type already defines `new`"

end DiagnosticKind

------------------------------------------------------------
-- Diagnostics
------------------------------------------------------------

/- A report, anchored at the place it is about. -/
structure Diagnostic (α : Type) where
  kind : DiagnosticKind
  message : String
  severity : Severity
  anchor : α
deriving DecidableEq, Repr

namespace Diagnostic

variable {α β : Type}

/- The report of a kind about a marker. -/
def new
    (kind : DiagnosticKind)
    (marker : String)
    (anchor : α) : Diagnostic α :=
  ⟨kind, kind.message marker, kind.severity, anchor⟩

/- A report that stops the work. -/
def isError
    (d : Diagnostic α) : Bool :=
  d.severity == .error

/- A report that does not stop the work. -/
def isWarning
    (d : Diagnostic α) : Bool :=
  d.severity == .warning

/- The same report, anchored elsewhere. -/
def mapAnchor
    (f : α → β)
    (d : Diagnostic α) : Diagnostic β :=
  ⟨d.kind, d.message, d.severity, f d.anchor⟩

/- A report as `severity: message`. -/
def print
    (d : Diagnostic α) : String :=
  d.severity.name ++ ": " ++ d.message

end Diagnostic

end Nullary
