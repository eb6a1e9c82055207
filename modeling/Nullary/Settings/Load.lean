import Nullary.Environment.VariableFile
import Nullary.Failure

/-
  Settings of a workspace.

  They come from the nearest file of settings: one in the
  working directory, or else above it.  Its placeholders also
  see the variables of the nearest file of variables.

  Key definitions include:
    * `Workspace.withVariables`
    * `Settings.ofFile`
    * `Settings.ofWorkspace`
-/

namespace Nullary

------------------------------------------------------------
-- Variables
------------------------------------------------------------

namespace Workspace

/- The name of a file of variables. -/
def variablesName : String :=
  ".env"

/- The content of the file of variables in a directory. -/
def variablesAt?
    (w : Workspace)
    (names : List String) : Option ByteArray :=
  match w.at? (names ++ [variablesName]) with
  | some (.file content) => some content
  | _ => none

/- An environment with the variables of the nearest file added. -/
def withVariables
    (w : Workspace)
    (e : Environment) : Environment :=
  match w.ancestors.findSome? w.variablesAt? with
  | some content => VariableFile.load e content
  | none => e

/- The place of the nearest entry with the name of a file of settings. -/
def settingsPlace?
    (w : Workspace) : Option (List String) :=
  (w.ancestors.map (· ++ [Settings.fileName])).find? fun names => (w.at? names).isSome

end Workspace

------------------------------------------------------------
-- Settings
------------------------------------------------------------

namespace Settings

/- The settings of a text, or of a file that could not be read. -/
def ofText
    (e : Environment)
    (text : Except FileError String) : Except Failure Settings :=
  match text with
  | .error cause => .error (.file cause)
  | .ok text =>
      match ofToml e text.toList with
      | .error cause => .error (.ofSettings cause)
      | .ok s => .ok s

/- The settings of a file. -/
def ofFile
    (e : Environment)
    (w : Workspace)
    (p : FilePath) : Except Failure Settings :=
  ofText e (w.text p)

/- The settings of a workspace: those of the nearest file, or else the usual ones. -/
def ofWorkspace
    (e : Environment)
    (w : Workspace) : Except Failure Settings :=
  match w.settingsPlace? with
  | some names => ofText (w.withVariables e) (w.textAt names)
  | none => .ok .default

end Settings

end Nullary
