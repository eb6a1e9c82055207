import Nullary.Files.Workspace
import Nullary.Json.Decode
import Nullary.Settings.Toml

/-
  Failures of the tool.

  Key definitions include:
    * `Failure`
    * `Failure.message`
    * `Failure.exitCode`
-/

namespace Nullary

/- Why a command fails. -/
inductive Failure where
  | file (cause : FileError)
  | source (path : FilePath)
  | misfit
  | request (cause : Json.DecodeError)
  | settings
  | settingsPresent
  | unset (name : String)
  | rootMissing (root : FilePath)
  | rejected (errors : Nat) (warnings : Nat)

namespace Failure

/- Settings that are malformed or refer to a variable without a value. -/
def ofSettings : SettingsError → Failure
  | .malformed => .settings
  | .unset name => .unset name

/- The wording of a failure. -/
def message : Failure → String
  | .file cause => "IO error: " ++ cause.message
  | .source path => "Parse error in file " ++ path.text
  | .misfit => "An edit does not fit its text"
  | .request cause => "JSON error: " ++ cause.message?.getD "malformed text"
  | .settings => "TOML error"
  | .settingsPresent =>
      "Configuration error: " ++ Settings.fileName ++
        " already exists. Use --force to overwrite."
  | .unset name => "Environment variable not set: " ++ name
  | .rootMissing root => "Workspace scan error: " ++ root.text ++ " does not exist"
  | .rejected errors warnings =>
      "Expansion failed with " ++ toString errors ++ " error(s) and " ++ toString warnings ++
        " warning(s)"

/- The exit code of a failure; work that was given up has its own. -/
def exitCode : Failure → Nat
  | .misfit => 101
  | _ => 1

/- What a step on files gives, or its failure. -/
def ofFiles
    {α : Type} : Except FileError α → Except Failure α
  | .ok value => .ok value
  | .error cause => .error (.file cause)

end Failure

end Nullary
