import Nullary.Environment.Placeholder
import Nullary.Settings.Basic
import Nullary.Toml.Parser

/-
  Settings as TOML texts.

  A section may be written as a table, whose missing keys
  take their defaults and whose other keys count for nothing,
  or as an array of the values in the order of the keys.

  Key definitions include:
    * `Settings.ofTable?`
    * `Settings.SettingsError`
    * `Settings.ofToml`
-/

namespace Nullary

------------------------------------------------------------
-- Values
------------------------------------------------------------

namespace Toml.Value

/- A text. -/
def text? : Value → Option String
  | .string text => some text
  | _ => none

/- A truth value. -/
def boolean? : Value → Option Bool
  | .boolean value => some value
  | _ => none

/- A list of texts. -/
def texts? : Value → Option (List String)
  | .array _ elements => elements.mapM text?
  | _ => none

end Toml.Value

/- The value of a key, or its default. -/
def Toml.readKey?
    {α : Type}
    (entries : List (String × Toml.Value))
    (key : String)
    (read? : Toml.Value → Option α)
    (missing : α) : Option α :=
  match Toml.Table.lookup? entries key with
  | none => some missing
  | some value => read? value

------------------------------------------------------------
-- Sections
------------------------------------------------------------

/- The general section; a date or a time is a table without known keys. -/
def GeneralSettings.ofToml? : Toml.Value → Option GeneralSettings
  | .table _ entries => do
      let aliases ← Toml.readKey? entries "marker_aliases" Toml.Value.texts? default.markerAliases
      return ⟨aliases⟩
  | .array _ [] => some .default
  | .array _ (aliases :: _) => do
      return ⟨← aliases.texts?⟩
  | .moment _ => some .default
  | _ => none

/- The section for checking; a date or a time is a table without known keys. -/
def CheckSettings.ofToml? : Toml.Value → Option CheckSettings
  | .table _ entries => do
      let dirs ← Toml.readKey? entries "source_dirs" Toml.Value.texts? default.sourceDirs
      let exclude ← Toml.readKey? entries "exclude" Toml.Value.texts? default.exclude
      let deny ← Toml.readKey? entries "deny_warnings" Toml.Value.boolean? default.denyWarnings
      return ⟨dirs, exclude, deny⟩
  | .array _ (dirs :: exclude :: deny :: _) => do
      return ⟨← dirs.texts?, ← exclude.texts?, ← deny.boolean?⟩
  | .moment _ => some .default
  | _ => none

------------------------------------------------------------
-- Settings
------------------------------------------------------------

/- Why a text gives no settings. -/
inductive SettingsError where
  | malformed
  | unset (name : String)
deriving DecidableEq, Repr

namespace Settings

/- The settings of a table, as they are written. -/
def ofTable?
    (t : Toml.Table) : Option Settings := do
  let general ← Toml.readKey? t.entries "general" GeneralSettings.ofToml? .default
  let check ← Toml.readKey? t.entries "check" CheckSettings.ofToml? .default
  return ⟨general, check⟩

/- The settings of a text, as they are written. -/
def parse?
    (text : List Char) : Option Settings :=
  Toml.Table.parse? text >>= ofTable?

/- A directory with the values of its placeholders put in. -/
def resolveDir
    (e : Environment)
    (dir : String) : Except SettingsError String :=
  match e.substitute dir.toList with
  | .ok text => .ok (String.ofList text)
  | .error name => .error (.unset name)

/- Settings with the placeholders in source directories replaced. -/
def resolve
    (s : Settings)
    (e : Environment) : Except SettingsError Settings := do
  let dirs ← s.check.sourceDirs.mapM (resolveDir e)
  return { s with check := { s.check with sourceDirs := dirs } }

/- The settings of a text in an environment. -/
def ofToml
    (e : Environment)
    (text : List Char) : Except SettingsError Settings :=
  match parse? text with
  | none => .error .malformed
  | some s => s.resolve e

end Settings

end Nullary
