import Nullary.Item.Marker

/-
  Settings of the tool.

  Key definitions include:
    * `Settings`
    * `Settings.default`
    * `Settings.markerNames`
    * `Settings.fileName`
-/

namespace Nullary

/- Settings for all commands. -/
structure GeneralSettings where
  markerAliases : List String
deriving DecidableEq, Repr

/- Settings for checking source directories. -/
structure CheckSettings where
  sourceDirs : List String
  exclude : List String
  denyWarnings : Bool
deriving DecidableEq, Repr

/- Settings of the tool. -/
structure Settings where
  general : GeneralSettings
  check : CheckSettings
deriving DecidableEq, Repr

/- Without settings, no other names mark an item. -/
def GeneralSettings.default : GeneralSettings :=
  ⟨[]⟩

/- Without settings, `src` is checked, and `target` is left out. -/
def CheckSettings.default : CheckSettings :=
  ⟨["src"], ["target"], false⟩

namespace Settings

/- The settings that hold if there are none. -/
def default : Settings :=
  ⟨.default, .default⟩

/- The name of a file of settings. -/
def fileName : String :=
  "initialiser.toml"

/- Names with one more, unless it is among them. -/
def addName
    (names : List String)
    (name : String) : List String :=
  if names.contains name then names else names ++ [name]

/- The names that mark an item: the usual one, then the aliases. -/
def markerNames
    (s : Settings) : List String :=
  s.general.markerAliases.foldl addName [markerName]

end Settings

end Nullary
