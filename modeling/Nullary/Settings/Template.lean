/-
  The text of a new file of settings.

  Key definitions include:
    * `Settings.template`
-/

namespace Nullary

namespace Settings

/- The lines of a new file of settings, which says what holds without it. -/
def templateLines : List String :=
  ["# Public initialiser configuration",
    "",
    "[general]",
    "# Extra attribute names treated as #[public_initialiser], e.g. when the macro",
    "# is re-exported under another name",
    "marker_aliases = []",
    "",
    "[check]",
    "# Directories scanned by `initialiser check` when no path is given.",
    "# Supports $\x7bVAR\x7d and $\x7bVAR:-default\x7d",
    "source_dirs = [\"src\"]",
    "",
    "# Directory names skipped while scanning",
    "exclude = [\"target\"]",
    "",
    "# Fail when a marked type already has a public, parameterless constructor",
    "deny_warnings = false"]

/- The text of a new file of settings. -/
def template : String :=
  String.join (templateLines.map (· ++ "\n"))

end Settings

end Nullary
