import Nullary.Scan.Basic

/-
  Reports on source files.

  Key definitions include:
    * `FileReport`
    * `ScanReport`
    * `ScanReport.lines`
    * `Scanner.checkFile`
    * `Scanner.scan`
    * `Workspace.siblings?`
-/

namespace Nullary

------------------------------------------------------------
-- Reports
------------------------------------------------------------

/- What was found in one file. -/
structure FileReport where
  path : FilePath
  diagnostics : List (Diagnostic Location)
  expanded : Nat
deriving DecidableEq, Repr

/- A diagnostic on a line of its own, with the file and the place it is about. -/
def Diagnostic.line
    (d : Diagnostic Location)
    (file : FilePath) : String :=
  file.text ++ ":" ++ d.anchor.print ++ ": " ++ d.print

/- The diagnostics of a file as lines. -/
def FileReport.lines
    (r : FileReport) : List String :=
  r.diagnostics.map (·.line r.path)

/- What was found in several files, and the files that are not sources. -/
structure ScanReport where
  files : List FileReport
  skipped : List FilePath
deriving DecidableEq, Repr

namespace ScanReport

/- All diagnostics, file by file. -/
def diagnostics
    (r : ScanReport) : List (Diagnostic Location) :=
  r.files.flatMap (·.diagnostics)

/- All diagnostics as lines. -/
def lines
    (r : ScanReport) : List String :=
  r.files.flatMap (·.lines)

/- The number of expanded items. -/
def expanded
    (r : ScanReport) : Nat :=
  r.files.foldr (fun file count => file.expanded + count) 0

/- The number of errors. -/
def errors
    (r : ScanReport) : Nat :=
  r.diagnostics.countP (·.isError)

/- The number of warnings. -/
def warnings
    (r : ScanReport) : Nat :=
  r.diagnostics.countP (·.isWarning)

/- Put the result for a file before a report. -/
def add
    (path : FilePath)
    (found : Option FileReport)
    (r : ScanReport) : ScanReport :=
  match found with
  | some file => { r with files := file :: r.files }
  | none => { r with skipped := path :: r.skipped }

end ScanReport

------------------------------------------------------------
-- Scanning
------------------------------------------------------------

namespace Scanner

/- The report on a file with a given content, if that is a source text. -/
def report
    (s : Scanner)
    (path : FilePath)
    (content : ByteArray) : Except Failure (Option FileReport) :=
  match String.fromUTF8? content with
  | none => .ok none
  | some text =>
      match Expansion.ofText s.markers text.toList with
      | .ok e => .ok (some ⟨path, e.diagnostics, e.expanded⟩)
      | .error .unparsed => .ok none
      | .error .misfit => .error .misfit

/- The report on a file, if it is a source. -/
def checkFile
    (s : Scanner)
    (w : Workspace)
    (path : FilePath) : Except Failure (Option FileReport) :=
  match w.content path with
  | .error cause => .error (.file cause)
  | .ok content => s.report path content

/- The report on some files. -/
def checkFiles
    (s : Scanner)
    (w : Workspace) : List FilePath → Except Failure ScanReport
  | [] => .ok ⟨[], []⟩
  | path :: rest => do
      let found ← s.checkFile w path
      let r ← s.checkFiles w rest
      return r.add path found

/- The report on all files below the roots. -/
def scan
    (s : Scanner)
    (w : Workspace) : Except Failure ScanReport := do
  s.checkFiles w (← s.collect w)

end Scanner

------------------------------------------------------------
-- Siblings
------------------------------------------------------------

/- The members that stand beside the struct of a name in a file. -/
def Workspace.siblings?
    (w : Workspace)
    (path : FilePath)
    (name : String) : Option (List Member) :=
  match w.text path with
  | .error _ => none
  | .ok text => do
      let file ← SourceFile.parse? text.toList
      Item.siblingMembers? file.items name

end Nullary
