import Nullary.Command.Arguments
import Nullary.Scan.Report
import Nullary.Settings.Load
import Nullary.Settings.Template
import Nullary.Verdict.Request

/-
  What commands do.

  Key definitions include:
    * `Effect`
    * `Workspace.answerRequest`
    * `Workspace.expandFile`
    * `Workspace.checkSources`
    * `Workspace.writeSettings`
    * `Invocation.run`
-/

namespace Nullary

------------------------------------------------------------
-- Effects
------------------------------------------------------------

/-
  What a command leaves behind: whether it fails, what it
  writes to its output and to the lines for diagnostics, and
  the files.
-/
structure Effect where
  failure : Option Failure
  output : String
  lines : List String
  workspace : Workspace

namespace Effect

/- The command fails and changes nothing. -/
def fail
    (w : Workspace)
    (lines : List String)
    (failure : Failure) : Effect :=
  ⟨some failure, "", lines, w⟩

/- The command succeeds and changes no file. -/
def done
    (w : Workspace)
    (lines : List String)
    (output : String) : Effect :=
  ⟨none, output, lines, w⟩

/- The command ends with the writing of a file. -/
def write
    (w : Workspace)
    (lines : List String)
    (p : FilePath)
    (text : String) : Effect :=
  match w.write p text.toUTF8 with
  | .ok written => ⟨none, "", lines, written⟩
  | .error cause => fail w lines (.file cause)

end Effect

------------------------------------------------------------
-- Commands
------------------------------------------------------------

namespace Workspace

/- Answer a request, from a file or from the input. -/
def answerRequest
    (w : Workspace)
    (input : ByteArray)
    (file : Option FilePath) : Effect :=
  let text :=
    match file with
    | some path => w.text path
    | none => FileTree.decode input
  match text with
  | .error cause => .fail w [] (.file cause)
  | .ok text =>
      match Request.answer text.toList with
      | .error cause => .fail w [] (.request cause)
      | .ok answer => .done w [] (answer ++ "\n")

/- Write an expanded text to a file or to the output, unless it has errors. -/
def deliver
    (w : Workspace)
    (file : FilePath)
    (output : Option FilePath)
    (e : Expansion) : Effect :=
  let lines := e.diagnostics.map (·.line file)
  let text := String.ofList e.source
  if e.hasErrors then
    .fail w lines (.rejected e.errors e.warnings)
  else
    match output with
    | some path => .write w lines path text
    | none => .done w lines text

/- Expand a file. -/
def expandFile
    (w : Workspace)
    (s : Settings)
    (file : FilePath)
    (output : Option FilePath) : Effect :=
  match w.text file with
  | .error cause => .fail w [] (.file cause)
  | .ok text =>
      match Expansion.ofText s.markerNames text.toList with
      | .ok e => w.deliver file output e
      | .error .unparsed => .fail w [] (.source file)
      | .error .misfit => .fail w [] .misfit

/- Check source files. -/
def checkSources
    (w : Workspace)
    (s : Settings)
    (paths : List FilePath)
    (denyWarnings : Bool) : Effect :=
  match (Scanner.forPaths s paths).scan w with
  | .error failure => .fail w [] failure
  | .ok r =>
      if r.errors > 0 || ((denyWarnings || s.check.denyWarnings) && r.warnings > 0) then
        .fail w r.lines (.rejected r.errors r.warnings)
      else
        .done w r.lines ""

/- The file of settings in the working directory. -/
def settingsPath : FilePath :=
  ⟨"./" ++ Settings.fileName⟩

/- Write a file of settings, over another one only by force. -/
def writeSettings
    (w : Workspace)
    (force : Bool) : Effect :=
  if w.contains settingsPath && !force then
    .fail w [] .settingsPresent
  else
    .write w [] settingsPath Settings.template

end Workspace

------------------------------------------------------------
-- Invocations
------------------------------------------------------------

namespace Invocation

/- The settings of an invocation. -/
def settings
    (i : Invocation)
    (e : Environment)
    (w : Workspace) : Except Failure Settings :=
  match i.config with
  | some path => Settings.ofFile e w path
  | none => Settings.ofWorkspace e w

/- Go on with the settings of an invocation. -/
def withSettings
    (i : Invocation)
    (e : Environment)
    (w : Workspace)
    (next : Settings → Effect) : Effect :=
  match i.settings e w with
  | .error failure => .fail w [] failure
  | .ok s => next s

/- Run a command. -/
def run
    (i : Invocation)
    (e : Environment)
    (input : ByteArray)
    (w : Workspace) : Effect :=
  match i.command with
  | .evaluate file => w.answerRequest input file
  | .expand file output => i.withSettings e w fun s => w.expandFile s file output
  | .check paths denyWarnings => i.withSettings e w fun s => w.checkSources s paths denyWarnings
  | .init force => w.writeSettings force

/- The file that a command may write. -/
def target?
    (i : Invocation) : Option FilePath :=
  match i.command with
  | .expand _ output => output
  | .init _ => some Workspace.settingsPath
  | _ => none

end Invocation

end Nullary
