import Nullary.Command.Run

/-
  The command line.

  A run reads the files that its command may look at into a
  workspace, runs the command on it, and then writes what the
  command has printed and the one file it may have changed.

  Key definitions include:
    * `Session.environment`
    * `Session.gather`
    * `Session.finish`
-/

namespace Nullary

namespace Session

------------------------------------------------------------
-- The Environment
------------------------------------------------------------

/- The variable that a record of the form `NAME=value` sets. -/
def variableOf?
    (record : List UInt8) : Option (String × String) := do
  let text ← String.fromUTF8? ⟨record.toArray⟩
  match text.toList.dropWhile (· != '=') with
  | '=' :: value => some (String.ofList (text.toList.takeWhile (· != '=')), String.ofList value)
  | _ => none

/- The variables that the system has given to this run. -/
def environment : IO Environment := do
  try
    let records ← IO.FS.readBinFile "/proc/self/environ"
    return ⟨(records.toList.splitOn 0).filterMap variableOf?⟩
  catch _ =>
    return .empty

------------------------------------------------------------
-- Files
------------------------------------------------------------

/-
  The source files of a directory, except in the directories
  that a scanner leaves out.  Links are not followed.
-/
partial def sourcesOf
    (s : Scanner)
    (directory : String) : IO FileTree := do
  let mut entries := []
  for entry in ← (← IO.FS.realPath directory).readDir do
    let path := entry.path.toString
    match (← entry.path.symlinkMetadata).type with
    | .dir =>
        if !s.leavesOut entry.fileName then
          entries := (entry.fileName, ← sourcesOf s path) :: entries
    | .file =>
        if FilePath.isSource ⟨path⟩ then
          entries := (entry.fileName, .file (← IO.FS.readBinFile path)) :: entries
    | _ => pure ()
  return .directory entries

/- A directory of which only its being there matters. -/
def bareDirectory
    (_ : String) : IO FileTree := do
  return .empty

/- What a step on a workspace gives, or the workspace as it was. -/
def orKept
    (w : Workspace)
    (result : Except FileError Workspace) : Workspace :=
  match result with
  | .ok changed => changed
  | .error _ => w

/- Take a file or a directory into a workspace, if there is one. -/
def take
    (directoryTree : String → IO FileTree)
    (w : Workspace)
    (path : FilePath) : IO Workspace := do
  let found := (← IO.currentDir) / path.text
  if ← found.isDir then
    let w := orKept w (w.makeDirectories path)
    match w.resolve path with
    | .ok names => return w.put names (← directoryTree found.toString)
    | .error _ => return w
  else if ← found.pathExists then
    let w := orKept w (w.makeParents path)
    return orKept w (w.write path (← IO.FS.readBinFile found))
  else
    return w

/- Take the directory that a file is to be written to into a workspace. -/
def takeParent
    (w : Workspace)
    (path : FilePath) : IO Workspace := do
  match ((← IO.currentDir) / path.text).parent with
  | some directory => if ← directory.isDir then return orKept w (w.makeParents path) else return w
  | none => return w

/- The working directory, with the files of settings and of variables there and above it. -/
def surroundings : IO Workspace := do
  let here := (← IO.currentDir).components.filter (· != "")
  let mut w : Workspace := ⟨.empty, here⟩
  w := w.put here .empty
  for names in w.ancestors do
    for name in [Workspace.variablesName, Settings.fileName] do
      w ← take bareDirectory w ⟨"/" ++ "/".intercalate (names ++ [name])⟩
  return w

/- Take the files that a command reads into a workspace. -/
def takeInputs
    (i : Invocation)
    (e : Environment)
    (w : Workspace) : IO Workspace := do
  match i.command with
  | .evaluate (some file) => take bareDirectory w file
  | .expand file output =>
      let w ← take bareDirectory w file
      match output with
      | some path => take bareDirectory (← takeParent w path) path
      | none => return w
  | .check paths _ =>
      match i.settings e w with
      | .ok settings =>
          let s := Scanner.forPaths settings paths
          s.roots.foldlM (take (sourcesOf s)) w
      | .error _ => return w
  | _ => return w

/- The workspace that a command runs on. -/
def gather
    (i : Invocation)
    (e : Environment) : IO Workspace := do
  let w ← surroundings
  let w ←
    match i.config with
    | some path => take bareDirectory w path
    | none => pure w
  takeInputs i e w

------------------------------------------------------------
-- Input and Output
------------------------------------------------------------

/- All that is left of a stream. -/
partial def readAll
    (stream : IO.FS.Stream)
    (before : ByteArray) : IO ByteArray := do
  let next ← stream.read 65536
  if next.isEmpty then return before else readAll stream (before ++ next)

/- The input of a command, if it reads it. -/
def inputOf
    (i : Invocation) : IO ByteArray := do
  match i.command with
  | .evaluate none => readAll (← IO.getStdin) .empty
  | _ => return .empty

/- Write what a command has left behind. -/
def finish
    (i : Invocation)
    (effect : Effect) : IO UInt32 := do
  for line in effect.lines do
    IO.eprintln line
  match effect.failure with
  | some failure =>
      IO.eprintln failure.message
      return failure.exitCode.toUInt32
  | none =>
      IO.print effect.output
      match i.target? with
      | none => return 0
      | some path =>
          match effect.workspace.content path with
          | .ok content => IO.FS.writeBinFile path.text content
          | .error _ => pure ()
          return 0

/- Run the tool on the words of a command line. -/
def run
    (words : List String) : IO UInt32 := do
  let e ← environment
  match Invocation.ofWords? e words with
  | none =>
      IO.eprintln "usage: initialiser [OPTIONS] <evaluate|expand|check|init> [ARGUMENTS]"
      return 2
  | some i =>
      let w ← gather i e
      finish i (i.run e (← inputOf i) w)

end Session

end Nullary

/- The tool. -/
def main
    (words : List String) : IO UInt32 :=
  Nullary.Session.run words
