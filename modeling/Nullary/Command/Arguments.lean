import Nullary.Environment.Basic
import Nullary.Files.Path

/-
  Command lines.

  A command line names a command among its switches.  Some
  switches belong to a command and stand after its name; the
  others stand before or after it, and those after it win.

  Key definitions include:
    * `Switch`
    * `CommandArgument`
    * `CommandArgument.readAll?`
    * `Command`
    * `Invocation`
    * `Invocation.ofWords?`
-/

namespace Nullary

------------------------------------------------------------
-- Switches
------------------------------------------------------------

/- A switch of the command line. -/
inductive Switch where
  | config
  | verbose
  | quiet
  | output
  | denyWarnings
  | force
deriving DecidableEq, Repr

namespace Switch

/- The long name of a switch. -/
def long : Switch → String
  | .config => "config"
  | .verbose => "verbose"
  | .quiet => "quiet"
  | .output => "output"
  | .denyWarnings => "deny-warnings"
  | .force => "force"

/- The short name of a switch. -/
def short? : Switch → Option Char
  | .config => some 'c'
  | .verbose => some 'v'
  | .quiet => some 'q'
  | .output => some 'o'
  | .denyWarnings => none
  | .force => some 'f'

/- A switch that is followed by a value. -/
def takesValue : Switch → Bool
  | .config => true
  | .output => true
  | _ => false

/- A switch that may be repeated. -/
def repeats : Switch → Bool
  | .verbose => true
  | _ => false

/- All switches. -/
def all : List Switch :=
  [.config, .verbose, .quiet, .output, .denyWarnings, .force]

/- The switches that belong to no command. -/
def shared : List Switch :=
  [.config, .verbose, .quiet]

end Switch

------------------------------------------------------------
-- Arguments
------------------------------------------------------------

/- What one or two words of a command line say. -/
inductive CommandArgument where
  | flag (switch : Switch)
  | setting (switch : Switch) (value : String)
  | operand (text : String)
deriving DecidableEq, Repr

namespace CommandArgument

/- A word by its form. -/
inductive Word where
  | plain (text : String)
  | separator
  | long (name : List Char) (value : Option (List Char))
  | short (letters : List Char)
deriving DecidableEq, Repr

/- The name and the value of a long switch. -/
def splitLong
    (text : List Char) : Word :=
  match text.dropWhile (· != '=') with
  | '=' :: value => .long (text.takeWhile (· != '=')) (some value)
  | _ => .long text none

/- The form of a word. -/
def Word.ofText
    (text : String) : Word :=
  match text.toList with
  | ['-', '-'] => .separator
  | '-' :: '-' :: rest => splitLong rest
  | ['-'] => .plain text
  | '-' :: letters => .short letters
  | _ => .plain text

/- Arguments, and the switch that still waits for its value. -/
abbrev Pending :=
  List CommandArgument × Option Switch

/- The argument of a long switch. -/
def readLong?
    (allowed : List Switch)
    (name : List Char)
    (value : Option (List Char)) : Option Pending := do
  let switch ← allowed.find? (·.long.toList == name)
  match switch.takesValue, value with
  | false, none => some ([.flag switch], none)
  | false, some _ => none
  | true, none => some ([], some switch)
  | true, some value => some ([.setting switch (String.ofList value)], none)

/- The value that follows the letter of a short switch. -/
def attached : List Char → List Char
  | '=' :: value => value
  | value => value

/- The arguments of short switches in one word. -/
def readShort?
    (allowed : List Switch) : List Char → Option Pending
  | [] => some ([], none)
  | letter :: rest => do
      let switch ← allowed.find? (·.short? == some letter)
      if switch.takesValue then
        if rest.isEmpty then
          some ([], some switch)
        else
          some ([.setting switch (String.ofList (attached rest))], none)
      else
        let (arguments, pending) ← readShort? allowed rest
        some (.flag switch :: arguments, pending)

/- The arguments of a word with switches. -/
def readSwitches?
    (allowed : List Switch) : Word → Option Pending
  | .long name value => readLong? allowed name value
  | .short letters => readShort? allowed letters
  | _ => none

/-
  The arguments of some words.  A value that is waited for
  must come next.  After a separator there are only values.
-/
def readFrom?
    (allowed : List Switch) : Option Switch → List String → Option (List CommandArgument)
  | none, [] => some []
  | some _, [] => none
  | pending, word :: rest =>
      match Word.ofText word, pending with
      | .plain text, some switch => do
          return .setting switch text :: (← readFrom? allowed none rest)
      | .plain text, none => do
          return .operand text :: (← readFrom? allowed none rest)
      | _, some _ => none
      | .separator, none => some (rest.map .operand)
      | switches, none => do
          let (arguments, next) ← readSwitches? allowed switches
          return arguments ++ (← readFrom? allowed next rest)

/- The arguments of some words. -/
def readAll?
    (allowed : List Switch)
    (words : List String) : Option (List CommandArgument) :=
  readFrom? allowed none words

/-
  The arguments before the name of a command, that name, and
  the words after it.
-/
def readCommand? :
    Option Switch → List String → Option (List CommandArgument × String × List String)
  | _, [] => none
  | pending, word :: rest =>
      match Word.ofText word, pending with
      | .plain text, some switch => do
          let (arguments, command) ← readCommand? none rest
          return (.setting switch text :: arguments, command)
      | .plain text, none => some ([], text, rest)
      | _, some _ => none
      | .separator, none => none
      | switches, none => do
          let (arguments, next) ← readSwitches? Switch.shared switches
          let (others, command) ← readCommand? next rest
          return (arguments ++ others, command)

------------------------------------------------------------
-- Looking up Arguments
------------------------------------------------------------

/- How often a switch is given. -/
def count
    (switch : Switch)
    (arguments : List CommandArgument) : Nat :=
  arguments.countP fun
    | .flag found => found == switch
    | .setting found _ => found == switch
    | .operand _ => false

/- A switch is given. -/
def has
    (switch : Switch)
    (arguments : List CommandArgument) : Bool :=
  0 < count switch arguments

/- The value of a switch. -/
def settingOf?
    (switch : Switch)
    (arguments : List CommandArgument) : Option String :=
  arguments.findSome? fun
    | .setting found value => if found = switch then some value else none
    | _ => none

/- The values that belong to no switch. -/
def operands
    (arguments : List CommandArgument) : List String :=
  arguments.filterMap fun
    | .operand text => some text
    | _ => none

/- No value is empty. -/
def isFilled : CommandArgument → Bool
  | .flag _ => true
  | .setting _ value => value != ""
  | .operand text => text != ""

/- No value is empty, and no switch is given too often. -/
def areSound
    (arguments : List CommandArgument) : Bool :=
  arguments.all isFilled &&
    Switch.all.all fun switch => switch.repeats || count switch arguments ≤ 1

end CommandArgument

------------------------------------------------------------
-- Invocations
------------------------------------------------------------

/- A command. -/
inductive Command where
  | evaluate (file : Option FilePath)
  | expand (file : FilePath) (output : Option FilePath)
  | check (paths : List FilePath) (denyWarnings : Bool)
  | init (force : Bool)
deriving DecidableEq, Repr

/- A command with the switches that belong to none. -/
structure Invocation where
  config : Option FilePath
  verbosity : Nat
  quiet : Bool
  command : Command
deriving DecidableEq, Repr

namespace Command

/- The switches of a command, by its name. -/
def switches? : String → Option (List Switch)
  | "evaluate" => some []
  | "expand" => some [.output]
  | "check" => some [.denyWarnings]
  | "init" => some [.force]
  | _ => none

/- The command of a name and its arguments. -/
def ofArguments?
    (name : String)
    (arguments : List CommandArgument) : Option Command :=
  match name, CommandArgument.operands arguments with
  | "evaluate", [] => some (.evaluate none)
  | "evaluate", [file] => some (.evaluate (some ⟨file⟩))
  | "expand", [file] =>
      some (.expand ⟨file⟩ ((CommandArgument.settingOf? .output arguments).map FilePath.mk))
  | "check", paths =>
      some (.check (paths.map FilePath.mk) (CommandArgument.has .denyWarnings arguments))
  | "init", [] => some (.init (CommandArgument.has .force arguments))
  | _, _ => none

end Command

namespace Invocation

/- The variable that names a file of settings. -/
def configVariable : String :=
  "INITIALISER_CONFIG"

/- The greatest verbosity. -/
def maxVerbosity : Nat :=
  255

/- How often the verbose switch is given, after the name of the command or else before it. -/
def verbosityOf
    (before : List CommandArgument)
    (after : List CommandArgument) : Nat :=
  let given := if CommandArgument.has .verbose after then after else before
  min maxVerbosity (CommandArgument.count .verbose given)

/- The file of settings, named after the command, before it, or by a variable. -/
def configOf
    (before : List CommandArgument)
    (after : List CommandArgument)
    (named : Option String) : Option FilePath :=
  let given :=
    match CommandArgument.settingOf? .config after with
    | some path => some path
    | none => CommandArgument.settingOf? .config before
  (given.or named).map FilePath.mk

/-
  The invocation that the words of a command line make.  If
  no file of settings is given, a variable may name it.
-/
def ofWords?
    (e : Environment)
    (words : List String) : Option Invocation := do
  let (before, name, rest) ← CommandArgument.readCommand? none words
  let own ← Command.switches? name
  let after ← CommandArgument.readAll? (Switch.shared ++ own) rest
  let command ← Command.ofArguments? name after
  let named := e.value? configVariable
  if CommandArgument.areSound before && CommandArgument.areSound after && named != some "" then
    return ⟨configOf before after named, verbosityOf before after,
      CommandArgument.has .quiet (before ++ after), command⟩
  else
    none

end Invocation

end Nullary
