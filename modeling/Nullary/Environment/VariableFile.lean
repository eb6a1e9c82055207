import Nullary.Environment.Basic
import Nullary.Text.Blank
import Nullary.Text.Identifier

/-
  Files of variables: lines with a name, an equals sign and a
  value each.

  A value may be quoted.  Outside single quotes a backslash
  escapes a character, and a dollar sign stands before the
  name of a variable to be put in.  The lines of a file are
  read in order, up to the first one that is malformed.

  Key definitions include:
    * `VariableFile.Value.step`
    * `VariableFile.Value.finish?`
    * `VariableFile.readLine?`
    * `VariableFile.load`
-/

namespace Nullary

namespace VariableFile

------------------------------------------------------------
-- Values
------------------------------------------------------------

namespace Value

/- What the next character of a value is part of. -/
inductive Mode where
  | plain
  | escape
  | singleQuotes
  | name (soFar : List Char)
  | bracedName (soFar : List Char)
  | ending
  | comment
deriving DecidableEq, Repr

/- A value as far as it has been read, last character first. -/
structure State where
  mode : Mode
  inDoubleQuotes : Bool
  output : List Char
deriving DecidableEq, Repr

namespace State

/- Nothing has been read. -/
def start : State :=
  ⟨.plain, false, []⟩

/- Add a character. -/
def push
    (s : State)
    (c : Char) : State :=
  { s with output := c :: s.output }

/- Add the value of a variable whose name has been read backwards. -/
def pushVariable
    (e : Environment)
    (s : State)
    (name : List Char) : State :=
  let value := (e.value? (String.ofList name.reverse)).getD ""
  { s with output := value.toList.reverse ++ s.output }

/- Go on in another mode. -/
def enter
    (s : State)
    (mode : Mode) : State :=
  { s with mode := mode }

end State

/- A letter or a digit, of any script. -/
def isNameChar
    (c : Char) : Bool :=
  c.isAlphanum || (0x80 ≤ c.toNat && isIdentifierContinue c)

/- A character that is not part of a quotation, an escape or a name. -/
def plainStep
    (s : State)
    (c : Char) : State :=
  if c = '$' then
    s.enter (.name [])
  else if c = '\\' then
    s.enter .escape
  else if c = '"' then
    { s with inDoubleQuotes := !s.inDoubleQuotes }
  else if s.inDoubleQuotes then
    s.push c
  else if c = '\'' then
    s.enter .singleQuotes
  else if c = ' ' || c = '\t' then
    s.enter .ending
  else
    s.push c

/- The character that an escape stands for. -/
def unescape? : Char → Option Char
  | '\\' => some '\\'
  | '\'' => some '\''
  | '"' => some '"'
  | '$' => some '$'
  | ' ' => some ' '
  | 'n' => some '\n'
  | _ => none

/-
  The character after the name of a variable.  It ends the
  name and is kept as it is, a quote too.
-/
def nameEnd
    (e : Environment)
    (s : State)
    (name : List Char)
    (c : Char) : State :=
  if c = '\x7b' && name.isEmpty then
    s.enter (.bracedName [])
  else if c = '$' then
    (s.pushVariable e name).enter (.name [])
  else
    ((s.pushVariable e name).enter .plain).push c

/- Read one character of a value. -/
def step
    (e : Environment)
    (s : State)
    (c : Char) : Option State :=
  match s.mode with
  | .plain => some (plainStep s c)
  | .escape => (unescape? c).map fun d => (s.enter .plain).push d
  | .singleQuotes => some (if c = '\'' then s.enter .plain else s.push c)
  | .name soFar =>
      if isNameChar c then some (s.enter (.name (c :: soFar))) else some (nameEnd e s soFar c)
  | .bracedName soFar =>
      if c = '\x7d' then
        some ((s.pushVariable e soFar).enter .plain)
      else
        some (s.enter (.bracedName (c :: soFar)))
  | .ending =>
      if c = ' ' || c = '\t' then
        some s
      else if c = '#' then
        some (s.enter .comment)
      else
        none
  | .comment => some s

/- The value at the end of a line; quotes and braces must be closed. -/
def finish?
    (e : Environment)
    (s : State) : Option (List Char) :=
  if s.inDoubleQuotes then
    none
  else
    match s.mode with
    | .singleQuotes => none
    | .bracedName _ => none
    | .name soFar => some (s.pushVariable e soFar).output.reverse
    | _ => some s.output.reverse

/- The value that a text spells. -/
def read?
    (e : Environment)
    (text : List Char) : Option (List Char) := do
  finish? e (← text.foldlM (step e) .start)

end Value

------------------------------------------------------------
-- Lines
------------------------------------------------------------

/- A character that a name may start with. -/
def isNameStart
    (c : Char) : Bool :=
  c.isAlpha || c == '_'

/- A character of a name. -/
def isNameChar
    (c : Char) : Bool :=
  c.isAlphanum || c == '_' || c == '.'

/- The name that a text starts with, and what follows it after blanks. -/
def readName? : List Char → Option (List Char × List Char)
  | [] => none
  | c :: rest =>
      if isNameStart c then
        let text := c :: rest
        some (text.takeWhile isNameChar, Text.trimStart (text.dropWhile isNameChar))
      else
        none

/-
  The name at the start of a line and what follows the equals
  sign.  The word `export` may stand before the name.
-/
def readTarget?
    (text : List Char) : Option (List Char × List Char) := do
  let (name, rest) ← readName? text
  match rest with
  | '=' :: value => some (name, value)
  | _ =>
      if name = "export".toList then
        match ← readName? rest with
        | (name, '=' :: value) => some (name, value)
        | _ => none
      else
        none

/- A text without content: nothing, or a comment. -/
def isVacant : List Char → Bool
  | [] => true
  | c :: _ => c == '#'

/- What a line sets: nothing, or a variable to a value. -/
def readLine?
    (e : Environment)
    (line : List Char) : Option (Option (String × String)) :=
  let text := Text.trim line
  if isVacant text then
    some none
  else do
    let (name, rest) ← readTarget? text
    let rest := Text.trimStart rest
    let value ← if isVacant rest then some [] else Value.read? e rest
    return some (String.ofList name, String.ofList value)

------------------------------------------------------------
-- Files
------------------------------------------------------------

/-
  An environment with the variables of some lines added.  A
  variable that is set stays as it is, and the first line
  that is not a text or is malformed ends the file.
-/
def loadLines : Environment → List (Option String) → Environment
  | e, [] => e
  | e, none :: _ => e
  | e, some line :: rest =>
      match readLine? e line.toList with
      | none => e
      | some none => loadLines e rest
      | some (some (name, value)) => loadLines (e.addNew name value) rest

/- The lines of a file, those that are texts as texts. -/
def lines
    (content : ByteArray) : List (Option String) :=
  (content.toList.splitOn 0x0A).map fun line => String.fromUTF8? ⟨line.toArray⟩

/- An environment with the variables of a file added. -/
def load
    (e : Environment)
    (content : ByteArray) : Environment :=
  loadLines e (lines content)

end VariableFile

end Nullary
