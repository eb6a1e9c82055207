import Nullary.Toml.Scalar

/-
  The reading of TOML texts.

  Key definitions include:
    * `Toml.Reader`
    * `Toml.Reader.value`
    * `Toml.Reader.statement`
    * `Toml.Table.parse?`
-/

namespace Nullary

namespace Toml

/- A reader takes characters from the front of a text, or refuses. -/
abbrev Reader :=
  StateT (List Char) Option

namespace Reader

------------------------------------------------------------
-- Gaps
------------------------------------------------------------

/- Refuse. -/
def refuse
    {α : Type} : Reader α :=
  fun _ => none

/- The next character, without taking it. -/
def next? : Reader (Option Char) :=
  fun text => some (text.head?, text)

/- Take the given character if it comes next. -/
def take?
    (c : Char) : Reader Bool
  | d :: rest => if c = d then some (true, rest) else some (false, d :: rest)
  | [] => some (false, [])

/- Take the given character. -/
def take
    (c : Char) : Reader Unit := do
  if !(← take? c) then refuse

/- Take blanks. -/
def blanks : Reader Unit :=
  fun text => some ((), text.dropWhile isBlank)

/- The length of a comment up to the end of its line, if it is well-formed. -/
def commentRest?
    (text : List Char) : Option (List Char) :=
  let content := text.takeWhile (· != '\n')
  let rest := text.dropWhile (· != '\n')
  let content :=
    if content.getLast? == some '\r' && !rest.isEmpty then content.dropLast else content
  if content.any isControl then none else some (text.drop content.length)

/- Take a comment if one comes next. -/
def comment? : Reader Unit
  | '#' :: rest => (commentRest? rest).map fun left => ((), left)
  | text => some ((), text)

/- Take a line end, or find that the text is over. -/
def lineEnd : Reader Unit
  | [] => some ((), [])
  | text => (afterLineEnd? text).map fun rest => ((), rest)

/- Blanks and a comment up to the end of a line. -/
def restOfLine : Reader Unit := do
  blanks
  comment?
  lineEnd

/- Blanks, comments and line ends; `fuel` bounds their number. -/
def gapFrom : Nat → Reader Unit
  | 0 => refuse
  | fuel + 1 => do
      blanks
      comment?
      match ← next? with
      | some '\n' =>
          lineEnd
          gapFrom fuel
      | some '\r' =>
          lineEnd
          gapFrom fuel
      | _ => return ()

/- Blanks, comments and line ends. -/
def gap : Reader Unit :=
  fun text => gapFrom (text.length + 1) text

------------------------------------------------------------
-- Keys
------------------------------------------------------------

/- A character of a key without quotes. -/
def isKeyChar
    (c : Char) : Bool :=
  isDigit c || c.isAlpha || c == '_' || c == '-'

/- A string with its quotes taken off, as a reader. -/
def quoted
    (read : List Char → Option (List Char × List Char)) : Reader String :=
  fun text => (read text).map fun (content, rest) => (String.ofList content, rest)

/- A part of a key. -/
def keyPart : Reader String
  | '"' :: rest => quoted Quotes.basic? rest
  | '\'' :: rest => quoted Quotes.literal? rest
  | text =>
      let word := text.takeWhile isKeyChar
      if word.isEmpty then
        none
      else
        some (String.ofList word, text.dropWhile isKeyChar)

/- The parts of a key that follow a part of it; `fuel` bounds their number. -/
def keyRest : Nat → Reader (List String)
  | 0 => refuse
  | fuel + 1 => do
      blanks
      if ← take? '.' then
        blanks
        let part ← keyPart
        return part :: (← keyRest fuel)
      return []

/- A key: its parts before the last, and the last. -/
def key : Reader (List String × String) := do
  let first ← keyPart
  let rest ← fun text => keyRest (text.length + 1) text
  let parts := first :: rest
  return (parts.dropLast, parts.getLast?.getD first)

------------------------------------------------------------
-- Values
------------------------------------------------------------

/- A value without parts. -/
def scalar : Reader Value
  | '"' :: '"' :: '"' :: rest => Value.string <$> quoted Quotes.basicLines? |>.run rest
  | '\'' :: '\'' :: '\'' :: rest => Value.string <$> quoted Quotes.literalLines? |>.run rest
  | '"' :: rest => Value.string <$> quoted Quotes.basic? |>.run rest
  | '\'' :: rest => Value.string <$> quoted Quotes.literal? |>.run rest
  | text =>
      let (word, rest) := Word.split text
      (Word.value? word).map fun value => (value, rest)

/- Arrays and tables in braces stand inside one another at most this deep. -/
def maxDepth : Nat :=
  80

/- One level less of those that are left. -/
def nested : Nat → Reader Nat
  | 0 => refuse
  | depth + 1 => return depth

mutual

/- A value; `depth` bounds how deep arrays and tables may stand in it. -/
def valueFrom : Nat → Nat → Reader Value
  | 0, _ => refuse
  | fuel + 1, depth => do
      match ← next? with
      | some '[' =>
          take '['
          let inner ← nested depth
          gap
          return .array true (← elementsFrom fuel inner)
      | some '\x7b' =>
          take '\x7b'
          let inner ← nested depth
          gap
          let t ← entriesFrom fuel inner ⟨.inline, []⟩
          return .table .inline t.entries
      | _ => scalar

/- The elements of an array up to its closing bracket. -/
def elementsFrom : Nat → Nat → Reader (List Value)
  | 0, _ => refuse
  | fuel + 1, depth => do
      if ← take? ']' then
        return []
      let value ← valueFrom fuel depth
      gap
      if ← take? ',' then
        gap
        return value :: (← elementsFrom fuel depth)
      take ']'
      return [value]

/- The entries of a table up to its closing brace. -/
def entriesFrom : Nat → Nat → Table → Reader Table
  | 0, _, _ => refuse
  | fuel + 1, depth, t => do
      if ← take? '\x7d' then
        return t
      let (path, last) ← key
      blanks
      take '='
      blanks
      let value ← valueFrom fuel depth
      match t.insertKey path last value with
      | none => refuse
      | some grown =>
          gap
          if ← take? ',' then
            gap
            entriesFrom fuel depth grown
          else
            take '\x7d'
            return grown

end

/- A value. -/
def value : Reader Value :=
  fun text => valueFrom (2 * text.length + 2) maxDepth text

------------------------------------------------------------
-- Statements
------------------------------------------------------------

/- A table under construction, and the section that keys are added to. -/
structure Draft where
  root : Table
  path : List String

/- Change the root table, unless that is impossible. -/
def changed
    (root : Option Table)
    (path : List String) : Reader Draft :=
  match root with
  | some root => return ⟨root, path⟩
  | none => refuse

/- The header of a section, after its first bracket. -/
def header
    (draft : Draft) : Reader Draft := do
  if ← take? '[' then
    blanks
    let (path, last) ← key
    take ']'
    take ']'
    changed (draft.root.openElement path last) (path ++ [last])
  else
    blanks
    let (path, last) ← key
    take ']'
    changed (draft.root.openTable path last) (path ++ [last])

/- A key and its value. -/
def keyValue
    (draft : Draft) : Reader Draft := do
  let (path, last) ← key
  blanks
  take '='
  blanks
  let value ← value
  changed (draft.root.descend false (·.insertKey path last value) draft.path) draft.path

/- A line of a text, and the line end after it. -/
def statement
    (draft : Draft) : Reader Draft := do
  blanks
  let next ←
    match ← next? with
    | none => pure draft
    | some '#' => pure draft
    | some '\n' => pure draft
    | some '\r' => pure draft
    | some '[' =>
        take '['
        header draft
    | some _ => keyValue draft
  restOfLine
  return next

/- The lines of a text; `fuel` bounds their number. -/
def statements : Nat → Draft → Reader Draft
  | 0, _ => refuse
  | fuel + 1, draft => do
      match ← next? with
      | none => return draft
      | some _ => statements fuel (← statement draft)

end Reader

------------------------------------------------------------
-- Texts
------------------------------------------------------------

/- The byte order mark, which may stand before a text. -/
def byteOrderMark : Char :=
  Char.ofNat 0xFEFF

/- The table of a text.  Every line takes a character, so the length bounds their number. -/
def Table.parse?
    (text : List Char) : Option Table :=
  let text := if text.head? = some byteOrderMark then text.tail else text
  match (Reader.statements (text.length + 1) ⟨.root, []⟩).run text with
  | some (draft, []) => some draft.root
  | _ => none

end Toml

end Nullary
