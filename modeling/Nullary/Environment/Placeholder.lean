import Nullary.Environment.Basic

/-
  Placeholders for variables in a text: a dollar sign and, in
  braces, the name of a variable, which may be followed by a
  colon, a hyphen and the value to take if it is not set.

  The placeholders of a text are found once, from left to
  right.  Then each in turn is replaced wherever its own text
  stands in what the ones before it have made of the text.

  Key definitions include:
    * `Placeholder`
    * `Placeholder.text`
    * `Placeholder.read?`
    * `Placeholder.findAll`
    * `Placeholder.value?`
    * `Text.replaceAll`
    * `Environment.substitute`
-/

namespace Nullary

------------------------------------------------------------
-- Placeholders
------------------------------------------------------------

/- The name of a variable, and the value to take if it is not set. -/
structure Placeholder where
  name : List Char
  fallback : Option (List Char)
deriving DecidableEq, Repr

namespace Placeholder

/- A character that may stand in a name. -/
def isNameChar
    (c : Char) : Bool :=
  c != '\x7d' && c != ':'

/- A placeholder as it stands in a text. -/
def text
    (p : Placeholder) : List Char :=
  match p.fallback with
  | none => '$' :: '\x7b' :: p.name ++ ['\x7d']
  | some value => '$' :: '\x7b' :: p.name ++ ':' :: '-' :: value ++ ['\x7d']

/- What follows the name in a placeholder, if it is one. -/
def readFallback?
    (name : List Char) : List Char → Option Placeholder
  | '\x7d' :: _ => some ⟨name, none⟩
  | ':' :: '-' :: rest =>
      if rest.contains '\x7d' then
        some ⟨name, some (rest.takeWhile (· != '\x7d'))⟩
      else
        none
  | _ => none

/- The placeholder that a text starts with. -/
def read? : List Char → Option Placeholder
  | '$' :: '\x7b' :: rest =>
      let name := rest.takeWhile isNameChar
      if name.isEmpty then none else readFallback? name (rest.dropWhile isNameChar)
  | _ => none

/-
  The placeholders of a text, from left to right; the first
  `skip` characters belong to one that was found before.
-/
def findFrom : Nat → List Char → List Placeholder
  | _, [] => []
  | skip + 1, _ :: rest => findFrom skip rest
  | 0, c :: rest =>
      match read? (c :: rest) with
      | some p => p :: findFrom (p.text.length - 1) rest
      | none => findFrom 0 rest

/- The placeholders of a text, from left to right. -/
def findAll
    (text : List Char) : List Placeholder :=
  findFrom 0 text

/- The value of a placeholder: that of its variable, or else its own. -/
def value?
    (p : Placeholder)
    (e : Environment) : Option (List Char) :=
  match e.value? (String.ofList p.name) with
  | some value => some value.toList
  | none => p.fallback

end Placeholder

------------------------------------------------------------
-- Replacement
------------------------------------------------------------

namespace Text

/-
  A text with every occurrence of a pattern replaced; the
  first `skip` characters belong to one that was replaced.
-/
def replaceFrom
    (pattern : List Char)
    (replacement : List Char) : Nat → List Char → List Char
  | _, [] => []
  | skip + 1, _ :: rest => replaceFrom pattern replacement skip rest
  | 0, c :: rest =>
      if pattern.isPrefixOf (c :: rest) then
        replacement ++ replaceFrom pattern replacement (pattern.length - 1) rest
      else
        c :: replaceFrom pattern replacement 0 rest

/- A text with every occurrence of a pattern replaced, from left to right. -/
def replaceAll
    (pattern : List Char)
    (replacement : List Char)
    (text : List Char) : List Char :=
  replaceFrom pattern replacement 0 text

end Text

namespace Environment

/- The result of a substitution, or the first variable without a value. -/
abbrev Substituted :=
  Except String (List Char)

/- Replace one placeholder, wherever its text stands. -/
def substituteOne
    (e : Environment)
    (text : List Char)
    (p : Placeholder) : Substituted :=
  match p.value? e with
  | some value => .ok (Text.replaceAll p.text value text)
  | none => .error (String.ofList p.name)

/- A text with the values of its placeholders put in. -/
def substitute
    (e : Environment)
    (text : List Char) : Substituted :=
  (Placeholder.findAll text).foldlM e.substituteOne text

end Environment

end Nullary
