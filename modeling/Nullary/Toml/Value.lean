/-
  Values and tables of a TOML text.

  A table remembers how it came about, since that decides
  how it may be extended: by a header of its own, by the
  header of a table inside it, by a dotted key, or in braces.

  Key definitions include:
    * `Toml.Origin`
    * `Toml.Value`
    * `Toml.Table`
    * `Toml.Table.lookup?`
    * `Toml.Table.descend`
    * `Toml.Table.insertKey`
    * `Toml.Table.openTable`
    * `Toml.Table.openElement`
-/

namespace Nullary

namespace Toml

------------------------------------------------------------
-- Values
------------------------------------------------------------

/- How a table came about. -/
inductive Origin where
  | header
  | implied
  | dotted
  | inline
deriving DecidableEq, Repr

/-
  A value.  Numbers other than whole ones, dates and times
  are kept as they are written.  The elements of an array
  stand in brackets, or are tables with headers of their own.
-/
inductive Value where
  | string (text : String)
  | integer (value : Int)
  | float (text : String)
  | boolean (value : Bool)
  | moment (text : String)
  | array (bracketed : Bool) (elements : List Value)
  | table (origin : Origin) (entries : List (String × Value))
deriving Repr

/- A table with its origin. -/
structure Table where
  origin : Origin
  entries : List (String × Value)
deriving Repr

namespace Table

/- The table of a whole text. -/
def root : Table :=
  ⟨.header, []⟩

/- A table as a value. -/
def toValue
    (t : Table) : Value :=
  .table t.origin t.entries

/- The value of a key. -/
def lookup?
    (entries : List (String × Value))
    (key : String) : Option Value :=
  (entries.find? (·.1 == key)).map Prod.snd

/- Set the value of a key, in its place or at the end. -/
def setKey
    (key : String)
    (value : Value) : List (String × Value) → List (String × Value)
  | [] => [(key, value)]
  | (other, old) :: rest =>
      if other = key then (key, value) :: rest else (other, old) :: setKey key value rest

/- Set the value of a key of a table. -/
def set
    (t : Table)
    (key : String)
    (value : Value) : Table :=
  { t with entries := setKey key value t.entries }

------------------------------------------------------------
-- Growing Tables
------------------------------------------------------------

/-
  Change the table at a path.  Tables on the way are made if
  they are missing; a dotted path must not go through tables
  with headers of their own.  Of several tables with one
  header, the path goes through the last.
-/
def descend
    (dotted : Bool)
    (change : Table → Option Table) : List String → Table → Option Table
  | [], t => change t
  | key :: path, t =>
      match lookup? t.entries key with
      | none => do
          let inner ← descend dotted change path ⟨if dotted then .dotted else .implied, []⟩
          return t.set key inner.toValue
      | some (.table .inline _) => none
      | some (.table origin entries) =>
          if dotted && origin == .header then
            none
          else do
            let inner ← descend dotted change path ⟨origin, entries⟩
            return t.set key inner.toValue
      | some (.array false elements) =>
          match elements.getLast? with
          | some (.table origin entries) => do
              let inner ← descend dotted change path ⟨origin, entries⟩
              return t.set key (.array false (elements.dropLast ++ [inner.toValue]))
          | _ => none
      | some _ => none

/-
  Add a key with its value.  A key must be new, and dotted
  keys do not extend tables that came about otherwise.
-/
def addKey
    (simple : Bool)
    (key : String)
    (value : Value)
    (t : Table) : Option Table :=
  if (t.origin == .dotted) == simple then
    none
  else if (lookup? t.entries key).isSome then
    none
  else
    some (t.set key value)

/- Add a key, given by its parts before the last and the last. -/
def insertKey
    (path : List String)
    (key : String)
    (value : Value)
    (t : Table) : Option Table :=
  t.descend (!path.isEmpty) (addKey path.isEmpty key value) path

/- Open a table by its header; a table is opened only once. -/
def openTable
    (path : List String)
    (key : String)
    (t : Table) : Option Table :=
  t.descend false
    (fun outer =>
      match lookup? outer.entries key with
      | none => some (outer.set key (.table .header []))
      | some (.table .implied entries) => some (outer.set key (.table .header entries))
      | some _ => none)
    path

/- Open one more table of an array by its header. -/
def openElement
    (path : List String)
    (key : String)
    (t : Table) : Option Table :=
  t.descend false
    (fun outer =>
      match lookup? outer.entries key with
      | none => some (outer.set key (.array false [.table .header []]))
      | some (.array false elements) =>
          some (outer.set key (.array false (elements ++ [.table .header []])))
      | some _ => none)
    path

end Table

end Toml

end Nullary
