/-
  The qualifiers of a declaration, such as `public`, in the
  order in which they were given.

  A token that is inserted a second time is not repeated.  A
  list that is taken over as it is may hold repetitions, and
  keeps them.

  Key definitions include:
    * `Modifiers`
    * `Modifiers.insert`
    * `Modifiers.ofTokens`
    * `Modifiers.isPublic`
-/

namespace Nullary

/- The qualifiers of a declaration. -/
structure Modifiers where
  tokens : List String
deriving DecidableEq, Repr

namespace Modifiers

------------------------------------------------------------
-- Construction
------------------------------------------------------------

/- No qualifiers. -/
def empty : Modifiers :=
  ⟨[]⟩

/- A token is among the qualifiers. -/
def contains
    (m : Modifiers)
    (token : String) : Bool :=
  m.tokens.any (· == token)

/- Add a token at the end, unless it is there already. -/
def insert
    (m : Modifiers)
    (token : String) : Modifiers :=
  if m.contains token then m else ⟨m.tokens ++ [token]⟩

/- Add tokens one after the other. -/
def insertAll
    (m : Modifiers)
    (tokens : List String) : Modifiers :=
  tokens.foldl insert m

/- The qualifiers in a list, each once. -/
def ofTokens
    (tokens : List String) : Modifiers :=
  empty.insertAll tokens

------------------------------------------------------------
-- Visibility
------------------------------------------------------------

/- The qualifier of what everyone may use. -/
def publicToken : String :=
  "public"

/- The qualifiers make a declaration public. -/
def isPublic
    (m : Modifiers) : Bool :=
  m.contains publicToken

end Modifiers

end Nullary
