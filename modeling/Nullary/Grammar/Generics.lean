import Nullary.Grammar.Type

/-
  Generic parameters, `where` clauses, and visibilities.

  Key definitions include:
    * `Grammar.generics`
    * `Grammar.clause?`
    * `Grammar.visibility`
    * `Grammar.atGenerics`
-/

namespace Nullary

namespace Grammar

open Nullary.Parser

------------------------------------------------------------
-- Parameters
------------------------------------------------------------

/- A lifetime parameter after its attributes. -/
def lifetimeGeneric
    (g : Grammar)
    (attributes : Tokens) : Parser GenericParameter := do
  let more ← g.outerTokens
  let name ← lifetime
  let bounds ← lifetimeBounds fun trees => trees.atMark "," || trees.atMark ">"
  return ⟨.lifetime, attributes ++ more, [], name, bounds, [], []⟩

/- A type parameter after its attributes. -/
def typeGeneric
    (g : Grammar)
    (attributes : Tokens) : Parser GenericParameter := do
  let name ← name
  let colon ← mark? ":"
  let bounds ←
    if colon.isEmpty then
      pure []
    else
      g.boundsUntil fun trees =>
        trees.atMark "," || trees.atMark ">" || trees.atMark "="
  let bounds := if bounds.isEmpty then [] else colon ++ bounds
  if ← sees (·.atMark "=") then
    let equals ← mark "="
    let default ← g.type true
    return ⟨.type, attributes, [], [name], bounds, equals ++ default.tokens, []⟩
  return ⟨.type, attributes, [], [name], bounds, [], []⟩

/- A constant parameter after its attributes. -/
def constGeneric
    (g : Grammar)
    (attributes : Tokens) : Parser GenericParameter := do
  let keyword ← word "const"
  let name ← name
  let colon ← mark ":"
  let type ← g.type true
  let bounds := colon ++ type.tokens
  if ← sees (·.atMark "=") then
    let equals ← mark "="
    let default ← g.constArgument
    return ⟨.const, attributes, keyword, [name], bounds, equals ++ default, []⟩
  return ⟨.const, attributes, keyword, [name], bounds, [], []⟩

/- A generic parameter. -/
def genericParameter
    (g : Grammar) : Parser GenericParameter := do
  let attributes ← g.outerTokens
  if ← sees (·.atLifetime) then
    g.lifetimeGeneric attributes
  else if ← sees (·.atName) then
    g.typeGeneric attributes
  else if ← sees (·.atWord "const") then
    g.constGeneric attributes
  else
    let name ← word "_"
    return ⟨.type, attributes, [], name, [], [], []⟩

/- The generic parameters of a declaration, if it has any. -/
def generics
    (g : Grammar) : Parser Generics := do
  if ← sees (·.atMark "<") then
    let opening ← mark "<"
    let values ← listUntil (·.atMark ">") "," g.genericParameter
    let closing ← mark ">"
    let parameters := values.map fun (parameter, comma) => { parameter with comma := comma }
    return ⟨opening, parameters, closing, none⟩
  return .empty

/-
  Generic parameters come next, and not a path that starts
  with a type in angle brackets.
-/
def atGenerics
    (trees : Tokens) : Bool :=
  let second := trees.skip
  let third := second.skip
  trees.atMark "<" &&
    (second.atMark ">" || second.atMark "#" ||
      ((second.atLifetime || second.atName) &&
        (third.atMark ">" || third.atMark "," || third.atColon || third.atMark "=")) ||
      second.atWord "const")

------------------------------------------------------------
-- Where Clauses
------------------------------------------------------------

/- What ends a `where` clause or the bounds in it. -/
def endsClause
    (trees : Tokens) : Bool :=
  trees.isEmpty || trees.atGroup .brace || trees.atMark "," || trees.atMark ";" ||
    trees.atColon || trees.atMark "="

/- What ends the lifetime bounds in a `where` clause. -/
def endsLifetimeBounds
    (trees : Tokens) : Bool :=
  trees.isEmpty || trees.atGroup .brace || trees.atMark "," || trees.atMark ";" ||
    trees.atMark ":" || trees.atMark "="

/- A predicate of a `where` clause. -/
def predicate
    (g : Grammar) : Parser Tokens := do
  if ← sees fun trees => trees.atLifetime && trees.skip.atMark ":" then
    let name ← lifetime
    let colon ← mark ":"
    let bounds ← flatten <$> listWhile endsLifetimeBounds "+" lifetime
    return name ++ colon ++ bounds
  let quantifier ← g.quantifier?
  let type ← g.type true
  let colon ← mark ":"
  let bounds ← g.boundsUntil endsClause
  return quantifier ++ type.tokens ++ colon ++ bounds

/- A `where` clause. -/
def clause
    (g : Grammar) : Parser WhereClause := do
  let keyword ← word "where"
  if ← sees atGenerics then
    refuse
  let predicates ← flatten <$> listWhile endsClause "," g.predicate
  return ⟨keyword, predicates⟩

/- A `where` clause if one comes next. -/
def clause?
    (g : Grammar) : Parser (Option WhereClause) := do
  if ← sees (·.atWord "where") then
    return some (← g.clause)
  return none

------------------------------------------------------------
-- Visibility
------------------------------------------------------------

/- A restriction in parentheses to a single word. -/
def shortRestriction : Parser (Scope × Tokens) := do
  let ((scope, tokens), span) ← within .parenthesis do
    require fun trees => trees.atWord "crate" || trees.atWord "self" || trees.atWord "super"
    let name ← anyWord
    return (if wordText name = "crate" then Scope.crate else .restricted, [name])
  return (scope, [.group .parenthesis tokens span])

/- A restriction in parentheses to a path. -/
def pathRestriction : Parser Tokens :=
  group .parenthesis do
    let keyword ← word "in"
    let (_, _, path) ← plainPath
    return keyword ++ path

/- A group whose content starts with a word. -/
def atGroupWith
    (text : String) : Tokens → Bool
  | .group .parenthesis content _ :: _ => Tokens.atWord text content
  | _ => false

/-
  A visibility, perhaps none.  Parentheses that hold no
  restriction belong to what follows.
-/
def visibility : Parser Visibility := do
  if ← sees (·.atWord "pub") then
    let keyword ← word "pub"
    if ← sees (atGroupWith "in") then
      let path ← pathRestriction
      return ⟨.restricted, keyword ++ path⟩
    match ← attempt shortRestriction with
    | some (scope, tokens) => return ⟨scope, keyword ++ tokens⟩
    | none => return ⟨.everywhere, keyword⟩
  return ⟨.inherited, []⟩

end Grammar

end Nullary
