import Nullary.Grammar.Function

/-
  Items: records, enumerations, traits, implementations,
  modules, and all the other declarations of a file.

  Some declarations are recognised but not taken apart; they
  are kept as written and carry no attributes of their own.

  Key definitions include:
    * `Grammar.structItem`
    * `Grammar.traitItem`
    * `Grammar.implItem`
    * `Grammar.moduleItem`
    * `Grammar.itemBody`
    * `Grammar.itemWith`
    * `Grammar.useTreeWith`
-/

namespace Nullary

namespace Grammar

open Nullary.Parser

------------------------------------------------------------
-- Records and Enumerations
------------------------------------------------------------

/- What follows the name of a record: its fields and its clause. -/
def structBody
    (g : Grammar) : Parser (Option WhereClause × Fields × Tokens) := do
  let clause ← g.clause?
  let clauseTokens := (clause.map (·.tokens)).getD []
  if ← sees fun trees => clause.isNone && trees.atGroup .parenthesis then
    let (count, fields) ← g.positionalFields
    let clause ← g.clause?
    let clauseTokens := (clause.map (·.tokens)).getD []
    let semicolon ← mark ";"
    return (clause, .positional count, fields ++ clauseTokens ++ semicolon)
  if ← sees (·.atGroup .brace) then
    let (names, fields) ← g.fields
    return (clause, .named names, clauseTokens ++ fields)
  let semicolon ← mark ";"
  return (clause, .unit, clauseTokens ++ semicolon)

/- A record after its attributes and its visibility. -/
def structItem
    (g : Grammar)
    (attributes : List Attribute)
    (visibility : Visibility) : Parser StructItem := do
  let keyword ← word "struct"
  let name ← name
  let generics ← g.generics
  let (clause, fields, body) ← g.structBody
  return {
    attributes := attributes
    visibility := visibility
    name := wordText name
    nameToken := name
    generics := { generics with clause := clause }
    fields := fields
    tokens := Attribute.outerTokens attributes ++ visibility.tokens ++ keyword ++
      name :: generics.tokens ++ body }

/- A variant of an enumeration; a visibility before it is dropped. -/
def variant
    (g : Grammar) : Parser (String × Tokens) := do
  let attributes ← g.outerTokens
  let _ ← visibility
  let name ← name
  let fields ←
    if ← sees (·.atGroup .brace) then
      Prod.snd <$> g.fields
    else if ← sees (·.atGroup .parenthesis) then
      Prod.snd <$> g.positionalFields
    else
      pure []
  let value ←
    if ← sees (·.atMark "=") then
      let equals ← mark "="
      let value ← g.expression true
      pure (equals ++ value.tokens)
    else
      pure []
  return (wordText name, attributes ++ name :: fields ++ value)

/- An enumeration after its attributes and its visibility. -/
def enumItem
    (g : Grammar)
    (attributes : List Attribute)
    (visibility : Visibility) : Parser Item := do
  let keyword ← word "enum"
  let name ← name
  let generics ← g.generics
  let clause ← g.clause?
  let clauseTokens := (clause.map (·.tokens)).getD []
  let (variants, span) ← within .brace (listUntil (·.isEmpty) "," g.variant)
  let body := variants.flatMap fun ((_, tokens), comma) => tokens ++ comma
  return .enum attributes visibility (wordText name) (variants.map fun ((name, _), _) => name)
    (Attribute.outerTokens attributes ++ visibility.tokens ++ keyword ++
      name :: generics.tokens ++ clauseTokens ++ [.group .brace body span])

/- A union after its attributes and its visibility. -/
def unionItem
    (g : Grammar)
    (attributes : List Attribute)
    (visibility : Visibility) : Parser Item := do
  let keyword ← word "union"
  let name ← name
  let generics ← g.generics
  let clause ← g.clause?
  let clauseTokens := (clause.map (·.tokens)).getD []
  let (names, fields) ← g.fields
  return .union attributes visibility (wordText name) names
    (Attribute.outerTokens attributes ++ visibility.tokens ++ keyword ++
      name :: generics.tokens ++ clauseTokens ++ fields)

------------------------------------------------------------
-- Function Bodies and Macro Calls
------------------------------------------------------------

/- The body of a function: its attributes and its statements. -/
def functionBody
    (g : Grammar) : Parser (List Attribute × Tokens) := do
  let ((attributes, tokens), span) ← within .brace do
    let attributes ← g.innerAttributes
    let statements ← g.statements
    return (attributes, Attribute.innerTokens attributes ++ statements)
  return (attributes, [.group .brace tokens span])

/- A macro call as a member; without braces a semicolon ends it. -/
def memberMacro : Parser Tokens := do
  let (_, _, path) ← plainPath
  let (call, braced) ← macroCall
  let semicolon ← if braced then pure [] else mark ";"
  return path ++ call ++ semicolon

/- A macro call may start here. -/
def atMacroPath
    (trees : Tokens) : Bool :=
  trees.atName || trees.atWord "self" || trees.atWord "super" || trees.atWord "crate" ||
    trees.atMark "::"

/- The value of a constant or of a type, with its equality sign. -/
def valueAfterEquals
    (p : Parser Tokens) : Parser Tokens := do
  if ← sees (·.atMark "=") then
    let equals ← mark "="
    return equals ++ (← p)
  return []

/-
  A constant from its keyword on: its tokens, whether it has
  parameters or a clause, and whether it has a value.
-/
def constant
    (g : Grammar) : Parser (Tokens × Bool × Bool) := do
  let keyword ← word "const"
  let name ← if ← sees (·.atWord "_") then anyWord else name
  let generics ← g.generics
  let colon ← mark ":"
  let type ← g.type true
  let value ← valueAfterEquals (Expression.tokens <$> g.expression true)
  let clause ← g.clause?
  let semicolon ← mark ";"
  let generic := !generics.opening.isEmpty || clause.isSome
  return (keyword ++ name :: colon ++ type.tokens ++ value ++ semicolon,
    generic, !value.isEmpty)

/- Where a type declaration may have its clause. -/
inductive ClausePlace where
  | beforeValue
  | afterValue
  | both
deriving DecidableEq

/- A type declaration in parts: bounds with colon, and value with equality sign. -/
structure TypeDeclaration where
  head : Tokens
  colon : Bool
  bounds : Tokens
  first : Tokens
  value : Tokens
  last : Tokens
  semicolon : Tokens

/- A type declaration from its keyword on. -/
def typeDeclaration
    (g : Grammar)
    (place : ClausePlace) : Parser TypeDeclaration := do
  let keyword ← word "type"
  let name ← name
  let generics ← g.generics
  let colon ← mark? ":"
  let bounds ←
    if colon.isEmpty then
      pure []
    else
      flatten <$> listUntil
        (fun trees => trees.atWord "where" || trees.atMark "=" || trees.atMark ";") "+"
        (Prod.snd <$> g.bound false true)
  let before ← if place = .afterValue then pure none else g.clause?
  let value ← valueAfterEquals (Ty.tokens <$> g.type true)
  let after ← if place = .beforeValue || before.isSome then pure none else g.clause?
  let semicolon ← mark ";"
  return {
    head := keyword ++ name :: generics.tokens
    colon := !colon.isEmpty
    bounds := if bounds.isEmpty then [] else colon ++ bounds
    first := (before.map (·.tokens)).getD []
    value := value
    last := (after.map (·.tokens)).getD []
    semicolon := semicolon }

------------------------------------------------------------
-- Traits
------------------------------------------------------------

/- A function of a trait, with a body or without. -/
def traitFunction
    (g : Grammar) : Parser (TraitMember × Tokens) := do
  let signature ← g.signature false
  if ← sees (·.atGroup .brace) then
    let (_, body) ← g.functionBody
    return (.function signature.name, signature.tokens ++ body)
  let semicolon ← mark ";"
  return (.function signature.name, signature.tokens ++ semicolon)

/- A member of a trait after its attributes, if it is taken apart. -/
def traitMemberBody
    (g : Grammar)
    (inherited : Bool) : Parser (Option (TraitMember × Tokens)) := do
  if ← sees (atSignature false) then
    return some (← g.traitFunction)
  if ← sees (·.atWord "const") then
    let (tokens, generic, _) ← g.constant
    return if generic then none else some (.other, tokens)
  if ← sees (·.atWord "type") then
    let t ← g.typeDeclaration .afterValue
    return some (.other, t.head ++ t.bounds ++ t.value ++ t.last ++ t.semicolon)
  if ← sees fun trees => inherited && atMacroPath trees then
    return some (.other, ← memberMacro)
  refuse

/-
  A member of a trait.  One with a visibility or a default
  mark is kept as written.
-/
def traitMember
    (g : Grammar) : Parser (TraitMember × Tokens) :=
  orAsWritten (do
    let attributes ← g.outerTokens
    let visibility ← visibility
    let default ← word? "default"
    let inherited := visibility.scope = .inherited && default.isEmpty
    let found ← g.traitMemberBody inherited
    return if inherited then found.map fun (member, tokens) => (member, attributes ++ tokens)
      else none)
    fun tokens => (.other, tokens)

/- The members of a trait with the attributes before them. -/
def traitBody
    (g : Grammar) : Parser (List Attribute × List TraitMember × Tokens) := do
  let ((attributes, members, tokens), span) ← within .brace do
    let attributes ← g.innerAttributes
    let members ← manyToEnd g.traitMember
    let tokens := Attribute.innerTokens attributes ++ members.flatMap Prod.snd
    return (attributes, members.map Prod.fst, tokens)
  return (attributes, members, [.group .brace tokens span])

/- What ends the list of traits after a name. -/
def endsSupertraits
    (trees : Tokens) : Bool :=
  trees.atWord "where" || trees.atGroup .brace

/- A trait after its attributes and its visibility. -/
def traitItem
    (g : Grammar)
    (attributes : List Attribute)
    (visibility : Visibility) : Parser Item := do
  let unsafety ← word? "unsafe"
  let auto ← word? "auto"
  let keyword ← word "trait"
  let name ← name
  let generics ← g.generics
  let head := Attribute.outerTokens attributes ++ visibility.tokens ++ unsafety ++ auto ++
    keyword ++ name :: generics.tokens
  if ← sees fun trees => unsafety.isEmpty && auto.isEmpty && trees.atMark "=" then
    let equals ← mark "="
    let bounds ← flatten <$> listUntil (fun trees => trees.atWord "where" || trees.atMark ";")
      "+" (Prod.snd <$> g.bound false false)
    let clause ← g.clause?
    let clauseTokens := (clause.map (·.tokens)).getD []
    let semicolon ← mark ";"
    return .marked attributes (head ++ equals ++ bounds ++ clauseTokens ++ semicolon)
  let colon ← mark? ":"
  let bounds ←
    if colon.isEmpty then
      pure []
    else
      flatten <$> listUntil endsSupertraits "+" (Prod.snd <$> g.bound false true)
  let supertraits := if bounds.isEmpty then [] else colon ++ bounds
  let clause ← g.clause?
  let clauseTokens := (clause.map (·.tokens)).getD []
  let (inner, members, body) ← g.traitBody
  return .trait (attributes ++ inner) visibility (!unsafety.isEmpty) (wordText name) members
    (head ++ supertraits ++ clauseTokens ++ body)

------------------------------------------------------------
-- Implementations
------------------------------------------------------------

/- A function of an implementation, if it has a body. -/
def implFunction
    (g : Grammar)
    (attributes : Tokens)
    (visibility : Visibility)
    (default : Tokens) : Parser (Option (ImplMember × Tokens)) := do
  let signature ← g.signature false
  if ← sees (·.atMark ";") then
    let _ ← mark ";"
    return none
  let (_, body) ← g.functionBody
  return some (.function visibility signature,
    attributes ++ visibility.tokens ++ default ++ signature.tokens ++ body)

/- A member of an implementation; some are kept as written. -/
def implMember
    (g : Grammar) : Parser (ImplMember × Tokens) :=
  orAsWritten (do
    let attributes ← g.outerTokens
    let visibility ← visibility
    let default ← Parser.when (fun trees => trees.atWord "default" && !trees.skip.atMark "!")
      (word "default")
    let head := attributes ++ visibility.tokens ++ default
    if ← sees (atSignature false) then
      g.implFunction attributes visibility default
    else if ← sees (·.atWord "const") then
      let (tokens, generic, valued) ← g.constant
      return if generic || !valued then none else some (.other, head ++ tokens)
    else if ← sees (·.atWord "type") then
      let t ← g.typeDeclaration .afterValue
      return if t.colon || t.value.isEmpty then none
        else some (.other, head ++ t.head ++ t.value ++ t.last ++ t.semicolon)
    else if ← sees fun trees => visibility.scope = .inherited && default.isEmpty &&
        atMacroPath trees then
      return some (.other, head ++ (← memberMacro))
    else
      refuse)
    fun tokens => (.other, tokens)

/- The members of an implementation with the attributes before them. -/
def implBody
    (g : Grammar) : Parser (List Attribute × List ImplMember × Tokens) := do
  let ((attributes, members, tokens), span) ← within .brace do
    let attributes ← g.innerAttributes
    let members ← manyToEnd g.implMember
    let tokens := Attribute.innerTokens attributes ++ members.flatMap Prod.snd
    return (attributes, members.map Prod.fst, tokens)
  return (attributes, members, [.group .brace tokens span])

/- A type that can stand for a trait. -/
def isTraitPath : Ty → Bool
  | .path _ => true
  | _ => false

/-
  The target of an implementation: whether it is of a trait,
  whether it is taken apart, its type, and its tokens.
-/
def implTarget
    (g : Grammar) : Parser (Bool × Bool × Ty × Tokens) := do
  let negative ← sees fun trees => trees.atMark "!" && !trees.skip.atGroup .brace
  let ((polarity, first), asWritten) ← written do
    let polarity ← if negative then mark "!" else pure []
    return (polarity, ← g.type true)
  if ← sees (·.atWord "for") then
    let keyword ← word "for"
    let self ← g.type true
    return (isTraitPath first, isTraitPath first, self,
      polarity ++ first.tokens ++ keyword ++ self.tokens)
  if negative then
    return (false, true, .other asWritten, asWritten)
  return (false, true, first, first.tokens)

/- An implementation after its attributes, if it is taken apart. -/
def implItem
    (g : Grammar)
    (attributes : List Attribute)
    (visibility : Visibility) : Parser (Option ImplItem) := do
  let default ← word? "default"
  let unsafety ← word? "unsafe"
  let keyword ← word "impl"
  let generics ← if ← sees atGenerics then g.generics else pure .empty
  let constant ← sees fun trees =>
    trees.atWord "const" || (trees.atMark "?" && trees.skip.atWord "const")
  if constant then
    let _ ← mark? "?"
    let _ ← word "const"
  let (ofTrait, apart, self, target) ← g.implTarget
  let clause ← g.clause?
  let clauseTokens := (clause.map (·.tokens)).getD []
  let (inner, members, body) ← g.implBody
  if visibility.scope ≠ .inherited || constant || !apart then
    return none
  return some {
    attributes := attributes ++ inner
    unsafety := !unsafety.isEmpty
    ofTrait := ofTrait
    self := self
    members := members
    tokens := Attribute.outerTokens attributes ++ default ++ unsafety ++ keyword ++
      generics.tokens ++ target ++ clauseTokens ++ body }

------------------------------------------------------------
-- Modules and Imports
------------------------------------------------------------

/- A module after its attributes and its visibility. -/
def moduleItem
    (g : Grammar)
    (attributes : List Attribute)
    (visibility : Visibility) : Parser Item := do
  let unsafety ← word? "unsafe"
  let keyword ← word "mod"
  let name ← if ← sees (·.atWord "try") then anyWord else name
  let head := Attribute.outerTokens attributes ++ visibility.tokens ++ unsafety ++ keyword ++
    [name]
  if ← sees (·.atMark ";") then
    return .module attributes none (head ++ (← mark ";"))
  let ((inner, items), span) ← within .brace do
    let inner ← g.innerAttributes
    let items ← manyToEnd g.item
    return (inner, items)
  let content := Attribute.innerTokens inner ++ items.flatMap (·.tokens)
  return .module (attributes ++ inner) (some items) (head ++ [.group .brace content span])

/- A new name for an import. -/
def rename : Parser Tokens := do
  if ← sees (·.atWord "_") then word "_" else return [← name]

/-
  What an import brings in, or nothing if it is kept as
  written because a path in it starts at the root.
-/
def useTreeWith
    (g : Grammar)
    (allowRoot : Bool) : Parser (Option Tokens) := do
  if ← sees fun trees => trees.atName || trees.atWord "self" || trees.atWord "super" ||
      trees.atWord "crate" || trees.atWord "try" then
    let name ← anyWord
    if ← sees (·.atMark "::") then
      let colons ← mark "::"
      match ← g.useTree false with
      | some tree => return some (name :: colons ++ tree)
      | none => refuse
    if ← sees (·.atWord "as") then
      let keyword ← word "as"
      return some (name :: keyword ++ (← rename))
    return some [name]
  if ← sees (·.atMark "*") then
    return some (← mark "*")
  let (trees, span) ← within .brace <| listUntil (·.isEmpty) "," do
    let root ← if allowRoot then mark? "::" else pure []
    let tree ← g.useTree (allowRoot && root.isEmpty)
    return if root.isEmpty then tree else none
  if trees.all (·.1.isSome) then
    let content := trees.flatMap fun (tree, comma) => tree.getD [] ++ comma
    return some [.group .brace content span]
  return none

/- An import after its attributes and its visibility. -/
def useItem
    (g : Grammar)
    (head : Tokens) : Parser (Option Tokens) := do
  let keyword ← word "use"
  let leading ← mark? "::"
  let tree ← g.useTree leading.isEmpty
  let semicolon ← mark ";"
  return tree.map fun tree => head ++ keyword ++ leading ++ tree ++ semicolon

/- The import of a library. -/
def externCrate : Parser Tokens := do
  let keyword ← word "extern"
  let crate ← word "crate"
  let name ← if ← sees (·.atWord "self") then anyWord else name
  let renamed ←
    if ← sees (·.atWord "as") then
      let as_ ← word "as"
      pure (as_ ++ (← rename))
    else
      pure []
  let semicolon ← mark ";"
  return keyword ++ crate ++ name :: renamed ++ semicolon

------------------------------------------------------------
-- Foreign Declarations
------------------------------------------------------------

/- A foreign function, if it is taken apart. -/
def foreignFunction
    (g : Grammar)
    (head : Tokens) : Parser (Option Tokens) := do
  let marked ← sees fun trees => (after "async" (after "const" trees)).atWord "safe"
  let signature ← g.signature true
  if ← sees (·.atGroup .brace) then
    let _ ← g.functionBody
    return none
  let semicolon ← mark ";"
  return if marked then none else some (head ++ signature.tokens ++ semicolon)

/- A foreign variable, if it is taken apart. -/
def foreignStatic
    (g : Grammar)
    (head : Tokens) : Parser (Option Tokens) := do
  let unsafety ← word? "unsafe"
  let safety ← if unsafety.isEmpty then word? "safe" else pure []
  let keyword ← word "static"
  let mutability ← word? "mut"
  let name ← name
  let colon ← mark ":"
  let type ← g.type true
  let value ← valueAfterEquals (Expression.tokens <$> g.expression true)
  let semicolon ← mark ";"
  return if unsafety.isEmpty && safety.isEmpty && value.isEmpty then
      some (head ++ keyword ++ mutability ++ name :: colon ++ type.tokens ++ semicolon)
    else
      none

/- A foreign declaration; some are kept as written. -/
def foreignMember
    (g : Grammar) : Parser Tokens :=
  orAsWritten (do
    let attributes ← g.outerTokens
    let visibility ← visibility
    let head := attributes ++ visibility.tokens
    if ← sees (atSignature true) then
      g.foreignFunction head
    else if ← sees fun trees => trees.atWord "static" ||
        ((trees.atWord "unsafe" || trees.atWord "safe") && trees.skip.atWord "static") then
      g.foreignStatic head
    else if ← sees (·.atWord "type") then
      let t ← g.typeDeclaration .both
      return if t.colon || !t.value.isEmpty then none
        else some (head ++ t.head ++ t.first ++ t.last ++ t.semicolon)
    else if ← sees fun trees => visibility.scope = .inherited && atMacroPath trees then
      return some (head ++ (← memberMacro))
    else
      refuse)
    id

/- A block of foreign declarations after its attributes. -/
def foreignModule
    (g : Grammar)
    (attributes : List Attribute) : Parser Tokens := do
  let unsafety ← word? "unsafe"
  let convention ← abi
  let body ← group .brace do
    let inner ← g.innerTokens
    let members ← manyToEnd g.foreignMember
    return inner ++ members.flatten
  return Attribute.outerTokens attributes ++ unsafety ++ convention ++ body

------------------------------------------------------------
-- Other Items
------------------------------------------------------------

/- A function after its attributes and its visibility, if it has a body. -/
def functionItem
    (g : Grammar)
    (attributes : List Attribute)
    (visibility : Visibility) : Parser (Option Item) := do
  let signature ← g.signature false
  if ← sees (·.atMark ";") then
    let _ ← mark ";"
    return none
  let (inner, body) ← g.functionBody
  return some (.marked (attributes ++ inner)
    (Attribute.outerTokens attributes ++ visibility.tokens ++ signature.tokens ++ body))

/- A variable after its attributes and its visibility, if it has a type and a value. -/
def staticItem
    (g : Grammar)
    (attributes : List Attribute)
    (visibility : Visibility) : Parser (Option Item) := do
  let keyword ← word "static"
  let mutability ← word? "mut"
  let name ← name
  if ← sees (·.atMark "=") then
    let _ ← mark "="
    let _ ← g.expression true
    let _ ← mark ";"
    return none
  let colon ← mark ":"
  let type ← g.type true
  if ← sees (·.atMark ";") then
    let _ ← mark ";"
    return none
  let equals ← mark "="
  let value ← g.expression true
  let semicolon ← mark ";"
  return some (.marked attributes (Attribute.outerTokens attributes ++ visibility.tokens ++
    keyword ++ mutability ++ name :: colon ++ type.tokens ++ equals ++ value.tokens ++ semicolon))

/- A macro definition by keyword, which is kept as written. -/
def macroDefinition : Parser Unit := do
  let _ ← word "macro"
  let _ ← name
  let _ ← Parser.when (·.atGroup .parenthesis) (rawGroup .parenthesis)
  let _ ← rawGroup .brace

/- A macro call as an item, perhaps with a name. -/
def itemMacro : Parser Tokens := do
  let (_, _, path) ← plainPath
  let bang ← mark "!"
  let name ←
    if ← sees fun trees => trees.atWord "try" || trees.atName then
      pure [← anyWord]
    else
      pure []
  let body ← anyGroup
  let semicolon ← if Tokens.atGroup .brace [body] then pure [] else mark ";"
  return path ++ bang ++ name ++ [body] ++ semicolon

/- Foreign declarations come next. -/
def atForeignModule
    (trees : Tokens) : Bool :=
  trees.atWord "extern" && (afterAbi trees).atGroup .brace

------------------------------------------------------------
-- Items
------------------------------------------------------------

/- An item after its attributes, if it is taken apart. -/
def itemBody
    (g : Grammar)
    (attributes : List Attribute) : Parser (Option Item) := do
  let visibility ← visibility
  let inherited := visibility.scope = .inherited
  let head := Attribute.outerTokens attributes ++ visibility.tokens
  if ← sees (atSignature false) then
    g.functionItem attributes visibility
  else if ← sees fun trees => trees.atWord "extern" && trees.skip.atWord "crate" then
    return some (.bare (head ++ (← externCrate)))
  else if ← sees fun trees => inherited && (atForeignModule trees ||
      (trees.atWord "unsafe" && trees.skip.atWord "extern")) then
    return some (.bare (← g.foreignModule attributes))
  else if ← sees (·.atWord "use") then
    return (← g.useItem head).map .bare
  else if ← sees (·.atWord "static") then
    g.staticItem attributes visibility
  else if ← sees (·.atWord "const") then
    let (tokens, generic, valued) ← g.constant
    return if generic || !valued then none else some (.marked attributes (head ++ tokens))
  else if ← sees fun trees => (after "unsafe" trees).atWord "mod" then
    return some (← g.moduleItem attributes visibility)
  else if ← sees (·.atWord "type") then
    let t ← g.typeDeclaration .beforeValue
    return if t.colon || t.value.isEmpty then none
      else some (.marked attributes (head ++ t.head ++ t.first ++ t.value ++ t.semicolon))
  else if ← sees (·.atWord "struct") then
    return some (.struct (← g.structItem attributes visibility))
  else if ← sees (·.atWord "enum") then
    return some (← g.enumItem attributes visibility)
  else if ← sees fun trees => trees.atWord "union" && trees.skip.atName then
    return some (← g.unionItem attributes visibility)
  else if ← sees fun trees =>
      let rest := after "unsafe" trees
      rest.atWord "trait" || (rest.atWord "auto" && rest.skip.atWord "trait") then
    return some (← g.traitItem attributes visibility)
  else if ← sees fun trees => (after "unsafe" trees).atWord "impl" ||
      (trees.atWord "default" && !trees.skip.atMark "!") then
    return (← g.implItem attributes visibility).map .impl
  else if ← sees (·.atWord "macro") then
    macroDefinition
    return none
  else if ← sees fun trees => inherited && atMacroPath trees then
    return some (.bare (head ++ (← itemMacro)))
  else
    refuse

/- An item. -/
def itemWith
    (g : Grammar) : Parser Item :=
  orAsWritten (do
    let attributes ← g.outerAttributes
    g.itemBody attributes)
    .bare

end Grammar

end Nullary
