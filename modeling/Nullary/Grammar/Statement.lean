import Nullary.Grammar.Expression

/-
  Statements.

  Key definitions include:
    * `Grammar.binding`
    * `Grammar.statement`
    * `Grammar.statementList`
-/

namespace Nullary

namespace Grammar

open Nullary.Parser

------------------------------------------------------------
-- Single Statements
------------------------------------------------------------

/- A local binding, perhaps with an alternative that diverges. -/
def localBinding
    (g : Grammar) : Parser Tokens := do
  let keyword ← word "let"
  let pattern ← g.pattern
  let type ←
    if ← sees (·.atMark ":") then
      let colon ← mark ":"
      let type ← g.type true
      pure (colon ++ type.tokens)
    else
      pure []
  let value ←
    if ← sees (·.atMark "=") then
      let equals ← mark "="
      let value ← g.expression true
      if !value.endsInBrace && (← sees (·.atWord "else")) then
        let otherwise ← word "else"
        pure (equals ++ value.tokens ++ otherwise ++ (← g.block))
      else
        pure (equals ++ value.tokens)
    else
      pure []
  let semicolon ← mark ";"
  return keyword ++ pattern.tokens ++ type ++ value ++ semicolon

/- The path of a macro call, for what follows its exclamation mark. -/
def afterMacroPath : Parser Tokens := do
  let _ ← plainPath
  require (·.atMark "!")
  look Tokens.skip

/- A macro call that declares an item comes next. -/
def atItemMacro
    (trees : Tokens) : Bool :=
  match afterMacroPath.run trees with
  | some (rest, _) => rest.atName || rest.atWord "try"
  | none => false

/- A macro call with braces that is a whole statement comes next. -/
def atStatementMacro
    (trees : Tokens) : Bool :=
  match afterMacroPath.run trees with
  | some (rest, _) =>
      !rest.atName && !rest.atWord "try" && rest.atGroup .brace &&
        !(rest.skip.atDot || rest.skip.atMark "?")
  | none => false

/- An item comes next. -/
def atItem
    (trees : Tokens) : Bool :=
  let second := trees.skip
  let third := second.skip
  trees.atWord "pub" ||
    (trees.atWord "crate" && !second.atMark "::") ||
    trees.atWord "extern" || trees.atWord "use" ||
    (trees.atWord "static" && (second.atWord "mut" || second.atName)) ||
    (trees.atWord "const" &&
      !(second.atGroup .brace || second.atWord "static" ||
        (second.atWord "async" &&
          !(third.atWord "unsafe" || third.atWord "extern" || third.atWord "fn")) ||
        second.atWord "move" || second.atMark "|")) ||
    (trees.atWord "unsafe" && !second.atGroup .brace) ||
    (trees.atWord "async" &&
      (second.atWord "unsafe" || second.atWord "extern" || second.atWord "fn")) ||
    trees.atWord "fn" || trees.atWord "mod" || trees.atWord "type" ||
    trees.atWord "struct" || trees.atWord "enum" ||
    (trees.atWord "union" && second.atName) ||
    (trees.atWord "auto" && second.atWord "trait") ||
    trees.atWord "trait" ||
    (trees.atWord "default" && (second.atWord "unsafe" || second.atWord "impl")) ||
    trees.atWord "impl" || trees.atWord "macro" || atItemMacro trees

/- Trees after the attributes at their start. -/
def withoutAttributes
    (g : Grammar)
    (trees : Tokens) : Tokens :=
  match g.outerAttributes.run trees with
  | some (_, rest) => rest
  | none => trees

/- A statement, and whether a semicolon must follow it if it is not the last one. -/
def statement
    (g : Grammar) : Parser (Tokens × Bool) := do
  if ← sees fun trees => atStatementMacro (g.withoutAttributes trees) then
    let attributes ← g.outerTokens
    let (_, _, path) ← plainPath
    let (call, _) ← macroCall
    let semicolon ← mark? ";"
    return (attributes ++ path ++ call ++ semicolon, false)
  if ← sees fun trees => (g.withoutAttributes trees).atWord "let" then
    let attributes ← g.outerTokens
    let binding ← g.localBinding
    return (attributes ++ binding, false)
  if ← sees fun trees => atItem (g.withoutAttributes trees) then
    let item ← g.item
    return (item.tokens, false)
  let attributes ← g.outerTokens
  let value ← g.leading
  let semicolon ← mark? ";"
  return (attributes ++ value.tokens ++ semicolon,
    semicolon.isEmpty && value.needsSemicolon)

------------------------------------------------------------
-- Statement Lists
------------------------------------------------------------

/- The statements of a block up to its end. -/
def statementList
    (g : Grammar) : Parser Tokens :=
  iterate [] fun found => do
    if ← sees (·.isEmpty) then
      return (found, false)
    if ← sees (·.atMark ";") then
      return (found ++ (← mark ";"), true)
    let (tokens, open_) ← g.statement
    if ← sees (·.isEmpty) then
      return (found ++ tokens, false)
    if open_ then
      refuse
    return (found ++ tokens, true)

end Grammar

end Nullary
