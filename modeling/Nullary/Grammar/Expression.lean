import Nullary.Grammar.Operator
import Nullary.Grammar.Pattern

/-
  Expressions.

  Operators are read by precedence climbing: `operandWith`
  reads the right side of an operator, and `continueFrom`
  goes on from a left side with operators that bind at least
  as tightly as a given level.

  Key definitions include:
    * `Grammar.trailers`
    * `Grammar.atom`
    * `Grammar.unaryWith`
    * `Grammar.continueFrom`
    * `Grammar.operandWith`
    * `Grammar.expressionWith`
    * `Grammar.leadingExpression`
-/

namespace Nullary

------------------------------------------------------------
-- Shapes
------------------------------------------------------------

namespace Expression

/- An expression of no particular shape. -/
def plain
    (tokens : Tokens) : Expression :=
  ⟨.other, tokens⟩

/- A block expression, which ends a statement and a match arm. -/
def isBlock
    (e : Expression) : Bool :=
  e.shape == .block

/- An expression that needs a semicolon to be a statement. -/
def needsSemicolon
    (e : Expression) : Bool :=
  e.shape != .block && e.shape != .call true

/- An expression whose last token is a group in braces. -/
def endsInBrace
    (e : Expression) : Bool :=
  match e.tokens.getLast? with
  | some tree => Tokens.atGroup .brace [tree]
  | none => false

end Expression

namespace Grammar

open Nullary.Parser

------------------------------------------------------------
-- Records, Tuples and Sequences
------------------------------------------------------------

/- A field of a record expression. -/
def fieldValue
    (g : Grammar) : Parser Tokens := do
  let attributes ← g.outerTokens
  let (named, field) ← member
  if !named || (← sees (·.atMark ":")) then
    let colon ← mark ":"
    let value ← g.expression true
    return attributes ++ field :: colon ++ value.tokens
  return attributes ++ [field]

/- The fields of a record expression, perhaps with a base. -/
def fieldValues
    (g : Grammar) : Parser Tokens :=
  iterate [] fun found => do
    if ← sees (·.isEmpty) then
      return (found, false)
    if ← sees (·.atMark "..") then
      let dots ← mark ".."
      if ← sees (·.isEmpty) then
        return (found ++ dots, false)
      let base ← g.expression true
      return (found ++ dots ++ base.tokens, false)
    let field ← g.fieldValue
    let found := found ++ field
    if ← sees (·.isEmpty) then
      return (found, false)
    return (found ++ (← mark ","), true)

/- Expressions separated by commas. -/
def expressionList
    (g : Grammar) : Parser Tokens :=
  commaList (Expression.tokens <$> g.expression true)

/- A list of expressions, or an expression repeated. -/
def sequenceContent
    (g : Grammar) : Parser Tokens := do
  if ← sees (·.isEmpty) then
    return []
  let first ← g.expression true
  if ← sees (·.isEmpty) then
    return first.tokens
  if ← sees (·.atMark ",") then
    let comma ← mark ","
    return first.tokens ++ comma ++ (← g.expressionList)
  let semicolon ← mark ";"
  let length ← g.expression true
  return first.tokens ++ semicolon ++ length.tokens

/- A path, a macro call, or a record. -/
def pathExpression
    (g : Grammar)
    (allowRecord : Bool) : Parser Expression := do
  let (qualified, path) ← g.qualifiedPath true
  if !qualified && path.isPlain && (← sees atMacroCall) then
    let (call, braced) ← macroCall
    return ⟨.call braced, path.tokens ++ call⟩
  if allowRecord && (← sees (·.atGroup .brace)) then
    let fields ← group .brace g.fieldValues
    return .plain (path.tokens ++ fields)
  return .plain path.tokens

------------------------------------------------------------
-- Control Flow
------------------------------------------------------------

/- One branch of a conditional: its condition and its block. -/
def conditionalBranch
    (g : Grammar) : Parser Tokens := do
  let keyword ← word "if"
  let condition ← g.expression false
  let body ← g.block
  return keyword ++ condition.tokens ++ body

/- A conditional with all its branches. -/
def conditional
    (g : Grammar) : Parser Tokens := do
  let first ← g.conditionalBranch
  iterate first fun found => do
    if ← sees (·.atWord "else") then
      let keyword ← word "else"
      if ← sees (·.atWord "if") then
        return (found ++ keyword ++ (← g.conditionalBranch), true)
      return (found ++ keyword ++ (← g.block), false)
    return (found, false)

/- A loop over the values of an expression. -/
def forLoop
    (g : Grammar) : Parser Tokens := do
  let keyword ← word "for"
  let pattern ← g.alternatives
  let inWord ← word "in"
  let values ← g.expression false
  let body ← g.attributedBlock
  return keyword ++ pattern.tokens ++ inWord ++ values.tokens ++ body

/- A loop with a condition. -/
def whileLoop
    (g : Grammar) : Parser Tokens := do
  let keyword ← word "while"
  let condition ← g.expression false
  let body ← g.attributedBlock
  return keyword ++ condition.tokens ++ body

/- A loop without a condition. -/
def endlessLoop
    (g : Grammar) : Parser Tokens := do
  let keyword ← word "loop"
  return keyword ++ (← g.attributedBlock)

/- A word followed by a block with attributes. -/
def wordBlock
    (g : Grammar)
    (keyword : String) : Parser Tokens := do
  let found ← word keyword
  return found ++ (← g.attributedBlock)

/- A loop or a block with a label. -/
def labelled
    (g : Grammar) : Parser Expression := do
  let label ← lifetime
  let colon ← mark ":"
  let body ←
    if ← sees (·.atWord "while") then
      g.whileLoop
    else if ← sees (·.atWord "for") then
      g.forLoop
    else if ← sees (·.atWord "loop") then
      g.endlessLoop
    else
      g.attributedBlock
  return ⟨.block, label ++ colon ++ body⟩

/- The value that a jump carries, if it has one. -/
def jumpValue
    (g : Grammar) : Parser Tokens := do
  if ← sees (·.atExpression) then
    return (← g.expression true).tokens
  return []

/- A jump out of a loop or a block, perhaps with a value. -/
def breakExpression
    (g : Grammar)
    (allowRecord : Bool) : Parser Tokens := do
  let keyword ← word "break"
  if ← sees fun trees => trees.atLifetime && trees.skip.atMark ":" then
    refuse
  let label ← lifetime?
  if ← sees fun trees => !allowRecord && trees.atGroup .brace then
    return keyword ++ label
  return keyword ++ label ++ (← g.jumpValue)

/- A parameter of a closure. -/
def closureParameter
    (g : Grammar) : Parser Tokens := do
  let attributes ← g.outerTokens
  let pattern ← g.pattern
  if ← sees (·.atMark ":") then
    let colon ← mark ":"
    let type ← g.type true
    return attributes ++ pattern.tokens ++ colon ++ type.tokens
  return attributes ++ pattern.tokens

/- A closure. -/
def closure
    (g : Grammar)
    (allowRecord : Bool) : Parser Tokens := do
  let quantifier ← g.quantifier?
  let constness ← word? "const"
  let movability ← word? "static"
  let asyncness ← word? "async"
  let capture ← word? "move"
  let opening ← mark "|"
  let parameters ← flatten <$> listUntil (·.atMark "|") "," g.closureParameter
  let closing ← mark "|"
  let head := quantifier ++ constness ++ movability ++ asyncness ++ capture ++ opening ++
    parameters ++ closing
  if ← sees (·.atMark "->") then
    let (_, result) ← g.result true
    return head ++ result ++ (← g.block)
  let body ← g.expression allowRecord
  return head ++ body.tokens

/- A condition that binds a pattern, which binds as tightly as a comparison. -/
def binds
    (g : Grammar)
    (continuation : Expression → Parser Expression)
    (allowRecord : Bool) : Parser Tokens := do
  let keyword ← word "let"
  let pattern ← g.alternatives
  let equals ← mark "="
  let left ← g.unary allowRecord
  let value ← continuation left
  return keyword ++ pattern.tokens ++ equals ++ value.tokens

------------------------------------------------------------
-- Ranges
------------------------------------------------------------

/- The dots of a range. -/
def dots : Parser (Bool × Tokens) := do
  if ← sees (·.atMark "..=") then
    return (true, ← mark "..=")
  if ← sees (·.atMark "...") then
    refuse
  return (false, ← mark "..")

/- A half-open range ends here. -/
def endsRange
    (allowRecord : Bool)
    (trees : Tokens) : Bool :=
  trees.isEmpty || trees.atMark "," || trees.atMark ";" || trees.atDot || trees.atMark "?" ||
    trees.atMark "=>" || (!allowRecord && trees.atGroup .brace) || trees.atMark "=" ||
    trees.atMark "+" || trees.atMark "/" || trees.atMark "%" || trees.atMark "^" ||
    trees.atMark ">" || trees.atMark "<=" || trees.atMark "!=" || trees.atMark "-=" ||
    trees.atMark "*=" || trees.atMark "&=" || trees.atMark "|=" || trees.atMark "<<=" ||
    trees.atWord "as"

/- The dots and the end of a range. -/
def rangeTail
    (g : Grammar)
    (allowRecord : Bool) : Parser Tokens := do
  let (closed, dots) ← dots
  if ← sees fun trees => !closed && endsRange allowRecord trees then
    return dots
  let stop ← g.operand allowRecord Level.range
  return dots ++ stop.tokens

------------------------------------------------------------
-- Continuations
------------------------------------------------------------

/- Nothing that selects or calls may follow a cast. -/
def followsCast
    (trees : Tokens) : Bool :=
  trees.atDot || trees.atMark "?" || trees.atGroup .bracket || trees.atGroup .parenthesis

/- One more operator after a left side, if it binds tightly enough. -/
def continueStep
    (g : Grammar)
    (allowRecord : Bool)
    (base : Nat)
    (left : Expression) : Parser (Expression × Bool) := do
  if left.shape = .range then
    return (left, false)
  match ← look Tokens.operator? with
  | some (operator, level) =>
      if level < base then
        return (left, false)
      if level = Level.compare && left.shape = .comparison then
        refuse
      let symbol ← mark operator
      let right ← g.operand allowRecord level
      let shape := if level = Level.compare then .comparison else .other
      return (⟨shape, left.tokens ++ symbol ++ right.tokens⟩, true)
  | none =>
      if base ≤ Level.assign && (← sees (·.atAssignment)) then
        let equals ← mark "="
        let right ← g.operand allowRecord Level.assign
        return (.plain (left.tokens ++ equals ++ right.tokens), true)
      if base ≤ Level.range && (← sees (·.atMark "..")) then
        let tail ← g.rangeTail allowRecord
        return (⟨.range, left.tokens ++ tail⟩, true)
      if base ≤ Level.cast && (← sees (·.atWord "as")) then
        let keyword ← word "as"
        let type ← g.type false
        if ← sees followsCast then
          refuse
        return (.plain (left.tokens ++ keyword ++ type.tokens), true)
      return (left, false)

/- Go on from a left side with operators of at least a level. -/
def continueFrom
    (g : Grammar)
    (allowRecord : Bool)
    (base : Nat)
    (left : Expression) : Parser Expression :=
  iterate left (g.continueStep allowRecord base)

/-
  The right side of an operator of a level: what follows
  binds to it if it is tighter, or an assignment in an
  assignment.
-/
def operandWith
    (g : Grammar)
    (allowRecord : Bool)
    (level : Nat) : Parser Expression := do
  let first ← g.unary allowRecord
  iterate first fun right => do
    let next ← look Tokens.nextLevel
    if level < next || (next = level && level = Level.assign) then
      let before ← look List.length
      let right ← g.continueFrom allowRecord next right
      let after ← look List.length
      return (right, after < before)
    return (right, false)

/- An expression. -/
def expressionWith
    (g : Grammar)
    (allowRecord : Bool) : Parser Expression := do
  let left ← g.unary allowRecord
  g.continueFrom allowRecord Level.lowest left

------------------------------------------------------------
-- Selections, Calls and Indices
------------------------------------------------------------

/-
  The positions that a floating point literal after a dot
  holds, and whether it ends in a dot.
-/
def positions : Parser (Tokens × Bool) :=
  tree fun
    | .literal text span =>
        if !Tokens.isNumber text || !text.toList.contains '.' then
          none
        else do
          let trailing := text.toList.getLast? == some '.'
          let parts := (text.splitOn ".").filter (· != "")
          let found ← parts.mapM fun part => fieldPosition? part.toList
          let literals := found.map fun n => TokenTree.literal (toString n) span
          let dot := TokenTree.mark '.' false span
          let dotted := literals.intersperse dot
          return (if trailing then dotted ++ [dot] else dotted, trailing)
    | _ => none

/- A field, a method call, or the wait for a value. -/
def selected
    (g : Grammar) : Parser Tokens := do
  if ← sees (·.atWord "await") then
    return ← word "await"
  let (named, field) ← member
  let arguments ←
    if named && (← sees (·.atMark "::")) then g.arguments else pure []
  if named && (!arguments.isEmpty || (← sees (·.atGroup .parenthesis))) then
    let call ← group .parenthesis g.expressionList
    return field :: arguments ++ call
  return [field]

/- What stands after a dot. -/
def selection
    (g : Grammar) : Parser Tokens := do
  match ← attempt positions with
  | some (tokens, false) => return tokens
  | some (tokens, true) => return tokens ++ (← g.selected)
  | none => g.selected

/- One more call, selection, index or question after an expression. -/
def trailerStep
    (g : Grammar)
    (e : Expression) : Parser (Expression × Bool) := do
  if ← sees (·.atGroup .parenthesis) then
    let arguments ← group .parenthesis g.expressionList
    return (.plain (e.tokens ++ arguments), true)
  if ← sees fun trees => trees.atDot && e.shape != .range then
    let dot ← mark "."
    let selected ← g.selection
    return (.plain (e.tokens ++ dot ++ selected), true)
  if ← sees (·.atGroup .bracket) then
    let index ← group .bracket (Expression.tokens <$> g.expression true)
    return (.plain (e.tokens ++ index), true)
  if ← sees fun trees => trees.atMark "?" && e.shape != .range then
    let question ← mark "?"
    return (.plain (e.tokens ++ question), true)
  return (e, false)

/- The calls, selections, indices and questions after an expression. -/
def trailers
    (g : Grammar)
    (e : Expression) : Parser Expression :=
  iterate e g.trailerStep

------------------------------------------------------------
-- Atoms
------------------------------------------------------------

/- An arm of a match. -/
def matchArm
    (g : Grammar) : Parser Tokens := do
  let attributes ← g.outerTokens
  let pattern ← g.alternatives
  let guard ←
    if ← sees (·.atWord "if") then
      let keyword ← word "if"
      let condition ← g.expression true
      pure (keyword ++ condition.tokens)
    else
      pure []
  let arrow ← mark "=>"
  let value ← g.leading
  let comma ←
    if !value.isBlock && (← sees (!·.isEmpty)) then mark "," else mark? ","
  return attributes ++ pattern.tokens ++ guard ++ arrow ++ value.tokens ++ comma

/- A match. -/
def matchExpression
    (g : Grammar) : Parser Tokens := do
  let keyword ← word "match"
  let value ← g.expression false
  let arms ← group .brace do
    let attributes ← g.innerTokens
    let arms ← manyToEnd g.matchArm
    return attributes ++ arms.flatten
  return keyword ++ value.tokens ++ arms

/- An expression built into the compiler, kept as written. -/
def builtin : Parser Tokens :=
  verbatim do
    let _ ← word "builtin"
    let _ ← mark "#"
    let _ ← name
    rawGroup .parenthesis

/- A closure comes next. -/
def atClosure
    (trees : Tokens) : Bool :=
  let second := trees.skip
  let third := second.skip
  trees.atMark "|" || trees.atWord "move" ||
    (trees.atWord "for" && second.atMark "<" && (third.atLifetime || third.atMark ">")) ||
    (trees.atWord "const" && !second.atGroup .brace) ||
    trees.atWord "static" ||
    (trees.atWord "async" && (second.atMark "|" || second.atWord "move"))

/- An asynchronous block comes next. -/
def atAsyncBlock
    (trees : Tokens) : Bool :=
  trees.atWord "async" &&
    (trees.skip.atGroup .brace ||
      (trees.skip.atWord "move" && trees.skip.skip.atGroup .brace))

/- A path comes next. -/
def atPath
    (trees : Tokens) : Bool :=
  trees.atName || trees.atMark "::" || trees.atMark "<" || trees.atPathWord ||
    (trees.atWord "try" && (trees.skip.atMark "!" || trees.skip.atMark "::"))

/- An expression without operators, calls or selections. -/
def atom
    (g : Grammar)
    (allowRecord : Bool) : Parser Expression := do
  let block := fun (tokens : Tokens) => Expression.mk .block tokens
  if ← sees (·.atLiteral) then
    .plain <$> literal
  else if ← sees atAsyncBlock then
    let keyword ← word "async"
    let capture ← word? "move"
    return .plain (keyword ++ capture ++ (← g.block))
  else if ← sees fun trees => trees.atWord "try" && trees.skip.atGroup .brace then
    let keyword ← word "try"
    return block (keyword ++ (← g.block))
  else if ← sees atClosure then
    .plain <$> g.closure allowRecord
  else if ← sees fun trees => trees.atWord "builtin" && trees.skip.atMark "#" then
    .plain <$> builtin
  else if ← sees atPath then
    g.pathExpression allowRecord
  else if ← sees (·.atGroup .parenthesis) then
    .plain <$> group .parenthesis g.expressionList
  else if ← sees (·.atWord "break") then
    .plain <$> g.breakExpression allowRecord
  else if ← sees (·.atWord "continue") then
    let keyword ← word "continue"
    return .plain (keyword ++ (← lifetime?))
  else if ← sees fun trees => trees.atWord "return" || trees.atWord "yield" then
    let keyword ← anyWord
    return .plain (keyword :: (← g.jumpValue))
  else if ← sees (·.atWord "become") then
    .plain <$> verbatim (do
      let _ ← word "become"
      g.expression true)
  else if ← sees (·.atGroup .bracket) then
    .plain <$> group .bracket g.sequenceContent
  else if ← sees (·.atWord "let") then
    .plain <$> g.binds (g.continueFrom allowRecord Level.compare) allowRecord
  else if ← sees (·.atWord "if") then
    block <$> g.conditional
  else if ← sees (·.atWord "while") then
    block <$> g.whileLoop
  else if ← sees (·.atWord "for") then
    block <$> g.forLoop
  else if ← sees (·.atWord "loop") then
    block <$> g.endlessLoop
  else if ← sees (·.atWord "match") then
    block <$> g.matchExpression
  else if ← sees (·.atWord "unsafe") then
    block <$> g.wordBlock "unsafe"
  else if ← sees (·.atWord "const") then
    block <$> g.wordBlock "const"
  else if ← sees (·.atGroup .brace) then
    block <$> g.attributedBlock
  else if ← sees (·.atMark "..") then
    return ⟨.range, ← g.rangeTail allowRecord⟩
  else if ← sees (·.atWord "_") then
    .plain <$> word "_"
  else if ← sees (·.atLifetime) then
    g.labelled
  else
    refuse

------------------------------------------------------------
-- Unary Expressions
------------------------------------------------------------

/- The reference sign with what it refers by. -/
def referenceSign : Parser Tokens := do
  let ampersand ← mark "&"
  if ← sees fun trees => trees.atWord "raw" &&
      (trees.skip.atWord "mut" || trees.skip.atWord "const") then
    let raw ← word "raw"
    let access ← anyWord
    return ampersand ++ raw ++ [access]
  return ampersand ++ (← word? "mut")

/- An expression with prefix operators, calls and selections. -/
def unaryWith
    (g : Grammar)
    (allowRecord : Bool) : Parser Expression := do
  let attributes ← g.outerTokens
  if ← sees (·.atMark "&") then
    let sign ← referenceSign
    let operand ← g.unary allowRecord
    return .plain (attributes ++ sign ++ operand.tokens)
  if ← sees fun trees => trees.atMark "*" || trees.atMark "!" || trees.atMark "-" then
    let sign ←
      if ← sees (·.atMark "*") then mark "*"
      else if ← sees (·.atMark "!") then mark "!"
      else mark "-"
    let operand ← g.unary allowRecord
    return .plain (attributes ++ sign ++ operand.tokens)
  let first ← g.atom allowRecord
  let whole ← g.trailers first
  if whole.shape = .range && !attributes.isEmpty then
    refuse
  return { whole with tokens := attributes ++ whole.tokens }

------------------------------------------------------------
-- Expressions as Statements
------------------------------------------------------------

/- An expression that ends a statement by itself comes next. -/
def atBlockExpression
    (trees : Tokens) : Bool :=
  trees.atWord "if" || trees.atWord "while" ||
    (trees.atWord "for" && !atGenerics trees.skip) ||
    trees.atWord "loop" || trees.atWord "match" ||
    (trees.atWord "try" && trees.skip.atGroup .brace) || trees.atWord "unsafe" ||
    (trees.atWord "const" && trees.skip.atGroup .brace) || trees.atGroup .brace ||
    trees.atLifetime

/-
  An expression as a statement or as the body of a match arm:
  a block ends it unless a selection or a question follows.
-/
def leadingExpression
    (g : Grammar) : Parser Expression := do
  let attributes ← g.outerTokens
  let first ←
    if ← sees atBlockExpression then
      g.atom true
    else
      g.unaryWith true
  let first := { first with tokens := attributes ++ first.tokens }
  if !first.isBlock then
    g.continueFrom true Level.lowest first
  else if ← sees fun trees => trees.atDot || trees.atMark "?" then
    let whole ← g.trailers first
    g.continueFrom true Level.lowest whole
  else
    return first

end Grammar

end Nullary
