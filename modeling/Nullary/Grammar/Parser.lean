import Nullary.Token.Tree

/-
  Parsers of token trees.

  A parser takes trees from the front of a sequence.  What it
  takes it usually gives back as the trees that print the
  construct it has recognised: a mark of several characters
  is printed joint, whatever follows it is apart, and what a
  construct does not need is left out.

  Key definitions include:
    * `Tokens.skip`
    * `Tokens.atMark`
    * `Tokens.atWord`
    * `Tokens.atName`
    * `Tokens.atLiteral`
    * `Parser`
    * `Parser.tree`
    * `Parser.mark`
    * `Parser.word`
    * `Parser.group`
    * `Parser.listUntil`
    * `Parser.listWhile`
-/

namespace Nullary

------------------------------------------------------------
-- Looking Ahead
------------------------------------------------------------

namespace Tokens

/- The trees after the first one; a lifetime counts as one tree. -/
def skip : Tokens → Tokens
  | .mark '\'' true _ :: .word _ _ :: rest => rest
  | _ :: rest => rest
  | [] => []

/- Marks that spell an operator, all but the last one joint. -/
def atMarks : List Char → Tokens → Bool
  | [c], .mark d _ _ :: _ => c == d
  | c :: chars, .mark d joint _ :: rest => c == d && joint && atMarks chars rest
  | _, _ => false

/- The operator comes next. -/
def atMark
    (operator : String)
    (trees : Tokens) : Bool :=
  atMarks operator.toList trees

/- The given word comes next. -/
def atWord
    (text : String) : Tokens → Bool
  | .word found _ :: _ => found == text
  | _ => false

/- Some word comes next, reserved or not. -/
def atAnyWord : Tokens → Bool
  | .word _ _ :: _ => true
  | _ => false

/- A group with the given delimiter comes next. -/
def atGroup
    (delimiter : Delimiter) : Tokens → Bool
  | .group found _ _ :: _ => found == delimiter
  | _ => false

/- A lifetime comes next. -/
def atLifetime : Tokens → Bool
  | .mark '\'' true _ :: .word _ _ :: _ => true
  | _ => false

/- The words that cannot be names. -/
def reserved : List String :=
  ["_", "abstract", "as", "async", "await", "become", "box", "break", "const", "continue",
    "crate", "do", "dyn", "else", "enum", "extern", "false", "final", "fn", "for", "if",
    "impl", "in", "let", "loop", "macro", "match", "mod", "move", "mut", "override", "priv",
    "pub", "ref", "return", "Self", "self", "static", "struct", "super", "trait", "true",
    "try", "type", "typeof", "unsafe", "unsized", "use", "virtual", "where", "while",
    "yield"]

/- A word that is not reserved comes next. -/
def atName : Tokens → Bool
  | .word text _ :: _ => !reserved.contains text
  | _ => false

/- One of the words that can stand for a module or a type comes next. -/
def atPathWord
    (trees : Tokens) : Bool :=
  trees.atWord "super" || trees.atWord "self" || trees.atWord "Self" || trees.atWord "crate"

/- A literal that is a number. -/
def isNumber
    (text : String) : Bool :=
  text.toList.head?.any Char.isDigit

/- A literal comes next: `true`, `false` and negative numbers are literals. -/
def atLiteral : Tokens → Bool
  | .literal _ _ :: _ => true
  | .word text _ :: _ => text == "true" || text == "false"
  | .mark '-' _ _ :: .literal text _ :: _ => isNumber text
  | _ => false

/- A quoted text comes next. -/
def atString : Tokens → Bool
  | .literal text _ :: _ =>
      match text.toList with
      | '"' :: _ => true
      | 'r' :: _ => true
      | _ => false
  | _ => false

/- A single dot, and not a range. -/
def atDot
    (trees : Tokens) : Bool :=
  trees.atMark "." && !trees.atMark ".."

/- A single colon, and not a path separator. -/
def atColon
    (trees : Tokens) : Bool :=
  trees.atMark ":" && !trees.atMark "::"

end Tokens

------------------------------------------------------------
-- Parsers
------------------------------------------------------------

/-
  A parser takes trees from the front of a sequence, or
  refuses.  What it leaves is an end of what it was given.
-/
structure Parser (α : Type) where
  run : Tokens → Option (α × Tokens)
  suffix_of_run :
    ∀ {trees : Tokens} {value : α} {rest : Tokens},
      run trees = some (value, rest) → rest <:+ trees

namespace Parser

/- Take nothing and give a value. -/
protected def pure
    {α : Type}
    (value : α) : Parser α where
  run trees := some (value, trees)
  suffix_of_run h := by
    cases h
    exact List.suffix_refl _

/- Run a parser on what another one leaves. -/
protected def bind
    {α β : Type}
    (p : Parser α)
    (next : α → Parser β) : Parser β where
  run trees :=
    match p.run trees with
    | some (value, rest) => (next value).run rest
    | none => none
  suffix_of_run h := by
    split at h
    · next hRun =>
        exact ((next _).suffix_of_run h).trans (p.suffix_of_run hRun)
    · cases h

instance : Monad Parser where
  pure := Parser.pure
  bind := Parser.bind

/- Refuse. -/
def refuse
    {α : Type} : Parser α where
  run _ := none
  suffix_of_run h := by cases h

/- Look at what comes next without taking it. -/
def look
    {α : Type}
    (f : Tokens → α) : Parser α where
  run trees := some (f trees, trees)
  suffix_of_run h := by
    cases h
    exact List.suffix_refl _

/- Test what comes next without taking it. -/
def sees
    (test : Tokens → Bool) : Parser Bool :=
  look test

/- Require something of what comes next without taking it. -/
def require
    (test : Tokens → Bool) : Parser Unit := do
  if ← sees test then return () else refuse

/- Run a parser without taking anything. -/
def ahead
    {α : Type}
    (p : Parser α) : Parser (Option α) :=
  look fun trees => (p.run trees).map Prod.fst

/- Take the result of a parser only if it succeeds. -/
def attempt
    {α : Type}
    (p : Parser α) : Parser (Option α) where
  run trees :=
    match p.run trees with
    | some (value, rest) => some (some value, rest)
    | none => some (none, trees)
  suffix_of_run h := by
    split at h
    · next hRun =>
        cases h
        exact p.suffix_of_run hRun
    · cases h
      exact List.suffix_refl _

/- Run a parser and give its result with the trees it took, as they were. -/
def written
    {α : Type}
    (p : Parser α) : Parser (α × Tokens) := do
  let trees ← look id
  let value ← p
  let rest ← look List.length
  return (value, trees.take (trees.length - rest))

/- Run a parser and give the trees it took, as they were. -/
def verbatim
    {α : Type}
    (p : Parser α) : Parser Tokens :=
  Prod.snd <$> written p

/- Run a parser only where a test holds. -/
def when
    (test : Tokens → Bool)
    (p : Parser Tokens) : Parser Tokens := do
  if ← sees test then p else return []

/- Run a parser that is built only when it is needed. -/
def delayed
    {α : Type}
    (p : Unit → Parser α) : Parser α where
  run trees := (p ()).run trees
  suffix_of_run h := (p ()).suffix_of_run h

/- Run a parser that must take everything. -/
def whole
    {α : Type}
    (p : Parser α)
    (trees : Tokens) : Option α :=
  match p.run trees with
  | some (value, []) => some value
  | _ => none

/- Run a parser that must take everything, as a parser. -/
def toEnd
    {α : Type}
    (p : Parser α) : Parser α := do
  let value ← p
  require (·.isEmpty)
  return value

------------------------------------------------------------
-- Single Tokens
------------------------------------------------------------

/- Take one tree that can be read in a given way. -/
def tree
    {α : Type}
    (read : TokenTree → Option α) : Parser α where
  run
    | next :: rest => (read next).map (·, rest)
    | [] => none
  suffix_of_run h := by
    split at h
    · rcases Option.map_eq_some_iff.mp h with ⟨value, _, hPair⟩
      cases hPair
      exact List.suffix_cons _ _
    · cases h

/- Take one character of an operator, which another one may have to follow. -/
def markChar
    (c : Char)
    (joint : Bool) : Parser TokenTree :=
  tree fun
    | .mark d found span =>
        if c = d ∧ (joint → found) then some (.mark c joint span) else none
    | _ => none

/- Take an operator, character by character. -/
def marks : List Char → Parser Tokens
  | [] => return []
  | [c] => return [← markChar c false]
  | c :: chars => do
      let first ← markChar c true
      return first :: (← marks chars)

/- Take an operator. -/
def mark
    (operator : String) : Parser Tokens :=
  marks operator.toList

/- Take an operator if it comes next. -/
def mark?
    (operator : String) : Parser Tokens :=
  when (·.atMark operator) (mark operator)

/- Take any word. -/
def anyWord : Parser TokenTree :=
  tree fun
    | .word text span => some (.word text span)
    | _ => none

/- Take the given word. -/
def word
    (text : String) : Parser Tokens :=
  tree fun
    | .word found span => if found = text then some [.word found span] else none
    | _ => none

/- Take the given word if it comes next. -/
def word?
    (text : String) : Parser Tokens :=
  when (·.atWord text) (word text)

/- Take a name. -/
def name : Parser TokenTree := do
  require (·.atName)
  anyWord

/- Take a lifetime. -/
def lifetime : Parser Tokens := do
  let quote ← markChar '\'' true
  return [quote, ← anyWord]

/- Take a lifetime if it comes next. -/
def lifetime? : Parser Tokens :=
  when (·.atLifetime) lifetime

/- Take a literal that is a single token. -/
def plainLiteral
    (test : String → Bool) : Parser TokenTree :=
  tree fun
    | .literal text span => if test text then some (.literal text span) else none
    | _ => none

/- Take a literal. -/
def literal : Parser Tokens := do
  if ← sees (·.atMark "-") then
    let minus ← markChar '-' false
    return [minus, ← plainLiteral Tokens.isNumber]
  if ← sees (·.atAnyWord) then
    require fun trees => trees.atWord "true" || trees.atWord "false"
    return [← anyWord]
  return [← plainLiteral fun _ => true]

/- Take the quoted text. -/
def string : Parser Tokens := do
  require (·.atString)
  literal

------------------------------------------------------------
-- Groups
------------------------------------------------------------

/- Take a group and parse all of its content. -/
def within
    {α : Type}
    (delimiter : Delimiter)
    (p : Parser α) : Parser (α × Span) :=
  tree fun
    | .group found trees span =>
        if found = delimiter then (p.whole trees).map (·, span) else none
    | _ => none

/- Take a group and print it with its content parsed. -/
def group
    (delimiter : Delimiter)
    (p : Parser Tokens) : Parser Tokens := do
  let (content, span) ← within delimiter p
  return [.group delimiter content span]

/- Take any group as it is. -/
def anyGroup : Parser TokenTree :=
  tree fun
    | .group delimiter trees span => some (.group delimiter trees span)
    | _ => none

/- Take a group of the given delimiter as it is. -/
def rawGroup
    (delimiter : Delimiter) : Parser Tokens := do
  require (·.atGroup delimiter)
  return [← anyGroup]

------------------------------------------------------------
-- Repetition
------------------------------------------------------------

/- Repeat a step that says whether to go on, at most `fuel` times. -/
def loop
    {σ : Type}
    (step : σ → Parser (σ × Bool)) : Nat → σ → Parser σ
  | 0, _ => refuse
  | fuel + 1, state => do
      let (next, more) ← step state
      if more then loop step fuel next else return next

/-
  Repeat a step that says whether to go on.  Steps that go on
  take a tree, so the number of trees bounds their number.
-/
def iterate
    {σ : Type}
    (start : σ)
    (step : σ → Parser (σ × Bool)) : Parser σ := do
  let count ← look List.length
  loop step (count + 1) start

/- Repeat a parser while a test holds. -/
def many
    {α : Type}
    (test : Tokens → Bool)
    (p : Parser α) : Parser (List α) := do
  let values ← iterate [] fun found => do
    if ← sees test then
      return ((← p) :: found, true)
    else
      return (found, false)
  return values.reverse

/- Repeat a parser until nothing is left. -/
def manyToEnd
    {α : Type}
    (p : Parser α) : Parser (List α) :=
  many (!·.isEmpty) p

/-
  Values up to a stop, each followed by a separator save
  possibly the last one.
-/
def listUntil
    {α : Type}
    (stop : Tokens → Bool)
    (separator : String)
    (p : Parser α) : Parser (List (α × Tokens)) := do
  let values ← iterate [] fun found => do
    if ← sees stop then
      return (found, false)
    let value ← p
    if ← sees stop then
      return ((value, []) :: found, false)
    let comma ← mark separator
    return ((value, comma) :: found, true)
  return values.reverse

/-
  Values up to a stop or to the first one that no separator
  follows.
-/
def listWhile
    {α : Type}
    (stop : Tokens → Bool)
    (separator : String)
    (p : Parser α) : Parser (List (α × Tokens)) := do
  let values ← iterate [] fun found => do
    if ← sees stop then
      return (found, false)
    let value ← p
    if ← sees (·.atMark separator) then
      let comma ← mark separator
      return ((value, comma) :: found, true)
    else
      return ((value, []) :: found, false)
  return values.reverse

/- The tokens of values with their separators. -/
def flatten
    (values : List (Tokens × Tokens)) : Tokens :=
  values.flatMap fun (value, separator) => value ++ separator

/- Comma-separated values up to the end. -/
def commaList
    (p : Parser Tokens) : Parser Tokens :=
  flatten <$> listUntil (·.isEmpty) "," p

end Parser

end Nullary
