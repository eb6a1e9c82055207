import Nullary.Text.Blank
import Nullary.Text.Quoted
import Nullary.Token.Literal
import Nullary.Token.Tree

/-
  The reading of a text as token trees.

  `Lexeme.ofText` splits the text into delimiters and
  tokens, and `Lexeme.nest` pairs the delimiters up.  Blanks
  and comments separate tokens and leave no trace, except
  that a documentation comment stands for the attribute that
  holds its text, every token of it spanning the comment.

  Key definitions include:
    * `Gap.length`
    * `Comment.doc?`
    * `Lexeme`
    * `Lexeme.first?`
    * `Lexeme.ofText`
    * `Lexeme.nest`
    * `Tokens.ofText?`
-/

namespace Nullary

------------------------------------------------------------
-- Gaps
------------------------------------------------------------

namespace Comment

/- The length of the rest of a line, its line feed excluded. -/
def lineLength
    (text : List Char) : Nat :=
  (text.takeWhile (· != '\n')).length

/-
  The length of a block comment at a nesting depth, or
  nothing if it does not end.
-/
def blockLength
    (depth : Nat) : List Char → Option Nat
  | '/' :: '*' :: rest => (blockLength (depth + 1) rest).map (· + 2)
  | '*' :: '/' :: rest =>
      if depth ≤ 1 then some 2 else (blockLength (depth - 1) rest).map (· + 2)
  | _ :: rest => (blockLength depth rest).map (· + 1)
  | [] => none

/- A line comment that documents nothing. -/
def isPlainLine : List Char → Bool
  | '/' :: '/' :: '/' :: '/' :: _ => true
  | '/' :: '/' :: '/' :: _ => false
  | '/' :: '/' :: '!' :: _ => false
  | '/' :: '/' :: _ => true
  | _ => false

/- A block comment that documents nothing. -/
def isPlainBlock : List Char → Bool
  | '/' :: '*' :: '*' :: '/' :: _ => true
  | '/' :: '*' :: '*' :: '*' :: _ => true
  | '/' :: '*' :: '*' :: _ => false
  | '/' :: '*' :: '!' :: _ => false
  | '/' :: '*' :: _ => true
  | _ => false

end Comment

namespace Gap

/- A blank between tokens; direction marks count as blanks. -/
def isSeparator
    (c : Char) : Bool :=
  isBlank c || c.toNat == 0x200E || c.toNat == 0x200F

/- The length of the blank or plain comment at the start of a text. -/
def length
    (text : List Char) : Option Nat :=
  if Comment.isPlainLine text then
    some (Comment.lineLength text)
  else if Comment.isPlainBlock text then
    Comment.blockLength 0 text
  else
    match text with
    | c :: _ => if isSeparator c then some 1 else none
    | [] => none

end Gap

------------------------------------------------------------
-- Documentation Comments
------------------------------------------------------------

namespace Comment

/- A carriage return that no line feed follows. -/
def hasBareReturn : List Char → Bool
  | '\r' :: '\n' :: rest => hasBareReturn rest
  | '\r' :: _ => true
  | _ :: rest => hasBareReturn rest
  | [] => false

/-
  The text of a line comment: a carriage return before the
  line feed belongs to the line end.
-/
def lineContent : List Char → List Char
  | [] => []
  | '\n' :: _ => []
  | '\r' :: '\n' :: _ => []
  | c :: rest => c :: lineContent rest

/- The content of a block comment between its five border characters. -/
def blockContent
    (text : List Char)
    (length : Nat) : List Char :=
  (text.drop 3).take (length - 5)

/-
  The documentation comment at the start of a text: its
  length, whether it documents what encloses it, and its
  content.
-/
def doc?
    (text : List Char) : Option (Nat × Bool × List Char) :=
  match text with
  | '/' :: '/' :: '!' :: rest => some (lineLength text, true, lineContent rest)
  | '/' :: '/' :: '/' :: rest =>
      if rest.head? == some '/' then none else some (lineLength text, false, lineContent rest)
  | '/' :: '*' :: '!' :: _ => do
      let length ← blockLength 0 text
      return (length, true, blockContent text length)
  | '/' :: '*' :: '*' :: rest =>
      if rest.head? == some '*' then
        none
      else do
        let length ← blockLength 0 text
        return (length, false, blockContent text length)
  | _ => none

/- The attribute that a documentation comment stands for. -/
def docTokens
    (inner : Bool)
    (content : List Char)
    (span : Span) : Tokens :=
  let body : Tokens :=
    [.word "doc" span, .mark '=' false span,
      .literal (String.ofList (Quoted.literal content)) span]
  let bang : Tokens := if inner then [.mark '!' false span] else []
  .mark '#' false span :: bang ++ [.group .bracket body span]

end Comment

------------------------------------------------------------
-- Lexemes
------------------------------------------------------------

/- A delimiter or a sequence of finished trees. -/
inductive Lexeme where
  | opening (delimiter : Delimiter) (span : Span)
  | closing (delimiter : Delimiter) (span : Span)
  | trees (trees : Tokens)
deriving Repr

/- The mark characters. -/
def markChars : List Char :=
  "~!@#$%^&*-=+|;:,<.>/?'".toList

/- A text that starts with a mark; the start of a comment is none. -/
def startsWithMark : List Char → Bool
  | '/' :: '/' :: _ => false
  | '/' :: '*' :: _ => false
  | c :: _ => markChars.contains c
  | [] => false

/- The length of an identifier with its raw sign, if it has one. -/
def wordLength : List Char → Option Nat
  | 'r' :: '#' :: rest => do
      let length ← identifierLength rest
      let name := String.ofList (rest.take length)
      if ["_", "super", "self", "Self", "crate"].contains name then
        none
      else
        return length + 2
  | text => identifierLength text

/- The beginnings of literals, which are no identifiers. -/
def startsLikeLiteral : List Char → Bool
  | 'r' :: '"' :: _ => true
  | 'r' :: '#' :: '"' :: _ => true
  | 'r' :: '#' :: '#' :: _ => true
  | 'b' :: '"' :: _ => true
  | 'b' :: '\'' :: _ => true
  | 'b' :: 'r' :: '"' :: _ => true
  | 'b' :: 'r' :: '#' :: _ => true
  | 'c' :: '"' :: _ => true
  | 'c' :: 'r' :: '"' :: _ => true
  | 'c' :: 'r' :: '#' :: _ => true
  | _ => false

/- The delimiter that a character opens. -/
def openedBy : Char → Option Delimiter
  | '(' => some .parenthesis
  | '[' => some .bracket
  | '\x7b' => some .brace
  | _ => none

/- The delimiter that a character closes. -/
def closedBy : Char → Option Delimiter
  | ')' => some .parenthesis
  | ']' => some .bracket
  | '\x7d' => some .brace
  | _ => none

namespace Lexeme

/- A quote that starts a lifetime and no character literal. -/
def startsLifetime
    (afterQuote : List Char) : Bool :=
  match wordLength afterQuote with
  | none => false
  | some length =>
      match afterQuote.drop length with
      | '\'' :: _ => false
      | '#' :: _ => afterQuote.take 2 == ['r', '#']
      | _ => true

/-
  The token at the start of a text and its length: a literal,
  a mark, or a word, in this order.  The placeholder for an
  erroneous literal is a literal.
-/
def token?
    (text : List Char) : Option (Nat × (Span → TokenTree)) :=
  match Literal.length text with
  | some length =>
      some (length, .literal (String.ofList (text.take length)))
  | none =>
      match text with
      | [] => none
      | c :: rest =>
          if startsWithMark text then
            if c = '\'' then
              if startsLifetime rest then some (1, .mark c true) else none
            else
              some (1, .mark c (startsWithMark rest))
          else if startsLikeLiteral text then
            none
          else do
            let length ← wordLength text
            return (length, .word (String.ofList (text.take length)))

/- The text that stands for an erroneous literal. -/
def errorLiteral : List Char :=
  "(/*ERROR*/)".toList

/- The lexeme at the start of a text that is not in a gap, and its length. -/
def first?
    (text : List Char) : Option (Nat × (Span → Lexeme)) :=
  match Comment.doc? text with
  | some (length, inner, content) =>
      if Comment.hasBareReturn content then
        none
      else
        some (length, fun span => .trees (Comment.docTokens inner content span))
  | none =>
      if errorLiteral.isPrefixOf text then
        some (errorLiteral.length,
          fun span => .trees [.literal (String.ofList errorLiteral) span])
      else
        match text with
        | [] => none
        | c :: _ =>
            match openedBy c, closedBy c with
            | some delimiter, _ => some (1, .opening delimiter)
            | none, some delimiter => some (1, .closing delimiter)
            | none, none => do
                let (length, build) ← token? text
                return (length, fun span => .trees [build span])

/-
  The lexemes of a text from a position on.  The fuel bounds
  the number of gaps and lexemes.
-/
def ofTextFrom : Nat → Position → List Char → Option (List Lexeme)
  | _, _, [] => some []
  | 0, _, _ => none
  | fuel + 1, position, text =>
      match Gap.length text with
      | some length =>
          ofTextFrom fuel (position.after (text.take length)) (text.drop length)
      | none => do
          let (length, build) ← first? text
          let stop := position.after (text.take length)
          let lexemes ← ofTextFrom fuel stop (text.drop length)
          return build ⟨position, stop⟩ :: lexemes

/-
  The lexemes of a text.  Every gap and lexeme takes at least
  one character, so the length of the text is fuel enough.
-/
def ofText
    (position : Position)
    (text : List Char) : Option (List Lexeme) :=
  ofTextFrom text.length position text

------------------------------------------------------------
-- Nesting
------------------------------------------------------------

/-
  Pair up delimiters.  `trees` holds the trees of the current
  group, last one first; `outer` holds, for each open group,
  its delimiter, its opening, and the trees before it.
-/
def nestFrom
    (outer : List (Delimiter × Span × Tokens))
    (current : Tokens) : List Lexeme → Option Tokens
  | [] => if outer.isEmpty then some current.reverse else none
  | .trees new :: rest => nestFrom outer (new.reverse ++ current) rest
  | .opening delimiter span :: rest =>
      nestFrom ((delimiter, span, current) :: outer) [] rest
  | .closing delimiter span :: rest =>
      match outer with
      | (opened, start, before) :: others =>
          if opened = delimiter then
            nestFrom others (.group delimiter current.reverse (start.join span) :: before) rest
          else
            none
      | [] => none

/- The trees of a list of lexemes whose delimiters match. -/
def nest
    (lexemes : List Lexeme) : Option Tokens :=
  nestFrom [] [] lexemes

end Lexeme

------------------------------------------------------------
-- Tokens of a Text
------------------------------------------------------------

/- The byte order mark. -/
def byteOrderMark : Char :=
  Char.ofNat 0xFEFF

/-
  The token trees of a text, or nothing if it has a character
  that starts no token or a delimiter without a partner.  A
  leading byte order mark is skipped, but counts as a column.
-/
def Tokens.ofText?
    (text : List Char) : Option Tokens :=
  let lexemes :=
    if text.head? == some byteOrderMark then
      Lexeme.ofText (Position.first.next byteOrderMark) (text.drop 1)
    else
      Lexeme.ofText .first text
  lexemes >>= Lexeme.nest

end Nullary
