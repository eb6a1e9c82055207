import Nullary.Source.Position

/-
  Token trees: words, marks, literals, and groups of trees
  between matching delimiters.  Each tree knows the span of
  the text that it was read from.

  A mark is a single punctuation character.  A joint mark is
  written without a space before the token that follows it,
  which is how operators of several characters are held.

  Key definitions include:
    * `Delimiter`
    * `TokenTree`
    * `TokenTree.span`
    * `Tokens.span`
    * `Tokens.size`
    * `Tokens.print`
-/

namespace Nullary

------------------------------------------------------------
-- Token Trees
------------------------------------------------------------

/- The three kinds of brackets. -/
inductive Delimiter where
  | parenthesis
  | bracket
  | brace
deriving DecidableEq, Repr

/- A token, or a group of token trees between delimiters. -/
inductive TokenTree where
  | word (text : String) (span : Span)
  | mark (char : Char) (joint : Bool) (span : Span)
  | literal (text : String) (span : Span)
  | group (delimiter : Delimiter) (trees : List TokenTree) (span : Span)
deriving Repr

/- A sequence of token trees. -/
abbrev Tokens :=
  List TokenTree

namespace TokenTree

/- The span of a tree; that of a group includes its delimiters. -/
def span : TokenTree → Span
  | word _ s => s
  | mark _ _ s => s
  | literal _ s => s
  | group _ _ s => s

/- A mark that the next token follows without a space. -/
def isJoint : TokenTree → Bool
  | mark _ joint _ => joint
  | _ => false

end TokenTree

namespace Tokens

/-
  The span from the first to the last tree of a sequence; a
  sequence without trees is nowhere.
-/
def span
    (trees : Tokens) : Span :=
  match trees.head?, trees.getLast? with
  | some first, some last => first.span.join last.span
  | _, _ => .nowhere

end Tokens

------------------------------------------------------------
-- Size
------------------------------------------------------------

mutual

/- The number of trees in a tree, itself included. -/
def TokenTree.size : TokenTree → Nat
  | .group _ trees _ => TokenTree.sizeAll trees + 1
  | _ => 1

/- The number of trees in a sequence, at every depth. -/
def TokenTree.sizeAll : List TokenTree → Nat
  | [] => 0
  | tree :: rest => tree.size + TokenTree.sizeAll rest

end

/- The number of trees in a sequence, at every depth. -/
def Tokens.size
    (trees : Tokens) : Nat :=
  TokenTree.sizeAll trees

------------------------------------------------------------
-- Printing
------------------------------------------------------------

namespace Delimiter

/- The characters before the content of a group. -/
def opening : Delimiter → List Char
  | parenthesis => ['(']
  | bracket => ['[']
  | brace => ['\x7b', ' ']

/- The characters after the content of a group. -/
def closing
    (empty : Bool) : Delimiter → List Char
  | parenthesis => [')']
  | bracket => [']']
  | brace => if empty then ['\x7d'] else [' ', '\x7d']

end Delimiter

mutual

/- The text of a tree. -/
def TokenTree.print : TokenTree → List Char
  | .word text _ => text.toList
  | .mark char _ _ => [char]
  | .literal text _ => text.toList
  | .group delimiter trees _ =>
      delimiter.opening ++ TokenTree.printAll trees ++ delimiter.closing trees.isEmpty

/- The texts of trees, one space between them save after a joint mark. -/
def TokenTree.printAll : List TokenTree → List Char
  | [] => []
  | tree :: rest =>
      if rest.isEmpty || tree.isJoint then
        tree.print ++ TokenTree.printAll rest
      else
        tree.print ++ ' ' :: TokenTree.printAll rest

end

/- The text of a sequence of trees. -/
def Tokens.print
    (trees : Tokens) : String :=
  String.ofList (TokenTree.printAll trees)

end Nullary
