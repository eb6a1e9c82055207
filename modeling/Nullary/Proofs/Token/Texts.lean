import Nullary.Proofs.Token.Spelling

/-
  The texts of tokens, one after the other.

  A group is its delimiters with its content between them, so
  that trees and lexemes are compared by what is written
  alone, whatever their spans and however they are nested.

  Main declarations:
    * `Tokens.texts`
    * `Lexeme.texts`
    * `Lexeme.Nesting.texts_eq`
-/

namespace Nullary

namespace Delimiter

/- The text that opens a group. -/
def openText : Delimiter → String
  | parenthesis => "("
  | bracket => "["
  | brace => "\x7b"

/- The text that closes a group. -/
def closeText : Delimiter → String
  | parenthesis => ")"
  | bracket => "]"
  | brace => "\x7d"

end Delimiter

------------------------------------------------------------
-- Trees
------------------------------------------------------------

mutual

/- The texts of the tokens of a tree. -/
def TokenTree.texts : TokenTree → List String
  | .word text _ => [text]
  | .mark char _ _ => [char.toString]
  | .literal text _ => [text]
  | .group delimiter trees _ =>
      delimiter.openText ::
        (TokenTree.textsAll trees ++ [delimiter.closeText])

/- The texts of the tokens of trees. -/
def TokenTree.textsAll : List TokenTree → List String
  | [] => []
  | tree :: rest => tree.texts ++ TokenTree.textsAll rest

end

/- The texts of the tokens of a sequence. -/
def Tokens.texts
    (trees : Tokens) : List String :=
  TokenTree.textsAll trees

namespace Tokens

@[simp] theorem texts_nil :
    texts [] = [] := by
  rw [texts, TokenTree.textsAll]

@[simp] theorem texts_cons
    (tree : TokenTree)
    (trees : Tokens) :
    texts (tree :: trees) = tree.texts ++ texts trees := by
  rw [texts, TokenTree.textsAll]
  rfl

@[simp] theorem texts_append
    (first second : Tokens) :
    texts (first ++ second) = texts first ++ texts second := by
  induction first with
  | nil => simp
  | cons tree rest ih => simp [ih]

theorem texts_flatMap
    {α : Type}
    (values : List α)
    (print : α → Tokens) :
    texts (values.flatMap print) =
      values.flatMap fun value => texts (print value) := by
  induction values with
  | nil => simp
  | cons value rest ih => simp [ih]

end Tokens

namespace TokenTree

@[simp] theorem texts_word
    (text : String)
    (span : Span) :
    (word text span).texts = [text] := by
  rw [texts]

@[simp] theorem texts_mark
    (char : Char)
    (joint : Bool)
    (span : Span) :
    (mark char joint span).texts = [char.toString] := by
  rw [texts]

@[simp] theorem texts_literal
    (text : String)
    (span : Span) :
    (literal text span).texts = [text] := by
  rw [texts]

@[simp] theorem texts_group
    (delimiter : Delimiter)
    (trees : Tokens)
    (span : Span) :
    (group delimiter trees span).texts =
      delimiter.openText :: (trees.texts ++ [delimiter.closeText]) := by
  rw [texts]
  rfl

theorem texts_ne_nil
    (tree : TokenTree) :
    tree.texts ≠ [] := by
  cases tree <;> simp

end TokenTree

mutual

/- The texts of a tree do not depend on its spans. -/
theorem TokenTree.texts_bare
    (tree : TokenTree) :
    tree.bare.texts = tree.texts := by
  cases tree with
  | word => simp
  | mark => simp
  | literal => simp
  | group delimiter trees span => simp [Tokens.texts_bare trees]

theorem Tokens.texts_bare
    (trees : Tokens) :
    trees.bare.texts = trees.texts := by
  cases trees with
  | nil => simp
  | cons tree rest =>
      simp [TokenTree.texts_bare tree, Tokens.texts_bare rest]

end

------------------------------------------------------------
-- Lexemes
------------------------------------------------------------

namespace Lexeme

/- The texts of the tokens of a lexeme. -/
def texts : Lexeme → List String
  | opening delimiter _ => [delimiter.openText]
  | closing delimiter _ => [delimiter.closeText]
  | trees found => found.texts

/- The texts of the tokens of lexemes. -/
def textsAll
    (lexemes : List Lexeme) : List String :=
  lexemes.flatMap texts

theorem textsAll_map_bare
    (lexemes : List Lexeme) :
    textsAll (lexemes.map bare) = textsAll lexemes := by
  have hTexts : ∀ lexeme : Lexeme, lexeme.bare.texts = lexeme.texts := by
    intro lexeme
    cases lexeme with
    | opening => rfl
    | closing => rfl
    | trees found => exact Tokens.texts_bare found
  simp [textsAll, List.flatMap_map, hTexts]

/- Nesting changes no text. -/
theorem Nesting.texts_eq
    {lexemes : List Lexeme}
    {trees : Tokens}
    (hNesting : Nesting lexemes trees) :
    trees.texts = textsAll lexemes := by
  induction hNesting with
  | nil => simp [textsAll]
  | trees found hRest ih =>
      rw [Tokens.texts_append, ih]
      rfl
  | group hContent hRest ihContent ih =>
      simp [textsAll, texts, ihContent, ih]

end Lexeme

end Nullary
