import Nullary.Grammar.Parser

/-
  Operators between expressions and their precedence.

  Key definitions include:
    * `Level`
    * `binaryOperators`
    * `Tokens.operator?`
    * `Tokens.nextLevel`
    * `Tokens.atExpression`
-/

namespace Nullary

------------------------------------------------------------
-- Operators
------------------------------------------------------------

/- Levels of precedence, from the loosest on. -/
namespace Level

def lowest : Nat := 0
def assign : Nat := 1
def range : Nat := 2
def or : Nat := 3
def and : Nat := 4
def compare : Nat := 6
def bitOr : Nat := 7
def bitXor : Nat := 8
def bitAnd : Nat := 9
def shift : Nat := 10
def sum : Nat := 11
def product : Nat := 12
def cast : Nat := 13

end Level

/-
  The binary operators with their levels.  Of two operators
  that start alike the longer one stands first.
-/
def binaryOperators : List (String × Nat) :=
  [("+=", Level.assign), ("-=", Level.assign), ("*=", Level.assign), ("/=", Level.assign),
    ("%=", Level.assign), ("^=", Level.assign), ("&=", Level.assign), ("|=", Level.assign),
    ("<<=", Level.assign), (">>=", Level.assign), ("&&", Level.and), ("||", Level.or),
    ("<<", Level.shift), (">>", Level.shift), ("==", Level.compare), ("<=", Level.compare),
    ("!=", Level.compare), (">=", Level.compare), ("+", Level.sum), ("-", Level.sum),
    ("*", Level.product), ("/", Level.product), ("%", Level.product), ("^", Level.bitXor),
    ("&", Level.bitAnd), ("|", Level.bitOr), ("<", Level.compare), (">", Level.compare)]

namespace Tokens

/- The binary operator that comes next. -/
def operator?
    (trees : Tokens) : Option (String × Nat) :=
  binaryOperators.find? fun (operator, _) => trees.atMark operator

/- An assignment comes next, and not the arrow of a match arm. -/
def atAssignment
    (trees : Tokens) : Bool :=
  trees.atMark "=" && !trees.atMark "=>"

/- The level of the operator that comes next. -/
def nextLevel
    (trees : Tokens) : Nat :=
  match trees.operator? with
  | some (_, level) => level
  | none =>
      if trees.atAssignment then Level.assign
      else if trees.atMark ".." then Level.range
      else if trees.atWord "as" then Level.cast
      else Level.lowest

/- An expression may start here, as after `return`. -/
def atExpression
    (trees : Tokens) : Bool :=
  (trees.atAnyWord && !trees.atWord "as") ||
    trees.atGroup .parenthesis || trees.atGroup .bracket || trees.atGroup .brace ||
    trees.atLiteral ||
    (trees.atMark "!" && !trees.atMark "!=") ||
    (trees.atMark "-" && !trees.atMark "-=" && !trees.atMark "->") ||
    (trees.atMark "*" && !trees.atMark "*=") ||
    (trees.atMark "|" && !trees.atMark "|=") ||
    (trees.atMark "&" && !trees.atMark "&=") ||
    trees.atMark ".." ||
    (trees.atMark "<" && !trees.atMark "<=" && !trees.atMark "<<=") ||
    trees.atMark "::" || trees.atLifetime || trees.atMark "#"

end Tokens

end Nullary
