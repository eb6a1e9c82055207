import Nullary.Token.Tree

/-
  Items of a source file, as far as they are told apart:
  what they declare, what attributes they carry, and the
  tokens that print them.

  Expressions, patterns and most of a type are held as the
  tokens that print them; of a type also its path is known,
  since a type is recognised by the name it ends in.

  Key definitions include:
    * `Path`
    * `Ty`
    * `Ty.name?`
    * `Attribute`
    * `Visibility`
    * `Generics`
    * `Fields`
    * `Signature`
    * `Item`
    * `Item.attributes`
    * `SourceFile`
-/

namespace Nullary

------------------------------------------------------------
-- Paths and Types
------------------------------------------------------------

/- How the arguments of a path segment are written. -/
inductive SegmentArguments where
  | none
  | angle
  | parenthesised
deriving DecidableEq, Repr

/- A segment of a path. -/
structure PathSegment where
  name : String
  arguments : SegmentArguments
deriving DecidableEq, Repr

/- A path, absolute or not. -/
structure Path where
  absolute : Bool
  segments : List PathSegment
  tokens : Tokens
deriving Repr

namespace Path

/- A path without arguments. -/
def isPlain
    (path : Path) : Bool :=
  path.segments.all (·.arguments == .none)

/- The name of the last segment. -/
def lastName?
    (path : Path) : Option String :=
  path.segments.getLast?.map (·.name)

/- The path is the given single name. -/
def isName
    (path : Path)
    (name : String) : Bool :=
  !path.absolute && path.segments == [⟨name, .none⟩]

end Path

/-
  A type: a path, a parenthesised type, a sum of bounds
  without a leading word, or something else.
-/
inductive Ty where
  | path (path : Path)
  | paren (inner : Ty) (tokens : Tokens)
  | bounds (single : Bool) (tokens : Tokens)
  | other (tokens : Tokens)
deriving Repr

namespace Ty

/- The tokens that print a type. -/
def tokens : Ty → Tokens
  | path p => p.tokens
  | paren _ tokens => tokens
  | bounds _ tokens => tokens
  | other tokens => tokens

/-
  The name that a type ends in: the last segment of a path,
  also inside parentheses.
-/
def name? : Ty → Option String
  | path p => p.lastName?
  | paren inner _ => inner.name?
  | _ => none

end Ty

------------------------------------------------------------
-- Expressions and Patterns
------------------------------------------------------------

/- What of an expression decides how it may go on. -/
inductive ExpressionShape where
  /- A range, which no operator follows. -/
  | range
  /- A comparison, which no other comparison follows. -/
  | comparison
  /- An expression with a block, which ends a statement. -/
  | block
  /- A macro call, with braces or without. -/
  | call (braced : Bool)
  | other
deriving DecidableEq, Repr

/- An expression as its shape and its tokens. -/
structure Expression where
  shape : ExpressionShape
  tokens : Tokens
deriving Repr

/- A pattern as its tokens; an open range has only one end. -/
structure Pattern where
  openRange : Bool
  tokens : Tokens
deriving Repr

------------------------------------------------------------
-- Attributes and Visibility
------------------------------------------------------------

/- An attribute, of what follows it or of what encloses it. -/
structure Attribute where
  inner : Bool
  path : List String
  tokens : Tokens
deriving Repr

namespace Attribute

/- The span of an attribute. -/
def span
    (a : Attribute) : Span :=
  Tokens.span a.tokens

/- The tokens of the attributes that stand before an item. -/
def outerTokens
    (attributes : List Attribute) : Tokens :=
  (attributes.filter (!·.inner)).flatMap (·.tokens)

/- The tokens of the attributes that stand inside an item. -/
def innerTokens
    (attributes : List Attribute) : Tokens :=
  (attributes.filter (·.inner)).flatMap (·.tokens)

end Attribute

/- How far a declaration can be seen. -/
inductive Scope where
  | inherited
  | everywhere
  | crate
  | restricted
deriving DecidableEq, Repr

/- A visibility as its scope and its tokens. -/
structure Visibility where
  scope : Scope
  tokens : Tokens
deriving Repr

------------------------------------------------------------
-- Generics
------------------------------------------------------------

/- The three sorts of generic parameters. -/
inductive ParameterSort where
  | lifetime
  | type
  | const
deriving DecidableEq, Repr

/-
  A generic parameter.  `head` holds what stands before the
  name, `bounds` what stands after it, colon included, and
  `default` the default with its equality sign.
-/
structure GenericParameter where
  sort : ParameterSort
  attributes : Tokens
  head : Tokens
  name : Tokens
  bounds : Tokens
  default : Tokens
  comma : Tokens
deriving Repr

namespace GenericParameter

/- A parameter as a declaration without its default. -/
def declaration
    (p : GenericParameter) : Tokens :=
  p.attributes ++ p.head ++ p.name ++ p.bounds

/- A parameter in full. -/
def tokens
    (p : GenericParameter) : Tokens :=
  p.declaration ++ p.default

end GenericParameter

/- A `where` clause; one without predicates is not printed. -/
structure WhereClause where
  keyword : Tokens
  predicates : Tokens
deriving Repr

namespace WhereClause

/- The tokens of a clause. -/
def tokens
    (clause : WhereClause) : Tokens :=
  if clause.predicates.isEmpty then [] else clause.keyword ++ clause.predicates

end WhereClause

/- The parameters and the `where` clause of a declaration. -/
structure Generics where
  opening : Tokens
  parameters : List GenericParameter
  closing : Tokens
  clause : Option WhereClause
deriving Repr

namespace Generics

/- No parameters and no clause. -/
def empty : Generics :=
  ⟨[], [], [], none⟩

/-
  Print parameters between angle brackets, lifetimes first.
  A comma is put between the two parts if none stands there.
-/
def printWith
    (g : Generics)
    (print : GenericParameter → Tokens) : Tokens :=
  if g.parameters.isEmpty then
    []
  else
    let lifetimes := g.parameters.filter (·.sort == .lifetime)
    let others := g.parameters.filter (·.sort != .lifetime)
    let part := fun (ps : List GenericParameter) => ps.flatMap fun p => print p ++ p.comma
    let trailing := lifetimes.getLast?.all fun p => !p.comma.isEmpty
    let between : Tokens :=
      if trailing || others.isEmpty then [] else [.mark ',' false .nowhere]
    g.opening ++ part lifetimes ++ between ++ part others ++ g.closing

/- The parameters in full. -/
def tokens
    (g : Generics) : Tokens :=
  g.printWith (·.tokens)

/- The parameters of an implementation: no defaults. -/
def implementation
    (g : Generics) : Tokens :=
  g.printWith (·.declaration)

/- The parameters as arguments: names only. -/
def arguments
    (g : Generics) : Tokens :=
  g.printWith (·.name)

/- The tokens of the `where` clause. -/
def clauseTokens
    (g : Generics) : Tokens :=
  (g.clause.map (·.tokens)).getD []

end Generics

------------------------------------------------------------
-- Fields
------------------------------------------------------------

/- The fields of a record: by name, by position, or none. -/
inductive Fields where
  | named (names : List String)
  | positional (count : Nat)
  | unit
deriving DecidableEq, Repr

------------------------------------------------------------
-- Functions
------------------------------------------------------------

/- A parameter of a function, with a type or the receiver. -/
inductive Argument where
  | receiver
  | typed (pattern : Tokens) (type : Ty)
deriving Repr

/- The signature of a function. -/
structure Signature where
  name : String
  arguments : List Argument
  result : Option Ty
  tokens : Tokens
deriving Repr

namespace Signature

/-
  A function with a receiver: only the first parameter can be
  one.
-/
def hasReceiver
    (s : Signature) : Bool :=
  s.arguments.any fun
    | .receiver => true
    | .typed _ _ => false

end Signature

/- A member of an implementation: a function or something else. -/
inductive ImplMember where
  | function (visibility : Visibility) (signature : Signature)
  | other
deriving Repr

/- A member of a trait: a function or something else. -/
inductive TraitMember where
  | function (name : String)
  | other
deriving Repr

------------------------------------------------------------
-- Items
------------------------------------------------------------

/- A record declaration. -/
structure StructItem where
  attributes : List Attribute
  visibility : Visibility
  name : String
  nameToken : TokenTree
  generics : Generics
  fields : Fields
  tokens : Tokens
deriving Repr

/- An implementation, of a trait or inherent. -/
structure ImplItem where
  attributes : List Attribute
  unsafety : Bool
  ofTrait : Bool
  self : Ty
  members : List ImplMember
  tokens : Tokens
deriving Repr

/-
  An item.  `marked` holds the declarations that carry
  attributes and declare no group of members (functions,
  constants, statics, type and trait aliases), `bare` those
  whose attributes do not count.
-/
inductive Item where
  | struct (item : StructItem)
  | enum (attributes : List Attribute) (visibility : Visibility) (name : String)
      (variants : List String) (tokens : Tokens)
  | union (attributes : List Attribute) (visibility : Visibility) (name : String)
      (fields : List String) (tokens : Tokens)
  | trait (attributes : List Attribute) (visibility : Visibility) (unsafety : Bool)
      (name : String) (members : List TraitMember) (tokens : Tokens)
  | impl (item : ImplItem)
  | module (attributes : List Attribute) (content : Option (List Item)) (tokens : Tokens)
  | marked (attributes : List Attribute) (tokens : Tokens)
  | bare (tokens : Tokens)
deriving Repr

namespace Item

/- The tokens that print an item. -/
def tokens : Item → Tokens
  | struct item => item.tokens
  | enum _ _ _ _ tokens => tokens
  | union _ _ _ _ tokens => tokens
  | trait _ _ _ _ _ tokens => tokens
  | impl item => item.tokens
  | module _ _ tokens => tokens
  | marked _ tokens => tokens
  | bare tokens => tokens

/- The attributes of an item, outer ones first. -/
def attributes : Item → List Attribute
  | struct item => item.attributes
  | enum attributes _ _ _ _ => attributes
  | union attributes _ _ _ _ => attributes
  | trait attributes _ _ _ _ _ => attributes
  | impl item => item.attributes
  | module attributes _ _ => attributes
  | marked attributes _ => attributes
  | bare _ => []

/- The span of an item. -/
def span
    (item : Item) : Span :=
  Tokens.span item.tokens

/- The items of an inline module. -/
def children : Item → List Item
  | module _ (some items) _ => items
  | _ => []

end Item

/- The items of a source file. -/
structure SourceFile where
  items : List Item
deriving Repr

end Nullary
