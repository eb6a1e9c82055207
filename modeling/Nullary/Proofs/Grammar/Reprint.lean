import Nullary.Grammar.Source
import Nullary.Proofs.Grammar.Placing
import Nullary.Proofs.Token.Texts

/-
  What is printed of what is written.

  A construct is printed with the tokens it was written with,
  save for a few forms that have a normal spelling.
  `Reprints` lists these forms; it is about the texts of
  tokens and about nothing else.  `Parser.Echoes` says that a
  parser gives back, in this sense, the tokens that it takes.

  Main declarations:
    * `Reprints`
    * `Reprints.of_context`
    * `Tokens.Echo`
    * `Parser.Echoes`
    * `Parser.EchoesAs`
    * `Parser.Echoes.bind`
    * `Parser.Echoes.iterate`
-/

namespace Nullary

open Nullary.Parser

------------------------------------------------------------
-- Normal Spellings
------------------------------------------------------------

/- The tokens that end a list of bounds or of predicates. -/
def endTexts : List String :=
  [",", ">", "=", ";", ":", "where", "\x7b", ")", "]", "\x7d"]

/- Nothing follows, or a token that ends a list. -/
def Ends
    (after : List String) : Prop :=
  ∀ text, after.head? = some text → text ∈ endTexts

/-
  The values of a list in angle brackets, lifetimes first.  A
  comma is put between lifetimes and other values if none
  stands there.
-/
def lifetimesFirst
    (values : List ((Bool × List String) × List String)) :
    List String :=
  let first := values.filter (·.1.1)
  let second := values.filter (!·.1.1)
  let print :=
    fun (vs : List ((Bool × List String) × List String)) =>
      vs.flatMap fun ((_, value), comma) => value ++ comma
  let trailing := first.getLast?.all fun (_, comma) => !comma.isEmpty
  let between := if trailing || second.isEmpty then [] else [","]
  print first ++ between ++ print second

/-
  `Reprints after written printed`: what is written before
  `after` is printed as `printed`.
-/
inductive Reprints :
    List String → List String → List String → Prop where
  | nil
      (after : List String) :
      Reprints after [] []
  | same
      (after : List String)
      (text : String) :
      Reprints after [text] [text]
  | append
      {after written₁ written₂ printed₁ printed₂ : List String}
      (hFirst : Reprints (written₂ ++ after) written₁ printed₁)
      (hSecond : Reprints after written₂ printed₂) :
      Reprints after (written₁ ++ written₂) (printed₁ ++ printed₂)
  /- A colon is left out if no bounds follow it. -/
  | colon
      {after : List String}
      (hEnds : Ends after) :
      Reprints after [":"] []
  /- A `where` is left out if no predicates follow it. -/
  | emptyWhere
      {after : List String}
      (hEnds : Ends after) :
      Reprints after ["where"] []
  /- Angle brackets are left out if they hold no parameters. -/
  | emptyParameters
      (after : List String) :
      Reprints after ["<", ">"] []
  /- The two colons before arguments in parentheses are left out. -/
  | pathSeparator
      {after written printed : List String}
      (hPrinted : Reprints after written (":" :: ":" :: "(" :: printed)) :
      Reprints after written ("(" :: printed)
  /- Lifetimes are put before the other values of a list. -/
  | lifetimesFirst
      {after written : List String}
      {values : List ((Bool × List String) × List String)}
      (hLifetimes : ∀ value ∈ values, value.1.1 = true → "'" ∈ value.1.2)
      (hCommas : ∀ value ∈ values, value.2 = [] ∨ value.2 = [","])
      (hPrinted :
        Reprints after written
          ("<" :: (values.flatMap (fun value => value.1.2 ++ value.2) ++
            [">"]))) :
      Reprints after written ("<" :: (lifetimesFirst values ++ [">"]))
  /- The position of a field is printed in decimal digits. -/
  | fieldPosition
      (after : List String)
      {text : String}
      {position : Nat}
      (hPosition : fieldPosition? text.toList = some position) :
      Reprints after [text] [toString position]
  /- The positions in a floating point literal are taken apart. -/
  | fieldPositions
      (after : List String)
      {text : String}
      {found : List Nat}
      {final : List String}
      (hFound :
        ((text.splitOn ".").filter (· != "")).mapM
          (fun part => fieldPosition? part.toList) = some found)
      (hFinal : final = [] ∨ final = ["."]) :
      Reprints after [text] ((found.map toString).intersperse "." ++ final)
  /- The three dots of a pattern are printed as a closed range. -/
  | closedRange
      (after : List String) :
      Reprints after [".", ".", "."] [".", ".", "="]
  /- A parameter that is a type alone is given a placeholder. -/
  | placeholder
      {after written printed : List String}
      {name : String}
      (hName : name ∉ Tokens.reserved)
      (hPrinted : Reprints after (name :: written) printed) :
      Reprints after (name :: written) ("_" :: ":" :: printed)
  /- The visibility of a variant is left out. -/
  | variantVisibility
      {after written restriction printed : List String}
      {name : String}
      (hRestriction :
        restriction = [] ∨ ∃ inner, restriction = "(" :: (inner ++ [")"]))
      (hName : name ∉ Tokens.reserved)
      (hPrinted :
        Reprints after written ("pub" :: (restriction ++ name :: printed))) :
      Reprints after written (name :: printed)
  /- The quantifier before a macro call is left out. -/
  | macroQuantifier
      {after written names path call : List String}
      (hPrinted :
        Reprints after written
          ("for" :: "<" :: (names ++ ">" :: (path ++ "!" :: call)))) :
      Reprints after written (path ++ "!" :: call)

namespace Reprints

theorem refl
    (after texts : List String) :
    Reprints after texts texts := by
  induction texts with
  | nil => exact .nil after
  | cons text rest ih =>
      have hFirst : Reprints (rest ++ after) [text] [text] :=
        .same (rest ++ after) text
      exact .append hFirst ih

/-
  What follows counts only by its first token, and all tokens
  that end a list count alike.
-/
theorem of_context
    {after after' written printed : List String}
    (hContext :
      after.head? = after'.head? ∨ Ends after ∧ Ends after')
    (hReprints : Reprints after written printed) :
    Reprints after' written printed := by
  have hEnds {a b : List String}
      (hSame : a.head? = b.head? ∨ Ends a ∧ Ends b)
      (hEnds : Ends a) :
      Ends b := by
    rcases hSame with hHead | hBoth
    · intro text hText
      exact hEnds text (hHead.trans hText)
    · exact hBoth.2
  induction hReprints generalizing after' with
  | nil => exact .nil after'
  | same _ text => exact .same after' text
  | @append _ _ second _ _ _ _ ihFirst ihSecond =>
      refine .append (ihFirst ?_) (ihSecond hContext)
      cases second with
      | nil => exact hContext
      | cons text rest => exact Or.inl rfl
  | colon h => exact .colon (hEnds hContext h)
  | emptyWhere h => exact .emptyWhere (hEnds hContext h)
  | emptyParameters => exact .emptyParameters after'
  | pathSeparator _ ih => exact .pathSeparator (ih hContext)
  | lifetimesFirst hLifetimes hCommas _ ih =>
      exact .lifetimesFirst hLifetimes hCommas (ih hContext)
  | fieldPosition _ hPosition => exact .fieldPosition after' hPosition
  | fieldPositions _ hFound hFinal =>
      exact .fieldPositions after' hFound hFinal
  | closedRange => exact .closedRange after'
  | placeholder hName _ ih => exact .placeholder hName (ih hContext)
  | variantVisibility hRestriction hName _ ih =>
      exact .variantVisibility hRestriction hName (ih hContext)
  | macroQuantifier _ ih => exact .macroQuantifier (ih hContext)

end Reprints

------------------------------------------------------------
-- Tokens That Echo
------------------------------------------------------------

/- A literal. -/
def TokenTree.isLiteral : TokenTree → Bool
  | .literal _ _ => true
  | _ => false

namespace Tokens

/- Two sequences end at one place, and the first not in a literal. -/
structure SameEnd
    (written printed : Tokens) : Prop where
  stop :
    written.getLast?.map (·.span.stop) =
      printed.getLast?.map (·.span.stop)
  isLiteral :
    ∀ tree, written.getLast? = some tree → tree.isLiteral = false

/-
  What is written before `after` is printed as `printed`; in
  the strict sense both also end at one place.
-/
structure Echo
    (strict : Bool)
    (after : List String)
    (written printed : Tokens) : Prop where
  reprints : Reprints after written.texts printed.texts
  sameEnd : strict = true → SameEnd written printed

/- Nothing, or a colon before the end of a list. -/
def DanglingColon
    (colon rest : Tokens) : Prop :=
  colon = [] ∨
    ∃ joint span, colon = [.mark ':' joint span] ∧ Ends rest.texts

namespace SameEnd

theorem nil :
    SameEnd [] [] :=
  ⟨rfl, fun _ hTree => by cases hTree⟩

theorem append
    {written₁ written₂ printed₁ printed₂ : Tokens}
    (hFirst : SameEnd written₁ printed₁)
    (hSecond : SameEnd written₂ printed₂) :
    SameEnd (written₁ ++ written₂) (printed₁ ++ printed₂) := by
  have hStop := hSecond.stop
  refine ⟨?_, ?_⟩
  · rw [List.getLast?_append, List.getLast?_append]
    cases hWritten : written₂.getLast? with
    | none =>
        rw [hWritten, Option.map_none] at hStop
        rw [Option.map_eq_none_iff.mp hStop.symm]
        exact hFirst.stop
    | some tree =>
        rw [hWritten, Option.map_some] at hStop
        rcases Option.map_eq_some_iff.mp hStop.symm with
          ⟨tree', hPrinted, hSame⟩
        rw [hPrinted]
        exact congrArg some hSame.symm
  · intro tree hTree
    rw [List.getLast?_append] at hTree
    cases hWritten : written₂.getLast? with
    | none =>
        rw [hWritten] at hTree
        exact hFirst.isLiteral tree hTree
    | some last =>
        rw [hWritten] at hTree
        cases hTree
        exact hSecond.isLiteral tree hWritten

/- Only the second part counts if there is one. -/
theorem append_of_ne_nil
    (written₁ printed₁ : Tokens)
    {written₂ printed₂ : Tokens}
    (hSecond : SameEnd written₂ printed₂)
    (hPrinted : printed₂ ≠ []) :
    SameEnd (written₁ ++ written₂) (printed₁ ++ printed₂) := by
  have hStop := hSecond.stop
  rcases Option.isSome_iff_exists.mp
      (List.getLast?_isSome.mpr hPrinted) with
    ⟨last, hLast⟩
  rw [hLast] at hStop
  rcases Option.map_eq_some_iff.mp hStop with ⟨tree, hTree, hSame⟩
  refine ⟨?_, ?_⟩
  · rw [List.getLast?_append, List.getLast?_append, hTree, hLast]
    exact congrArg some hSame
  · intro tree' hTree'
    rw [List.getLast?_append, hTree] at hTree'
    cases hTree'
    exact hSecond.isLiteral tree hTree

theorem of_append
    {written printed₁ printed₂ : Tokens}
    (hSame : SameEnd written (printed₁ ++ printed₂))
    (hPrinted : printed₂ ≠ []) :
    SameEnd written printed₂ := by
  refine ⟨?_, hSame.isLiteral⟩
  rcases Option.isSome_iff_exists.mp
      (List.getLast?_isSome.mpr hPrinted) with
    ⟨last, hLast⟩
  rw [hSame.stop, List.getLast?_append, hLast]
  rfl

theorem eq_nil_iff
    {written printed : Tokens}
    (hSame : SameEnd written printed) :
    written = [] ↔ printed = [] := by
  have hStop := hSame.stop
  constructor
  · rintro rfl
    exact List.getLast?_eq_none_iff.mp
      (Option.map_eq_none_iff.mp hStop.symm)
  · rintro rfl
    exact List.getLast?_eq_none_iff.mp (Option.map_eq_none_iff.mp hStop)

/- Trees with one span. -/
theorem singleton
    {tree tree' : TokenTree}
    (hSpan : tree.span = tree'.span)
    (hLiteral : tree.isLiteral = false) :
    SameEnd [tree] [tree'] := by
  refine ⟨by simp [hSpan], ?_⟩
  intro last hLast
  cases hLast
  exact hLiteral

end SameEnd

namespace Echo

variable {strict : Bool}
variable {after : List String}

theorem nil :
    Echo strict after [] [] :=
  ⟨by simpa using Reprints.nil after, fun _ => .nil⟩

theorem append
    {written₁ written₂ printed₁ printed₂ : Tokens}
    (hFirst : Echo strict (written₂.texts ++ after) written₁ printed₁)
    (hSecond : Echo strict after written₂ printed₂) :
    Echo strict after (written₁ ++ written₂) (printed₁ ++ printed₂) := by
  refine ⟨?_, fun hStrict => ?_⟩
  · rw [texts_append, texts_append]
    exact .append hFirst.reprints hSecond.reprints
  · exact (hFirst.sameEnd hStrict).append (hSecond.sameEnd hStrict)

/- Trees that follow each other. -/
theorem follow
    {written₁ written₂ printed₁ printed₂ rest : Tokens}
    (hFirst : Echo strict (texts (written₂ ++ rest)) written₁ printed₁)
    (hSecond : Echo strict rest.texts written₂ printed₂) :
    Echo strict rest.texts (written₁ ++ written₂)
      (printed₁ ++ printed₂) := by
  rw [texts_append] at hFirst
  exact hFirst.append hSecond

/- What ends a construct decides whether it ends at one place. -/
theorem close
    {written₁ written₂ printed₁ printed₂ : Tokens}
    (hFirst : Echo false (written₂.texts ++ after) written₁ printed₁)
    (hSecond : Echo strict after written₂ printed₂)
    (hPrinted : printed₂ ≠ []) :
    Echo strict after (written₁ ++ written₂) (printed₁ ++ printed₂) := by
  refine ⟨?_, fun hStrict => ?_⟩
  · rw [texts_append, texts_append]
    exact .append hFirst.reprints hSecond.reprints
  · exact (hSecond.sameEnd hStrict).append_of_ne_nil _ _ hPrinted

theorem loose
    {written printed : Tokens}
    (hEcho : Echo strict after written printed) :
    Echo false after written printed :=
  ⟨hEcho.reprints, fun hStrict => by cases hStrict⟩

/- What is strict is so in either sense. -/
theorem of_strict
    {written printed : Tokens}
    (hEcho : Echo true after written printed) :
    Echo strict after written printed :=
  ⟨hEcho.reprints, fun _ => hEcho.sameEnd rfl⟩

/- A single tree that is printed with its own span. -/
theorem singleton
    {tree tree' : TokenTree}
    (hReprints : Reprints after tree.texts tree'.texts)
    (hSpan : tree.span = tree'.span)
    (hLiteral : tree.isLiteral = false) :
    Echo strict after [tree] [tree'] := by
  refine ⟨?_, fun _ => .singleton hSpan hLiteral⟩
  simpa using hReprints

theorem word
    (text : String)
    (span : Span) :
    Echo strict after [.word text span] [.word text span] :=
  .singleton (.refl _ _) rfl rfl

/- Whether a mark is joint does not count. -/
theorem mark
    (c : Char)
    (joint joint' : Bool)
    (span : Span) :
    Echo strict after [.mark c joint span] [.mark c joint' span] := by
  refine .singleton ?_ rfl rfl
  rw [TokenTree.texts_mark, TokenTree.texts_mark]
  exact .same after c.toString

/- Trees that are kept as they are. -/
theorem refl
    (trees : Tokens) :
    Echo false after trees trees :=
  ⟨.refl after trees.texts, fun hStrict => by cases hStrict⟩

/- A colon that no bounds follow is left out. -/
theorem drop_colon
    {taken colon rest printed : Tokens}
    (hColon : DanglingColon colon rest)
    (hEcho : Echo strict (texts (colon ++ rest)) taken printed) :
    Echo false rest.texts (taken ++ colon) printed := by
  rcases hColon with rfl | ⟨joint, span, rfl, hEnds⟩
  · rw [List.append_nil]
    exact hEcho.loose
  · have hColon : Echo false rest.texts [.mark ':' joint span] [] := by
      refine ⟨?_, fun hStrict => by cases hStrict⟩
      simpa using Reprints.colon hEnds
    rw [texts_append] at hEcho
    have hAll := hEcho.loose.append hColon
    rwa [List.append_nil] at hAll

end Echo

end Tokens

open Nullary.Tokens

------------------------------------------------------------
-- Parsers That Echo
------------------------------------------------------------

namespace Parser

variable {α β : Type}

/- Parsers that run one after the other. -/
theorem run_bind_of_run
    {p : Parser α}
    {next : α → Parser β}
    {trees left rest : Tokens}
    {found : α}
    {value : β}
    (hFound : p.run trees = some (found, left))
    (hNext : (next found).run left = some (value, rest)) :
    (p >>= next).run trees = some (value, rest) := by
  change (Parser.bind p next).run trees = _
  unfold Parser.bind
  dsimp only
  rw [hFound]
  exact hNext

/-
  After trees that are printed as `before`, a parser takes
  trees so that all of them are printed as a condition on its
  result says.
-/
def Echoes
    (strict : Bool)
    (before : Tokens)
    (p : Parser α)
    (post : α → Tokens → Prop) : Prop :=
  ∀ (written trees : Tokens) (value : α) (rest : Tokens),
    Echo strict trees.texts written before →
    p.run trees = some (value, rest) →
    ∃ taken printed, trees = taken ++ rest ∧ post value printed ∧
      Echo strict rest.texts (written ++ taken) printed

/- The trees that a parser takes are printed by its result. -/
def EchoesAs
    (strict : Bool)
    (p : Parser α)
    (print : α → Tokens) : Prop :=
  ∀ (trees : Tokens) (value : α) (rest : Tokens),
    p.run trees = some (value, rest) →
    ∃ taken, trees = taken ++ rest ∧
      Echo strict rest.texts taken (print value)

namespace EchoesAs

variable {strict : Bool}
variable {p : Parser α}
variable {print : α → Tokens}

theorem of_strict
    (hEchoes : EchoesAs true p print) :
    EchoesAs strict p print := by
  intro trees value rest hRun
  rcases hEchoes trees value rest hRun with ⟨taken, hTrees, hEcho⟩
  exact ⟨taken, hTrees, hEcho.of_strict⟩

theorem loose
    (hEchoes : EchoesAs strict p print) :
    EchoesAs false p print := by
  intro trees value rest hRun
  rcases hEchoes trees value rest hRun with ⟨taken, hTrees, hEcho⟩
  exact ⟨taken, hTrees, hEcho.loose⟩

theorem of_echoes
    (hEchoes :
      Echoes strict [] p fun value printed => printed = print value) :
    EchoesAs strict p print := by
  intro trees value rest hRun
  rcases hEchoes [] trees value rest .nil hRun with
    ⟨taken, printed, hTrees, rfl, hEcho⟩
  exact ⟨taken, hTrees, hEcho⟩

theorem refuse :
    EchoesAs strict (Parser.refuse : Parser α) print := by
  intro trees value rest hRun
  cases hRun

theorem nothing :
    EchoesAs strict (pure []) fun tokens => tokens := by
  intro trees found rest hRun
  cases hRun
  exact ⟨[], rfl, .nil⟩

end EchoesAs

namespace Echoes

variable {strict : Bool}
variable {before : Tokens}
variable {p : Parser α}
variable {next : α → Parser β}
variable {print : α → Tokens}
variable {post : β → Tokens → Prop}
variable {q : Parser β}
variable {test : Tokens → Bool}
variable {condition : Prop}
variable {r : Parser β}

theorem pure
    {value : β}
    (hPost : post value before) :
    Echoes strict before (Pure.pure value) post := by
  intro written trees found rest hEcho hRun
  cases hRun
  exact ⟨[], before, rfl, hPost, by simpa using hEcho⟩

theorem pure_bind
    {value : α}
    (hNext : Echoes strict before (next value) post) :
    Echoes strict before (Pure.pure value >>= next) post :=
  fun written trees found rest hEcho hRun =>
    hNext written trees found rest hEcho hRun

theorem refuse :
    Echoes strict before (Parser.refuse : Parser β) post := by
  intro written trees found rest hEcho hRun
  cases hRun

/- The condition on a result holds also after trees taken before. -/
theorem resume
    {written taken left rest printed : Tokens}
    {value : β}
    (hNext : Echoes strict (before ++ printed) q post)
    (hEcho : Echo strict (texts (taken ++ left)) written before)
    (hTaken : Echo strict left.texts taken printed)
    (hRun : q.run left = some (value, rest)) :
    ∃ taken' printed', taken ++ left = taken' ++ rest ∧
      post value printed' ∧
      Echo strict rest.texts (written ++ taken') printed' := by
  rw [texts_append] at hEcho
  rcases hNext (written ++ taken) left value rest
      (hEcho.append hTaken) hRun with
    ⟨more, printed, rfl, hPost, hMore⟩
  refine ⟨taken ++ more, printed, by rw [List.append_assoc], hPost, ?_⟩
  rw [← List.append_assoc]
  exact hMore

/- Parsers one after the other, the second one told of the first. -/
theorem bind_of_run
    (hFirst : EchoesAs strict p print)
    (hNext :
      ∀ value trees rest, p.run trees = some (value, rest) →
        Echoes strict (before ++ print value) (next value) post) :
    Echoes strict before (p >>= next) post := by
  intro written trees value rest hEcho hRun
  rcases run_bind_eq_some hRun with ⟨found, left, hFound, hLeft⟩
  rcases hFirst trees found left hFound with ⟨taken, rfl, hTaken⟩
  exact (hNext found _ left hFound).resume hEcho hTaken hLeft

/- Parsers one after the other. -/
theorem bind
    (hFirst : EchoesAs strict p print)
    (hNext :
      ∀ value, Echoes strict (before ++ print value) (next value) post) :
    Echoes strict before (p >>= next) post :=
  bind_of_run hFirst fun value _ _ _ => hNext value

/- Parsers of which the first one is known by a condition. -/
theorem bind_post
    {known : α → Tokens → Prop}
    (hFirst : Echoes strict [] p known)
    (hNext :
      ∀ value printed, known value printed →
        Echoes strict (before ++ printed) (next value) post) :
    Echoes strict before (p >>= next) post := by
  intro written trees value rest hEcho hRun
  rcases run_bind_eq_some hRun with ⟨found, left, hFound, hLeft⟩
  rcases hFirst [] trees found left .nil hFound with
    ⟨taken, printed, rfl, hKnown, hTaken⟩
  exact (hNext found printed hKnown).resume hEcho hTaken hLeft

/- A parser that prints also what has been taken before it. -/
theorem andThen_post
    {known : α → Tokens → Prop}
    (hFirst : Echoes strict before p known)
    (hNext :
      ∀ value printed, known value printed →
        Echoes strict printed (next value) post) :
    Echoes strict before (p >>= next) post := by
  intro written trees value rest hEcho hRun
  rcases run_bind_eq_some hRun with ⟨found, left, hFound, hLeft⟩
  rcases hFirst written trees found left hEcho hFound with
    ⟨taken, printed, rfl, hKnown, hTaken⟩
  rcases hNext found printed hKnown (written ++ taken) left value rest
      hTaken hLeft with
    ⟨more, printed', rfl, hPost, hMore⟩
  refine ⟨taken ++ more, printed', by rw [List.append_assoc], hPost, ?_⟩
  rw [← List.append_assoc]
  exact hMore

theorem andThen
    (hFirst :
      Echoes strict before p fun value printed => printed = print value)
    (hNext : ∀ value, Echoes strict (print value) (next value) post) :
    Echoes strict before (p >>= next) post :=
  andThen_post hFirst fun value _ hPrinted => hPrinted ▸ hNext value

/- Parsers one after the other in another order of brackets. -/
theorem bind_assoc
    {γ : Type}
    {q : α → Parser γ}
    {next : γ → Parser β}
    (hEchoes : Echoes strict before ((p >>= q) >>= next) post) :
    Echoes strict before (p >>= fun value => q value >>= next) post := by
  intro written trees value rest hEcho hRun
  refine hEchoes written trees value rest hEcho ?_
  rcases run_bind_eq_some hRun with ⟨first, left, hFirst, hTail⟩
  rcases run_bind_eq_some hTail with ⟨second, left', hSecond, hLast⟩
  have hBoth : (p >>= q).run trees = some (second, left') :=
    run_bind_of_run hFirst hSecond
  exact run_bind_of_run hBoth hLast

/- A parser that is the last one. -/
theorem last
    {p : Parser β}
    {print : β → Tokens}
    (hLast : EchoesAs strict p print)
    (hPost : ∀ value, post value (before ++ print value)) :
    Echoes strict before p post := by
  intro written trees value rest hEcho hRun
  rcases hLast trees value rest hRun with ⟨taken, rfl, hTaken⟩
  rw [texts_append] at hEcho
  exact ⟨taken, _, rfl, hPost value, hEcho.append hTaken⟩

/- A look ahead takes nothing. -/
theorem look
    {f : Tokens → α}
    (hNext : ∀ value, Echoes strict before (next value) post) :
    Echoes strict before (Parser.look f >>= next) post := by
  intro written trees value rest hEcho hRun
  rcases run_bind_eq_some hRun with ⟨found, left, hFound, hLeft⟩
  cases hFound
  exact hNext _ written trees value rest hEcho hLeft

/- A choice by what is known. -/
theorem either
    [Decidable condition]
    (hThen : Echoes strict before q post)
    (hElse : Echoes strict before r post) :
    Echoes strict before (if condition then q else r) post := by
  split
  · exact hThen
  · exact hElse

/- A choice by a look ahead. -/
theorem branch
    (hThen : Echoes strict before q post)
    (hElse : Echoes strict before r post) :
    Echoes strict before
      (sees test >>= fun holds => if holds = true then q else r)
      post :=
  look fun _ => either hThen hElse

/- A choice by a test that may never hold. -/
theorem branch_of_test
    (hThen :
      ∀ trees, test trees = true → Echoes strict before q post)
    (hElse : Echoes strict before r post) :
    Echoes strict before
      (sees test >>= fun holds => if holds = true then q else r)
      post := by
  intro written trees value rest hEcho hRun
  rcases run_bind_eq_some hRun with ⟨_, _, hSees, hTail⟩
  cases hSees
  split at hTail
  · next hTest =>
      exact hThen _ hTest written trees value rest hEcho hTail
  · exact hElse written trees value rest hEcho hTail

/- A condition on which a parser refuses. -/
theorem refuseIf
    [Decidable condition]
    {next : Unit → Parser β}
    (hNext : Echoes strict before (next ()) post) :
    Echoes strict before
      (if condition then Parser.refuse >>= next else next ()) post := by
  refine either ?_ hNext
  intro written trees found rest hEcho hRun
  cases hRun

/- Two parsers, by what is known, after which both go on alike. -/
theorem pick
    [Decidable condition]
    {q : Parser α}
    (hThen : EchoesAs strict p print)
    (hElse : EchoesAs strict q print)
    (hNext :
      ∀ value, Echoes strict (before ++ print value) (next value) post) :
    Echoes strict before
      (if condition then p >>= next else q >>= next) post :=
  either (bind hThen hNext) (bind hElse hNext)

/- Two parsers, by a look ahead, after which both go on alike. -/
theorem choice
    {q : Parser α}
    (hThen : EchoesAs strict p print)
    (hElse : EchoesAs strict q print)
    (hNext :
      ∀ value, Echoes strict (before ++ print value) (next value) post) :
    Echoes strict before
      (sees test >>= fun holds =>
        if holds = true then p >>= next else q >>= next)
      post :=
  look fun _ => pick hThen hElse hNext

/- A test of what follows takes nothing. -/
theorem require
    {next : Unit → Parser β}
    (hNext : Echoes strict before (next ()) post) :
    Echoes strict before (Parser.require test >>= next) post := by
  intro written trees value rest hEcho hRun
  rcases run_bind_eq_some hRun with ⟨found, left, hFound, hLeft⟩
  rcases run_bind_eq_some hFound with ⟨holds, left', hSees, hThen⟩
  cases hSees
  split at hThen
  · cases hThen
    exact hNext written trees value rest hEcho hLeft
  · cases hThen

/- What has been printed is printed in another way. -/
theorem change
    {before' : Tokens}
    (hChange :
      ∀ after written, Echo strict after written before →
        Echo strict after written before')
    (hNext : Echoes strict before' q post) :
    Echoes strict before q post :=
  fun written trees value rest hEcho hRun =>
    hNext written trees value rest (hChange _ _ hEcho) hRun

theorem cast
    {before' : Tokens}
    (hEchoes : Echoes strict before' q post)
    (hSame : before = before') :
    Echoes strict before q post :=
  hSame ▸ hEchoes

/- A weaker condition on the result. -/
theorem weaken
    {post' : β → Tokens → Prop}
    (hEchoes : Echoes strict before q post')
    (hPost : ∀ value printed, post' value printed → post value printed) :
    Echoes strict before q post := by
  intro written trees value rest hEcho hRun
  rcases hEchoes written trees value rest hEcho hRun with
    ⟨taken, printed, hTrees, hPost', hPrinted⟩
  exact ⟨taken, printed, hTrees, hPost value printed hPost', hPrinted⟩

/- What one turn of a loop keeps, the whole loop keeps. -/
theorem loop
    {σ : Type}
    {step : σ → Parser (σ × Bool)}
    {kept : σ → Tokens → Prop}
    (hStep :
      ∀ state printed, kept state printed →
        Echoes strict printed (step state)
          fun next printed' => kept next.1 printed')
    (fuel : Nat)
    {state : σ}
    (hKept : kept state before) :
    Echoes strict before (Parser.loop step fuel state) kept := by
  induction fuel generalizing state before with
  | zero => exact refuse
  | succ fuel ih =>
      intro written trees value rest hEcho hRun
      rcases run_bind_eq_some hRun with
        ⟨⟨next, more⟩, left, hFound, hLeft⟩
      rcases hStep state before hKept written trees _ left hEcho
          hFound with
        ⟨taken, printed, rfl, hNext, hPrinted⟩
      dsimp only at hLeft hNext
      split at hLeft
      · rcases ih hNext (written ++ taken) left value rest hPrinted
            hLeft with
          ⟨taken', printed', rfl, hPost, hMore⟩
        refine ⟨taken ++ taken', printed', by rw [List.append_assoc],
          hPost, ?_⟩
        rw [← List.append_assoc]
        exact hMore
      · cases hLeft
        exact ⟨taken, printed, rfl, hNext, hPrinted⟩

theorem iterate
    {σ : Type}
    {step : σ → Parser (σ × Bool)}
    {kept : σ → Tokens → Prop}
    (hStep :
      ∀ state printed, kept state printed →
        Echoes strict printed (step state)
          fun next printed' => kept next.1 printed')
    {start : σ}
    (hKept : kept start before) :
    Echoes strict before (Parser.iterate start step) kept :=
  look fun count => loop hStep (count + 1) hKept

end Echoes

end Parser

end Nullary
