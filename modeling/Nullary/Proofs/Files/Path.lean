import Mathlib.Data.List.Lex
import Nullary.Files.Path

/-
  The order of paths.

  Paths are compared component by component.  Two paths with
  the same components are the same path, however they are
  written.

  Main declarations:
    * `PathComponent.Precedes`
    * `FilePath.Precedes`
    * `FilePath.key_lt_key_iff`
    * `FilePath.key_eq_key_iff`
    * `FilePath.joinAll`
-/

namespace Nullary

------------------------------------------------------------
-- Lexicographic Order
------------------------------------------------------------

/- A function that keeps elements in order keeps lists in order. -/
theorem lex_map_iff
    {α β : Type}
    {f : α → β}
    {r : β → β → Prop}
    {s : α → α → Prop}
    (hInjective : Function.Injective f)
    (hOrder : ∀ a b, r (f a) (f b) ↔ s a b)
    (xs ys : List α) :
    List.Lex r (xs.map f) (ys.map f) ↔ List.Lex s xs ys := by
  induction xs generalizing ys with
  | nil =>
      cases ys with
      | nil => simp
      | cons y rest => simp
  | cons x rest ih =>
      cases ys with
      | nil => simp
      | cons y others =>
          rw [List.map_cons, List.map_cons, List.cons_lex_cons_iff,
            List.cons_lex_cons_iff, hOrder, hInjective.eq_iff, ih]

------------------------------------------------------------
-- Components
------------------------------------------------------------

namespace PathComponent

/- The place of a component among those of other forms. -/
def rank : PathComponent → Nat
  | .root => 0
  | .current => 1
  | .parent => 2
  | .name _ => 3

/-
  The order of components: the root, a dot, two dots, and then
  names, which are ordered as texts.
-/
def Precedes : PathComponent → PathComponent → Prop
  | .name a, .name b => a < b
  | a, b => a.rank < b.rank

theorem toNat_injective :
    Function.Injective Char.toNat :=
  fun _ _ hSame => Char.toNat_inj.mp hSame

theorem key_lt_key_iff
    (a b : PathComponent) :
    a.key < b.key ↔ a.Precedes b := by
  have hNames (s t : String) :
      s.toList.map Char.toNat < t.toList.map Char.toNat ↔ s < t :=
    lex_map_iff toNat_injective (fun _ _ => Iff.rfl) s.toList
      t.toList
  cases a <;> cases b <;>
    simp [key, Precedes, rank, List.cons_lt_cons_iff, hNames]

theorem key_injective :
    Function.Injective key := by
  intro a b hKey
  cases a with
  | name s =>
      cases b with
      | name t =>
          have hChars : s.toList = t.toList :=
            List.map_injective_iff.mpr toNat_injective
              (List.tail_eq_of_cons_eq hKey)
          exact congrArg name (String.toList_injective hChars)
      | _ => simp [key] at hKey
  | _ => cases b <;> simp_all [key]

end PathComponent

------------------------------------------------------------
-- Paths
------------------------------------------------------------

namespace FilePath

/- The order of paths, component by component. -/
def Precedes
    (p q : FilePath) : Prop :=
  List.Lex PathComponent.Precedes p.components q.components

theorem key_lt_key_iff
    (p q : FilePath) :
    p.key < q.key ↔ p.Precedes q :=
  lex_map_iff PathComponent.key_injective
    PathComponent.key_lt_key_iff p.components q.components

theorem key_eq_key_iff
    (p q : FilePath) :
    p.key = q.key ↔ p.components = q.components :=
  (List.map_injective_iff.mpr PathComponent.key_injective).eq_iff

/- The path of an entry at any depth below a directory. -/
def joinAll
    (p : FilePath)
    (names : List String) : FilePath :=
  names.foldl join p

end FilePath

end Nullary
