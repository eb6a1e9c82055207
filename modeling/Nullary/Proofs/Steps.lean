/-
  Steps that may fail.

  Main declarations:
    * `bind_eq_ok_iff`
    * `mapM_eq_ok`
    * `mapM_eq_error`
-/

namespace Nullary

variable {ε α β : Type}

------------------------------------------------------------
-- One Step after Another
------------------------------------------------------------

/- A step after another succeeds if both do. -/
theorem bind_eq_ok_iff
    {first : Except ε α}
    {second : α → Except ε β}
    {result : β} :
    (first >>= second) = .ok result ↔
      ∃ value, first = .ok value ∧ second value = .ok result := by
  cases first with
  | error e => simp [bind, Except.bind]
  | ok value => simp [bind, Except.bind]

/- A step after one that succeeds. -/
@[simp] theorem ok_bind
    (value : α)
    (second : α → Except ε β) :
    ((.ok value : Except ε α) >>= second) = second value :=
  rfl

/- A step after one that fails. -/
theorem error_bind
    (e : ε)
    (second : α → Except ε β) :
    ((.error e : Except ε α) >>= second) = .error e :=
  rfl

theorem toOption_eq_some_iff
    {x : Except ε α}
    {a : α} :
    x.toOption = some a ↔ x = .ok a := by
  cases x <;> simp [Except.toOption]

@[simp] theorem map_ok
    (f : α → β)
    (value : α) :
    (f <$> (.ok value : Except ε α)) = .ok (f value) :=
  rfl

------------------------------------------------------------
-- The Same Step for All Elements
------------------------------------------------------------

/- A step that succeeds for all elements. -/
theorem mapM_eq_ok
    {step : α → Except ε β}
    {f : α → β}
    {elements : List α}
    (hStep : ∀ a ∈ elements, step a = .ok (f a)) :
    elements.mapM step = .ok (elements.map f) := by
  induction elements with
  | nil => rfl
  | cons a rest ih =>
      have hFirst : step a = .ok (f a) :=
        hStep a List.mem_cons_self
      have hRest : rest.mapM step = .ok (rest.map f) :=
        ih fun b hMem => hStep b (List.mem_cons_of_mem a hMem)
      rw [List.mapM_cons, hFirst, ok_bind, hRest, ok_bind]
      rfl

/- The first element for which the step fails decides. -/
theorem mapM_eq_error
    {step : α → Except ε β}
    {before after : List α}
    {a : α}
    {e : ε}
    (hBefore : ∀ b ∈ before, ∃ result, step b = .ok result)
    (hStep : step a = .error e) :
    (before ++ a :: after).mapM step = .error e := by
  induction before with
  | nil =>
      rw [List.nil_append, List.mapM_cons, hStep, error_bind]
  | cons b rest ih =>
      rcases hBefore b List.mem_cons_self with ⟨result, hFirst⟩
      have hRest : (rest ++ a :: after).mapM step = .error e :=
        ih fun c hMem => hBefore c (List.mem_cons_of_mem b hMem)
      rw [List.cons_append, List.mapM_cons, hFirst, ok_bind,
        hRest, error_bind]

end Nullary
