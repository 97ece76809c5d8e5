import Mathlib.Tactic.Common

/-!
# Computations that may fail

When a computation in `Except` succeeds, by the way it is put together.
-/

namespace Except

variable {ε α β : Type}

@[simp] theorem bind_eq_ok {x : Except ε α} {f : α → Except ε β} {b : β} :
    (x >>= f) = .ok b ↔ ∃ a, x = .ok a ∧ f a = .ok b := by
  cases x with
  | error error => simp [bind, Except.bind]
  | ok a => simp [bind, Except.bind]

@[simp] theorem map_eq_ok {x : Except ε α} {f : α → β} {b : β} :
    x.map f = .ok b ↔ ∃ a, x = .ok a ∧ f a = b := by
  cases x with
  | error error => simp [Except.map]
  | ok a => simp [Except.map]

/-- The result is there and passes the test. -/
def any (x : Except ε α) (p : α → Bool) : Bool :=
  match x with
  | .ok a => p a
  | .error _ => false

@[simp] theorem any_eq_true {x : Except ε α} {p : α → Bool} :
    x.any p = true ↔ ∃ a, x = .ok a ∧ p a = true := by
  cases x with
  | error error => simp [any]
  | ok a => simp [any]

/-- Both computations fail with the same error, or succeed with related results. -/
inductive Rel (R : α → β → Prop) : Except ε α → Except ε β → Prop where
  | error (error : ε) : Rel R (.error error) (.error error)
  | ok {a : α} {b : β} (related : R a b) : Rel R (.ok a) (.ok b)

theorem Rel.mono {R R' : α → β → Prop} {x : Except ε α} {y : Except ε β} (h : Rel R x y)
    (weaker : ∀ a b, R a b → R' a b) : Rel R' x y := by
  cases h with
  | error error => exact .error error
  | ok related => exact .ok (weaker _ _ related)

theorem Rel.toBool_eq {R : α → β → Prop} {x : Except ε α} {y : Except ε β} (h : Rel R x y) :
    x.toBool = y.toBool := by
  cases h <;> rfl

end Except
