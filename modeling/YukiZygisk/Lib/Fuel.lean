/-
# Computations that are given fuel

A function that may run for ever is written with a bound on its recursion, and answers `none` when
the bound is reached.  `Steady` says that a larger bound changes no answer; then the answer does
not depend on the bound (`Steady.unique`), and answers that were reached with two bounds are
reached with one (`Steady.lift`).

The order is the usual one: a larger bound gives more answers, and the same ones.  A development
then states a result with any bound that suffices, and leaves it to `Steady.unique` that another one
gives nothing else.
-/
import Mathlib

namespace Fuel

variable {α : Type*} {f : Nat → Option α} {a b : α} {n m : Nat}

/-- A larger bound changes no answer. -/
def Steady (f : Nat → Option α) : Prop := ∀ n a, f n = some a → f (n + 1) = some a

/-- With some bound the computation answers. -/
def Returns (f : Nat → Option α) : Prop := ∃ n a, f n = some a

theorem Steady.lift (hf : Steady f) (h : f n = some a) (hle : n ≤ m) : f m = some a := by
  induction hle with
  | refl => exact h
  | step _ ih => exact hf _ _ ih

/-- **The answer does not depend on the bound.** -/
theorem Steady.unique (hf : Steady f) (ha : f n = some a) (hb : f m = some b) : a = b := by
  have h1 := hf.lift ha (Nat.le_max_left n m)
  have h2 := hf.lift hb (Nat.le_max_right n m)
  rw [h1] at h2
  exact Option.some.inj h2

end Fuel
