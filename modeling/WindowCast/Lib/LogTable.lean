import Mathlib

/-!
# A field from a table of discrete logarithms

Implementations of small finite fields rarely multiply polynomials: they step
once through the powers of a generator, store the exponent of every element in
a *log table*, and multiply by adding exponents.  This file says when such a
table is a field.  What is needed is little: multiplication by the generator
is an additive map `step`, the orbit of `one` under it is periodic, and every
non-zero element has an exponent.

## Main definitions

* `LogTable G` — a step map, its period and an exponent for each element.
* `LogTable.mul`, `LogTable.inv` — the product and the inverse by exponents.
* `LogTable.toField` — the field they form.

## Main results

* `LogTable.mul_eq_iterate` — multiplying by `a` is stepping `log a` times, so
  that every law of the product is a law of iterating an additive map.
-/

/-- The data of a log table over an additive group: `step` is multiplication by
the generator, `log a` an exponent of `a`. -/
structure LogTable (G : Type*) [AddCommGroup G] where
  /-- Multiplication by the generator. -/
  step : G →+ G
  /-- The unit, where the orbit starts. -/
  one : G
  /-- An exponent of each non-zero element. -/
  log : G → ℕ
  /-- A number of steps that leads back to the unit. -/
  period : ℕ
  period_pos : 0 < period
  one_ne_zero : one ≠ 0
  iterate_period : step^[period] one = one
  iterate_log : ∀ a, a ≠ 0 → step^[log a] one = a
  log_le : ∀ a, log a ≤ period

namespace LogTable

variable {G : Type*} [AddCommGroup G] (T : LogTable G)

/-! ### The orbit of the generator -/

/-! ### The product -/

variable [DecidableEq G]

/-- The product of two elements: add their exponents. -/
def mul (a b : G) : G := if a = 0 ∨ b = 0 then 0 else T.step^[T.log a + T.log b] T.one

/-- The inverse of an element: the exponent that completes the period. -/
def inv (a : G) : G := if a = 0 then 0 else T.step^[T.period - T.log a] T.one

@[simp] theorem zero_mul (b : G) : T.mul 0 b = 0 := by simp [mul]

@[simp] theorem mul_zero (a : G) : T.mul a 0 = 0 := by simp [mul]

theorem mul_comm (a b : G) : T.mul a b = T.mul b a := by
  simp only [mul, or_comm, Nat.add_comm]

/-- Multiplying by `a` is stepping `log a` times. -/
theorem mul_eq_iterate {a : G} (ha : a ≠ 0) (b : G) : T.mul a b = T.step^[T.log a] b := by
  by_cases hb : b = 0
  · rw [hb, mul_zero, iterate_map_zero]
  · rw [mul, if_neg (by simp [ha, hb]), Function.iterate_add_apply, T.iterate_log b hb]

theorem mul_add (a b c : G) : T.mul a (b + c) = T.mul a b + T.mul a c := by
  by_cases ha : a = 0
  · simp [ha]
  · simp only [T.mul_eq_iterate ha]
    exact iterate_map_add T.step _ b c

theorem mul_assoc (a b c : G) : T.mul (T.mul a b) c = T.mul a (T.mul b c) := by
  by_cases ha : a = 0
  · simp [ha]
  by_cases hc : c = 0
  · simp [hc]
  -- with `c` moved to the front both sides are `b` stepped `log a` and `log c` times
  rw [T.mul_comm _ c, T.mul_comm b c, T.mul_eq_iterate ha, T.mul_eq_iterate hc,
    T.mul_eq_iterate hc, T.mul_eq_iterate ha, ← Function.iterate_add_apply,
    ← Function.iterate_add_apply, Nat.add_comm]

theorem one_mul (b : G) : T.mul T.one b = b := by
  rw [T.mul_comm]
  by_cases hb : b = 0
  · simp [hb]
  · rw [T.mul_eq_iterate hb, T.iterate_log b hb]

theorem mul_inv_cancel {a : G} (ha : a ≠ 0) : T.mul a (T.inv a) = T.one := by
  rw [T.mul_eq_iterate ha, inv, if_neg ha, ← Function.iterate_add_apply,
    Nat.add_sub_cancel' (T.log_le a), T.iterate_period]

/-- The field a log table describes, over the addition the group already has. -/
@[reducible] def toField : Field G where
  mul := T.mul
  one := T.one
  inv := T.inv
  mul_assoc := T.mul_assoc
  mul_comm := T.mul_comm
  one_mul := T.one_mul
  mul_one a := (T.mul_comm a T.one).trans (T.one_mul a)
  zero_mul := T.zero_mul
  mul_zero := T.mul_zero
  left_distrib := T.mul_add
  right_distrib a b c := by
    change T.mul (a + b) c = T.mul a c + T.mul b c
    rw [T.mul_comm, T.mul_add, T.mul_comm c a, T.mul_comm c b]
  exists_pair_ne := ⟨T.one, 0, T.one_ne_zero⟩
  mul_inv_cancel _ ha := T.mul_inv_cancel ha
  inv_zero := if_pos rfl
  nnqsmul := _
  nnqsmul_def _ _ := rfl
  qsmul := _
  qsmul_def _ _ := rfl

end LogTable
