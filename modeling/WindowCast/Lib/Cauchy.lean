import Mathlib

/-!
# Cauchy matrices

The matrix with entries `1 / (x j - y i)` has no singular square submatrix when
the `x j` and `y i` are all different.  It is what makes a systematic code with
Cauchy parity rows recover from any loss its parity covers.

## Main results

* `Cauchy.eq_zero_of_sum_eq_zero` — a vector supported on at most as many
  columns as there are rows it is orthogonal to is zero.
-/

namespace Cauchy

open Polynomial

variable {F ι κ : Type*} [Field F] [DecidableEq ι]

/-- The numerator of `∑ i ∈ I, v i / (X - y i)` over the common denominator. -/
noncomputable def numerator (I : Finset ι) (y v : ι → F) : F[X] :=
  ∑ i ∈ I, C (v i) * ∏ k ∈ I.erase i, (X - C (y k))

theorem degree_numerator_lt (I : Finset ι) (y v : ι → F) :
    (numerator I y v).degree < I.card := by
  rw [numerator]
  refine lt_of_le_of_lt (degree_sum_le _ _) ((Finset.sup_lt_iff (WithBot.bot_lt_coe _)).mpr ?_)
  intro i hi
  have hdeg : (∏ k ∈ I.erase i, (X - C (y k))).degree = ((I.card - 1 : ℕ) : WithBot ℕ) := by
    rw [degree_prod, Finset.sum_congr rfl fun k _ => degree_X_sub_C (y k), Finset.sum_const,
      Finset.card_erase_of_mem hi, nsmul_one]
  calc (C (v i) * ∏ k ∈ I.erase i, (X - C (y k))).degree
      ≤ (C (v i)).degree + (∏ k ∈ I.erase i, (X - C (y k))).degree := (degree_mul).le
    _ ≤ 0 + (∏ k ∈ I.erase i, (X - C (y k))).degree := by gcongr; exact degree_C_le
    _ = (∏ k ∈ I.erase i, (X - C (y k))).degree := zero_add _
    _ = ((I.card - 1 : ℕ) : WithBot ℕ) := hdeg
    _ < I.card := by
        have : 0 < I.card := Finset.card_pos.mpr ⟨i, hi⟩
        exact_mod_cast Nat.sub_lt this Nat.one_pos

/-- Away from the poles, the numerator is the sum times the common denominator. -/
theorem eval_numerator (I : Finset ι) (y v : ι → F) {a : F} (ha : ∀ i ∈ I, a ≠ y i) :
    (numerator I y v).eval a = (∏ k ∈ I, (a - y k)) * ∑ i ∈ I, (a - y i)⁻¹ * v i := by
  rw [numerator, eval_finsetSum, Finset.mul_sum]
  refine Finset.sum_congr rfl fun i hi => ?_
  have hne : a - y i ≠ 0 := sub_ne_zero.mpr (ha i hi)
  simp only [eval_mul, eval_C, eval_prod, eval_sub, eval_X]
  rw [← Finset.mul_prod_erase I _ hi]
  field_simp

/-- At a pole only one term of the numerator is left. -/
theorem eval_numerator_pole (I : Finset ι) (y v : ι → F) {i : ι} (hi : i ∈ I) :
    (numerator I y v).eval (y i) = v i * ∏ k ∈ I.erase i, (y i - y k) := by
  rw [numerator, eval_finsetSum, Finset.sum_eq_single_of_mem i hi]
  · simp [eval_prod]
  · intro j _ hji
    have hmem : i ∈ I.erase j := Finset.mem_erase.mpr ⟨hji.symm, hi⟩
    rw [eval_mul, eval_prod, Finset.prod_eq_zero hmem (by simp), mul_zero]

/-- **No square submatrix of a Cauchy matrix is singular**: a vector supported on
`I` and orthogonal to the rows `J` of the matrix is zero if `J` is at least as large. -/
theorem eq_zero_of_sum_eq_zero {I : Finset ι} {J : Finset κ} {x : κ → F} {y v : ι → F}
    (hx : Set.InjOn x J) (hy : Set.InjOn y I) (hxy : ∀ j ∈ J, ∀ i ∈ I, x j ≠ y i)
    (hcard : I.card ≤ J.card) (h : ∀ j ∈ J, ∑ i ∈ I, (x j - y i)⁻¹ * v i = 0) :
    ∀ i ∈ I, v i = 0 := by
  classical
  -- the numerator has more roots than its degree allows
  have hzero : numerator I y v = 0 := by
    refine eq_zero_of_degree_lt_of_eval_finset_eq_zero (J.image x) ?_ ?_
    · rw [Finset.card_image_of_injOn hx]
      exact lt_of_lt_of_le (degree_numerator_lt I y v) (by exact_mod_cast hcard)
    · intro a ha
      obtain ⟨j, hj, rfl⟩ := Finset.mem_image.mp ha
      rw [eval_numerator I y v (hxy j hj), h j hj, mul_zero]
  intro i hi
  have hpole := eval_numerator_pole I y v hi
  rw [hzero, eval_zero] at hpole
  refine (mul_eq_zero.mp hpole.symm).resolve_right (Finset.prod_ne_zero_iff.mpr ?_)
  intro k hk
  obtain ⟨hki, hkI⟩ := Finset.mem_erase.mp hk
  exact sub_ne_zero.mpr fun e => hki (hy hkI hi e.symm)

end Cauchy
