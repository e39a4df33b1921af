import Mathlib

/-!
# Rewriting an array in place

A loop that rewrites an array from its last place down, each place computed
from places no later than itself, reads only values it has not written yet: it
leaves what computing every place from the old array would.

## Main results

* `InPlace.getElem_foldl_reverse` — what such a loop leaves at each place.
-/

namespace InPlace

variable {α : Type*} {n : ℕ}

/-- Rewrite place `i` with what `f` makes of the array. -/
def rewrite (f : Vector α n → Fin n → α) (v : Vector α n) (i : Fin n) : Vector α n :=
  v.set i (f v i) i.isLt

/-- `f` computes each place from places no later than itself. -/
def ReadsBack (f : Vector α n → Fin n → α) : Prop :=
  ∀ (v w : Vector α n) (i : Fin n), (∀ j : Fin n, j ≤ i → v.get j = w.get j) → f v i = f w i

/-- Going down a list of places in decreasing order, the places still to come
are the old ones and the places passed are computed from the old array. -/
private theorem get_foldl {f : Vector α n → Fin n → α} (hf : ReadsBack f) (v : Vector α n) :
    ∀ (l : List (Fin n)) (w : Vector α n), l.Pairwise (· > ·) →
      (∀ i ∈ l, ∀ j, j ≤ i → w.get j = v.get j) →
      ∀ j, (l.foldl (rewrite f) w).get j = if j ∈ l then f v j else w.get j := by
  intro l
  induction l with
  | nil => intro w _ _ j; simp
  | cons i l ih =>
    intro w hl hw j
    rw [List.pairwise_cons] at hl
    have hi : f w i = f v i := hf w v i (hw i (by simp))
    have hset : ∀ k, (rewrite f w i).get k = if k = i then f v i else w.get k := by
      intro k
      simp only [rewrite, Vector.get_eq_getElem, Vector.getElem_set, hi, Fin.ext_iff, eq_comm]
    rw [List.foldl_cons, ih (rewrite f w i) hl.2]
    · rw [hset]
      by_cases hj : j ∈ l
      · simp [hj]
      · by_cases hji : j = i <;> simp [hj, hji]
    · intro k hk m hmk
      have hki : k < i := hl.1 k hk
      rw [hset, if_neg (lt_of_le_of_lt hmk hki).ne]
      exact hw i (by simp) m (hmk.trans hki.le)

/-- The loop from the last place down computes every place from the old array. -/
theorem get_foldl_reverse {f : Vector α n → Fin n → α} (hf : ReadsBack f) (v : Vector α n)
    (j : Fin n) : ((List.finRange n).reverse.foldl (rewrite f) v).get j = f v j := by
  have hdown : (List.finRange n).reverse.Pairwise (· > ·) := by
    rw [List.pairwise_reverse]
    exact List.pairwise_lt_finRange n
  rw [get_foldl hf v _ v hdown fun _ _ _ _ => rfl]
  simp

end InPlace
