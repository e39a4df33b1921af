import Mathlib

/-!
# The steps of a ladder

Numbers that only go up cut a range into consecutive parts, some of them maybe empty.

## Main results

* `Ladder.exists_step`, `Ladder.step_unique` — every place lies in one part.
* `Ladder.flatMap_steps` — one after the other, the parts have every place.
-/

namespace Ladder

variable {f : ℕ → ℕ} {n i b b' : ℕ}

/-- Every place lies in a part. -/
theorem exists_step (hlow : f 0 ≤ i) (hhigh : i < f n) : ∃ b < n, f b ≤ i ∧ i < f (b + 1) := by
  induction n with
  | zero => omega
  | succ n ih =>
    rcases Nat.lt_or_ge i (f n) with hlt | hge
    · obtain ⟨b, hb, hpart⟩ := ih hlt
      exact ⟨b, by omega, hpart⟩
    · exact ⟨n, by omega, hge, hhigh⟩

/-- No place lies in two parts. -/
theorem step_unique (hf : Monotone f) (h : f b ≤ i ∧ i < f (b + 1)) (h' : f b' ≤ i ∧ i < f (b' + 1)) : b = b' := by
  rcases Nat.lt_trichotomy b b' with hlt | heq | hgt
  · have := hf (show b + 1 ≤ b' from hlt)
    omega
  · exact heq
  · have := hf (show b' + 1 ≤ b from hgt)
    omega

/-- One after the other, the parts have every place. -/
theorem flatMap_steps (hf : Monotone f) (hzero : f 0 = 0) (n : ℕ) :
    ((List.range n).flatMap fun b => List.range' (f b) (f (b + 1) - f b)) = List.range (f n) := by
  induction n with
  | zero => rw [hzero]; rfl
  | succ n ih =>
    have hle : f n ≤ f (n + 1) := hf (Nat.le_succ n)
    have hsplit : List.range' 0 (f n) ++ List.range' (0 + f n) (f (n + 1) - f n) = List.range' 0 (f (n + 1)) := by
      rw [List.range'_append_1, Nat.add_sub_cancel' hle]
    rw [Nat.zero_add] at hsplit
    rw [List.range_succ, List.flatMap_append, ih, List.flatMap_singleton, List.range_eq_range', hsplit,
      List.range_eq_range']

end Ladder
