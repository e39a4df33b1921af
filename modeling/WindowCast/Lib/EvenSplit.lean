import WindowCast.Lib.Ladder

/-!
# Splitting a range as evenly as possible

`n` things in `c` consecutive parts, the first `n % c` of them one larger.

## Main results

* `EvenSplit.exists_part`, `EvenSplit.part_unique` — the parts cover every
  place exactly once.
* `EvenSplit.part_le`, `EvenSplit.part_pos`, `EvenSplit.part_even` — how large a part is.
* `EvenSplit.sum_parts` — the parts add up.
-/

namespace EvenSplit

/-- Where part `b` starts. -/
def start (n c b : ℕ) : ℕ := b * (n / c) + min b (n % c)

@[simp] theorem start_zero (n c : ℕ) : start n c 0 = 0 := by simp [start]

theorem start_last {n c : ℕ} (hc : 0 < c) : start n c c = n := by
  rw [start, Nat.min_eq_right (Nat.mod_lt n hc).le]
  exact Nat.div_add_mod n c

theorem start_succ (n c b : ℕ) :
    start n c (b + 1) = start n c b + (n / c + if b < n % c then 1 else 0) := by
  have hmul : (b + 1) * (n / c) = b * (n / c) + n / c := Nat.succ_mul _ _
  simp only [start, hmul]
  split <;> omega

theorem start_mono (n c : ℕ) : Monotone (start n c) := by
  apply monotone_nat_of_le_succ
  intro b
  rw [start_succ]
  exact Nat.le_add_right _ _

/-- Every place lies in a part. -/
theorem exists_part {n c i : ℕ} (hc : 0 < c) (hi : i < n) :
    ∃ b < c, start n c b ≤ i ∧ i < start n c (b + 1) :=
  Ladder.exists_step (by rw [start_zero]; exact Nat.zero_le i) (by rw [start_last hc]; exact hi)

/-- No place lies in two parts. -/
theorem part_unique {n c i b b' : ℕ} (h : start n c b ≤ i ∧ i < start n c (b + 1))
    (h' : start n c b' ≤ i ∧ i < start n c (b' + 1)) : b = b' :=
  Ladder.step_unique (start_mono n c) h h'

/-- A part is no larger than `m` if `c` parts of size `m` would hold everything. -/
theorem part_le {n c m : ℕ} (h : n ≤ c * m) (b : ℕ) :
    start n c (b + 1) - start n c b ≤ m := by
  rw [start_succ, Nat.add_sub_cancel_left]
  have hdiv := Nat.div_add_mod n c
  have hle : n / c ≤ m := Nat.div_le_of_le_mul h
  split
  · rename_i hb
    -- the remainder is not zero, so the quotient is below `m`
    by_contra hgt
    have heq : n / c = m := by omega
    rw [heq] at hdiv
    omega
  · exact hle

/-- With at most `n` parts none is empty. -/
theorem part_pos {n c : ℕ} (hc : 0 < c) (h : c ≤ n) (b : ℕ) :
    start n c b < start n c (b + 1) := by
  rw [start_succ]
  have := Nat.div_pos h hc
  omega

/-- The parts are as large as each other, or one larger. -/
theorem part_even (n c b b' : ℕ) :
    start n c (b + 1) - start n c b ≤ start n c (b' + 1) - start n c b' + 1 := by
  rw [start_succ, start_succ, Nat.add_sub_cancel_left, Nat.add_sub_cancel_left]
  split <;> omega

/-- The parts add up to everything. -/
theorem sum_parts {n c : ℕ} (hc : 0 < c) :
    ∑ b ∈ Finset.range c, (start n c (b + 1) - start n c b) = n := by
  rw [Finset.sum_range_tsub (start_mono n c), start_last hc, start_zero, Nat.sub_zero]

end EvenSplit
